import Wallchanger.ChangeService.Service
import Wallchanger.Foundation.Simulation

/-! The server over two implementations of the state: if their operations answer alike, so do
the servers, and so do the services in every order of what happens to them. -/

namespace Wallchanger

open Foundation Net

variable {σ τ : Type}

/-- The operations answer what the other ones answer, as long as the commands are allowed. -/
structure StateApi.Follows (related : σ → τ → Prop) (allowed : Json → Prop) (api : StateApi σ)
    (specified : StateApi τ) : Prop where
  getNextWallpaper : ∀ env {state shown}, related state shown →
    Foundation.Follows related (api.getNextWallpaper env state) (specified.getNextWallpaper env shown)
  getPreviousWallpaper : ∀ {state shown}, related state shown →
    Foundation.Follows related (api.getPreviousWallpaper state) (specified.getPreviousWallpaper shown)
  markFavorate : ∀ {state shown}, related state shown →
    Foundation.Follows related ((·, ()) <$> api.markFavorate state) ((·, ()) <$> specified.markFavorate shown)
  changeActive : ∀ {serverCmd state shown}, allowed serverCmd → related state shown →
    Foundation.Follows related (api.changeActive serverCmd state) (specified.changeActive serverCmd shown)
  createCollection : ∀ env {serverCmd state shown}, allowed serverCmd → related state shown →
    Foundation.Follows related (api.createCollection env serverCmd state)
      (specified.createCollection env serverCmd shown)
  addToCollection : ∀ {serverCmd state shown}, allowed serverCmd → related state shown →
    Foundation.Follows related (api.addToCollection serverCmd state) (specified.addToCollection serverCmd shown)
  renameCollection : ∀ {serverCmd state shown}, allowed serverCmd → related state shown →
    Foundation.Follows related (api.renameCollection serverCmd state) (specified.renameCollection serverCmd shown)
  removeCollection : ∀ {serverCmd state shown}, allowed serverCmd → related state shown →
    Foundation.Follows related (api.removeCollection serverCmd state) (specified.removeCollection serverCmd shown)
  listCollection : ∀ {serverCmd state shown}, allowed serverCmd → related state shown →
    Foundation.Follows related (api.listCollection serverCmd state) (specified.listCollection serverCmd shown)
  mergeCollection : ∀ {serverCmd state shown}, allowed serverCmd → related state shown →
    Foundation.Follows related (api.mergeCollection serverCmd state) (specified.mergeCollection serverCmd shown)
  moveCollectoion : ∀ {serverCmd state shown}, allowed serverCmd → related state shown →
    Foundation.Follows related (api.moveCollectoion serverCmd state) (specified.moveCollectoion serverCmd shown)

/-! ### The server -/

namespace ChangeServer

/-- Servers that differ in their states alone. -/
structure Related (related : σ → τ → Prop) (server : ChangeServer σ) (other : ChangeServer τ) : Prop where
  state : related server.state other.state
  connections : server.connections = other.connections
  startTime : server.startTime = other.startTime

/-- What a message is decoded to, if it is, is allowed. -/
def Allowed (allowed : Json → Prop) (cbor : Cbor) (msg : Message) : Prop :=
  ∀ serverCmd, MessageHelper.msgToJson cbor msg = .ok serverCmd → allowed serverCmd

variable {related : σ → τ → Prop} {allowed : Json → Prop} {api : StateApi σ} {specified : StateApi τ}
  {cbor : Cbor} {server : ChangeServer σ} {other : ChangeServer τ}

theorem Related.withState (servers : Related related server other) {state : σ} {shown : τ}
    (kept : related state shown) : Related related { server with state } { other with state := shown } :=
  ⟨kept, servers.connections, servers.startTime⟩

theorem follows_reported (servers : Related related server other) (now : UInt64)
    {outcome : Outcome (σ × Bool)} {wanted : Outcome (τ × Bool)}
    (follows : Foundation.Follows related outcome wanted) :
    Foundation.Follows (Related related) (server.reported now outcome) (other.reported now wanted) :=
  follows.bind (fun _ _ _ kept => ⟨servers.withState kept, rfl⟩)

theorem follows_process (follows : api.Follows related allowed specified) (env : Environment)
    (servers : Related related server other) {msg : Message} (good : Allowed allowed cbor msg) :
    Foundation.Follows (Related related) (process api cbor env server msg)
      (process specified cbor env other msg) := by
  unfold process
  cases decoded : MessageHelper.msgToJson cbor msg with
  | error thrown => exact rfl
  | ok serverCmd =>
    have fine := good serverCmd decoded
    have held := servers.state
    dsimp only
    split
    · exact (follows.getNextWallpaper env held).bind (fun _ _ _ kept => ⟨servers.withState kept, rfl⟩)
    · exact (follows.getPreviousWallpaper held).bind (fun _ _ _ kept => ⟨servers.withState kept, rfl⟩)
    · exact (follows.getNextWallpaper env held).bind (fun _ _ _ kept => ⟨servers.withState kept, rfl⟩)
    · exact (follows.markFavorate held).bind_state (fun _ _ kept => ⟨servers.withState kept, rfl⟩)
    · exact follows_reported servers env.now (follows.changeActive fine held)
    · exact follows_reported servers env.now (follows.createCollection env fine held)
    · exact follows_reported servers env.now (follows.addToCollection fine held)
    · exact follows_reported servers env.now (follows.renameCollection fine held)
    · exact follows_reported servers env.now (follows.removeCollection fine held)
    · exact (follows.listCollection fine held).bind (fun _ _ _ kept => ⟨servers.withState kept, rfl⟩)
    · exact follows_reported servers env.now (follows.mergeCollection fine held)
    · exact follows_reported servers env.now (follows.moveCollectoion fine held)
    · rw [servers.connections, servers.startTime]
      exact ⟨servers, rfl⟩
    all_goals exact ⟨servers, rfl⟩

/-- A message leaves the servers alike and is answered alike. -/
theorem follows_onMessage (follows : api.Follows related allowed specified) (env : Environment)
    (servers : Related related server other) {msg : Message} (good : Allowed allowed cbor msg) :
    Foundation.Follows (Related related) (onMessage api cbor env server msg)
      (onMessage specified cbor env other msg) := by
  unfold onMessage
  split
  · exact follows_process follows env servers good
  · exact ⟨servers, rfl⟩

end ChangeServer

/-! ### The service -/

namespace Service

/-- Services that differ in the states of their servers alone. -/
structure Related (related : σ → τ → Prop) (service : Service σ) (other : Service τ) : Prop where
  server : service.server.Related related other.server
  talks : service.talks = other.talks
  incomming : service.incomming = other.incomming

/-- The message a turn of the loop takes is allowed. -/
def Allowed (allowed : Json → Prop) (cbor : Cbor) (service : Service σ) : ServiceOp → Prop
  | .update _ => ∀ entry ∈ service.incomming.take 1, ChangeServer.Allowed allowed cbor entry.2
  | _ => True

variable {related : σ → τ → Prop} {allowed : Json → Prop} {api : StateApi σ} {specified : StateApi τ}
  {cbor : Cbor} {service : Service σ} {other : Service τ}

theorem related_step (follows : api.Follows related allowed specified) (services : Related related service other)
    {op : ServiceOp} (good : Allowed allowed cbor service op) :
    Option.Rel (Related related) (service.step api cbor op) (other.step specified cbor op) := by
  obtain ⟨server, talks, incomming⟩ := service
  obtain ⟨server', talks', incomming'⟩ := other
  obtain ⟨servers, sameTalks, sameQueue⟩ := services
  dsimp only at servers sameTalks sameQueue
  subst sameTalks sameQueue
  cases op with
  | connect id now =>
    exact .some ⟨⟨servers.state, congrArg (· + 1) servers.connections, servers.startTime⟩, rfl, rfl⟩
  | ask client msg =>
    dsimp only [step]
    cases talks[client]? with
    | none => exact .none
    | some talk => exact .some ⟨servers, rfl, rfl⟩
  | act client owner activity =>
    dsimp only [step, act]
    cases talks[client]? with
    | none => exact .none
    | some talk =>
      dsimp only [Option.bind_eq_bind, Option.bind_some]
      cases talk.step owner activity with
      | none => exact .none
      | some next => exact .some ⟨servers, rfl, rfl⟩
  | update env =>
    dsimp only [step, update]
    cases incomming with
    | nil => exact .none
    | cons entry later =>
      obtain ⟨client, msg⟩ := entry
      have both : Foundation.Follows (ChangeServer.Related related)
          (ChangeServer.onMessage api cbor env server msg)
          (ChangeServer.onMessage specified cbor env server' msg) :=
        ChangeServer.follows_onMessage follows env servers (good (client, msg) (List.mem_singleton_self _))
      dsimp only
      generalize ChangeServer.onMessage api cbor env server msg = outcome at both ⊢
      generalize ChangeServer.onMessage specified cbor env server' msg = wanted at both ⊢
      cases outcome with
      | error fault =>
        cases wanted with
        | error fault' => exact .none
        | ok given' => exact both.elim
      | ok given =>
        cases wanted with
        | error fault' => exact both.elim
        | ok given' =>
          obtain ⟨kept, sent⟩ := both
          exact .some ⟨kept, by rw [sent], rfl⟩

/-- Over states that answer alike the services go alike: a run is defined for both or for
neither, and the clients, their messages and the queue are the same. -/
theorem related_run (follows : api.Follows related allowed specified) (services : Related related service other)
    {ops : List ServiceOp} (good : Along (step api cbor) (Allowed allowed cbor) service ops) :
    Option.Rel (Related related) (run (step api cbor) service ops) (run (step specified cbor) other ops) := by
  have each : ∀ (service : Service σ) (other : Service τ) op, Related related service other →
      Allowed allowed cbor service op →
        Option.Rel (Related related) (service.step api cbor op) (other.step specified cbor op) :=
    fun _ _ _ services good => related_step follows services good
  exact run_related each services good

end Service

end Wallchanger
