import Wallchanger.ChangeLib.MessageType
import Wallchanger.ChangeService.ChangeState
import Wallchanger.Foundation.Run
import Wallchanger.Net.ServerInterface

/-! `change_server.hpp`: what the server does with a message, over any implementation of
the operations of `wallchanger::state`. -/

namespace Wallchanger

open Foundation Net

/-- The operations that the server calls. -/
structure StateApi (σ : Type) where
  getNextWallpaper : Environment → σ → Outcome (σ × Json)
  getPreviousWallpaper : σ → Outcome (σ × Json)
  markFavorate : σ → Outcome σ
  changeActive : Json → σ → Outcome (σ × Bool)
  createCollection : Environment → Json → σ → Outcome (σ × Bool)
  addToCollection : Json → σ → Outcome (σ × Bool)
  renameCollection : Json → σ → Outcome (σ × Bool)
  removeCollection : Json → σ → Outcome (σ × Bool)
  listCollection : Json → σ → Outcome (σ × Listing)
  mergeCollection : Json → σ → Outcome (σ × Bool)
  moveCollectoion : Json → σ → Outcome (σ × Bool)

/-- The operations of the service. -/
def State.api : StateApi State where
  getNextWallpaper := State.getNextWallpaper
  getPreviousWallpaper state := .ok state.getPreviousWallpaper
  markFavorate := State.markFavorate
  changeActive := State.changeActive
  createCollection := State.createCollection
  addToCollection := State.addToCollection
  renameCollection := State.renameCollection
  removeCollection := State.removeCollection
  listCollection := State.listCollection
  mergeCollection := State.mergeCollection
  moveCollectoion := State.moveCollectoion

/-- `connections` is the number of entries of `m_connections`. -/
structure ChangeServer (σ : Type) where
  state : σ
  connections : Nat := 0
  startTime : UInt64 := 0

/-- `json::empty`. -/
def Json.isEmpty : Json → Bool
  | .null => true
  | .array elements => elements.isEmpty
  | .object fields => fields.isEmpty
  | _ => false

/-- The bytes of a time point in memory. -/
def timeBytes (time : UInt64) : Bytes :=
  (List.range 8).map (fun place => UInt8.ofNat (time.toNat / 256 ^ place))

namespace ChangeServer

/-- A message over the byte of a boolean, by `operator<<`. -/
def flagMessage (type : MessageType) (flag : Bool) (now : UInt64) : Message :=
  Message.push { header := { id := type.code } } [if flag then 1 else 0] now

/-- `m_success`. -/
def success (now : UInt64) : Message := flagMessage .statusSuccess true now

/-- `on_client_connect`. -/
def onClientConnect (now : UInt64) (client : Peer) : Peer × Bool :=
  (client.sendMessage (flagMessage .clientAccepted true now), true)

variable {σ : Type}

/-- The server after an operation that reports success or failure, and the reply. -/
def reported (server : ChangeServer σ) (now : UInt64) (outcome : Outcome (σ × Bool)) :
    Outcome (ChangeServer σ × List Message) := do
  let (state, done) ← outcome
  return ({ server with state }, if done then [success now] else [])

/-- What `List_Collections` is answered with. -/
def listObject : Listing → Json
  | .monostate => .null
  | .cache items => .object [("list", toJson items), ("list-only", .boolean false)]
  | .names list => .object [("list", vectorToJson list), ("list-only", .boolean true)]

/-- `m_process`: the server it leaves and the messages it sends to the client. The body is
decoded before the type is looked at. -/
def process (api : StateApi σ) (cbor : Cbor) (env : Environment) (server : ChangeServer σ) (msg : Message) :
    Outcome (ChangeServer σ × List Message) :=
  match MessageHelper.msgToJson cbor msg with
  | .error thrown => .error (.thrown thrown)
  | .ok serverCmd =>
    match MessageType.ofCode msg.header.id with
    | some .getNextWallpaper => do
      let (state, send) ← api.getNextWallpaper env server.state
      return ({ server with state }, [MessageHelper.jsonToMsg cbor .getNextWallpaper send env.now])
    | some .getPreviousWallpaper => do
      let (state, prev) ← api.getPreviousWallpaper server.state
      return ({ server with state },
        if !prev.isEmpty then [MessageHelper.jsonToMsg cbor .getPreviousWallpaper prev env.now]
        else [flagMessage .statusFailure false env.now])
    | some .getCurrent => do
      let (state, cur) ← api.getNextWallpaper env server.state
      return ({ server with state }, [MessageHelper.jsonToMsg cbor .getCurrent cur env.now])
    | some .markFavorate => do
      let state ← api.markFavorate server.state
      return ({ server with state }, [success env.now])
    | some .changeActiveCollection => server.reported env.now (api.changeActive serverCmd server.state)
    | some .createCollection => server.reported env.now (api.createCollection env serverCmd server.state)
    | some .addToCollection => server.reported env.now (api.addToCollection serverCmd server.state)
    | some .renameCollection => server.reported env.now (api.renameCollection serverCmd server.state)
    | some .remove => server.reported env.now (api.removeCollection serverCmd server.state)
    | some .listCollections => do
      let (state, listing) ← api.listCollection serverCmd server.state
      let obj := listObject listing
      return ({ server with state },
        if !obj.isNull then [MessageHelper.jsonToMsg cbor .listCollections obj env.now] else [])
    | some .mergeCollection => server.reported env.now (api.mergeCollection serverCmd server.state)
    | some .move => server.reported env.now (api.moveCollectoion serverCmd server.state)
    | some .serverGetStatus =>
      let ret := Json.object [("connections", .number server.connections),
        ("uptime", .number (env.now.toNat - server.startTime.toNat))]
      .ok (server, [MessageHelper.jsonToMsg cbor .serverGetStatus ret env.now])
    | some .serverGetPing => .ok (server, [msg.push (timeBytes msg.time) env.now])
    | some .clientAccepted | some .clientAssignID | some .clientRegisterWithServer
    | some .clientUnregisterWithServer | some .statusSuccess | some .statusFailure | none =>
      .ok (server, [])

/-- `on_message`. -/
def onMessage (api : StateApi σ) (cbor : Cbor) (env : Environment) (server : ChangeServer σ) (msg : Message) :
    Outcome (ChangeServer σ × List Message) :=
  if msg.validate then process api cbor env server msg else .ok (server, [])

/-- A turn of the loop in `update`, `none` where `on_message` does not return. -/
def step (api : StateApi σ) (cbor : Cbor) (server : ChangeServer σ) (incoming : Environment × Message) :
    Option (ChangeServer σ) := (onMessage api cbor incoming.1 server incoming.2).toOption.map Prod.fst

theorem step_eq_some {api : StateApi σ} {cbor : Cbor} {server next : ChangeServer σ}
    {request : Environment × Message} : step api cbor server request = some next ↔
      ∃ sent, onMessage api cbor request.1 server request.2 = .ok (next, sent) := by
  constructor
  · intro taken
    obtain ⟨⟨_, sent⟩, returned, rfl⟩ := Option.map_eq_some_iff.mp taken
    exact ⟨sent, toOption_eq_some.mp returned⟩
  · intro ⟨sent, returned⟩
    exact Option.map_eq_some_iff.mpr ⟨_, toOption_eq_some.mpr returned, rfl⟩

/-! ### The messages of the server -/

theorem validate_finalize (msg : Message) (now : UInt64) : (msg.finalize now).validate = true :=
  decide_eq_true rfl

theorem validate_push (msg : Message) (data : Bytes) (now : UInt64) : (msg.push data now).validate = true :=
  decide_eq_true rfl

end ChangeServer

end Wallchanger
