import Wallchanger.ChangeService.ChangeServer

/-! The greeting of accepted clients: `on_client_connect` sends it before
`connect_to_client` marks the connection as connected. -/

namespace Wallchanger.ChangeServer

open Foundation Net

/-- The step of a server that greets its clients. -/
abbrev serve : ServerInterface → ServerOp → Option ServerInterface := ServerInterface.step onClientConnect

def IsGreeting (msg : Message) : Prop := ∃ now, msg = flagMessage .clientAccepted true now

/-- The greeting is the first message that is placed on the queue of the connection, or
that waits to be placed there; and while the socket is open and no disconnect has happened,
every message the server sent is. -/
def Greeted (peer : Peer) : Prop :=
  (∃ msg rest, IsGreeting msg ∧ peer.queued ++ peer.posted = msg :: rest) ∧
    (peer.isConnected = true → peer.offered = peer.queued ++ peer.posted)

/-- While the connection stands, all messages that the server sent but the greeting are
placed, in order. -/
def GreetingDropped (peer : Peer) : Prop :=
  peer.isConnected = true → ∃ msg, IsGreeting msg ∧ peer.offered = msg :: (peer.queued ++ peer.posted)

/-- An accept of a client. -/
def Accepts (op : ServerOp) : Prop := ∃ id now, op = .accept id now

theorem greeted_iff (peer : Peer) : Greeted peer ↔
    (ServerInterface.PeerInvariant.and (.starting IsGreeting) (.losing (· = []))).holds peer := by
  refine and_congr Iff.rfl (imp_congr_right (fun _ => ?_))
  constructor
  · intro same
    exact ⟨[], rfl, same⟩
  · intro ⟨gone, nothing, same⟩
    rw [nothing] at same
    exact same

theorem greetingDropped_iff (peer : Peer) : GreetingDropped peer ↔
    (ServerInterface.PeerInvariant.losing (fun gone => ∃ msg, IsGreeting msg ∧ gone = [msg])).holds peer := by
  refine imp_congr_right (fun _ => ?_)
  constructor
  · intro ⟨msg, greeting, same⟩
    exact ⟨[msg], ⟨msg, greeting, rfl⟩, same⟩
  · intro ⟨gone, ⟨msg, greeting, one⟩, same⟩
    rw [one] at same
    exact ⟨msg, greeting, same⟩

theorem every_iff {holds holds' : Peer → Prop} (same : ∀ peer, holds peer ↔ holds' peer)
    (server : ServerInterface) : server.Every holds ↔ server.Every holds' :=
  forall_congr' (fun peer => imp_congr_right (fun _ => same peer))

/-- A client that was just accepted: the greeting was sent to a connection that was not
connected yet. -/
theorem accepted_client (id : UInt32) (now : UInt64) :
    (onClientConnect now { connection := { owner := .server } }).1.connectToClient id =
      { connection := ({ owner := .server, connected := true, id } : Connection).readHeader
        offered := [flagMessage .clientAccepted true now] } := rfl

theorem serve_accept (server : ServerInterface) (id : UInt32) (now : UInt64) :
    serve server (.accept id now) = some { server with
      peers := server.peers ++ [{ connection := ({ owner := .server, connected := true, id } : Connection).readHeader
                                  offered := [flagMessage .clientAccepted true now] }]
      connections := server.connections ++ [some server.peers.length] } := rfl

/-- A step keeps the handshake with every client exactly if it accepts none. -/
theorem greeted_step_iff {server next : ServerInterface} {op : ServerOp} (every : server.Every Greeted)
    (taken : serve server op = some next) : next.Every Greeted ↔ ¬ Accepts op := by
  constructor
  · intro after ⟨id, now, accepts⟩
    subst accepts
    rw [serve_accept] at taken
    cases taken
    obtain ⟨⟨msg, rest, _, placed⟩, _⟩ := after _ (List.mem_append_right _ (List.mem_singleton.mpr rfl))
    cases placed
  · intro other
    rw [every_iff greeted_iff] at every ⊢
    exact ServerInterface.every_step every (fun id now accepts => absurd ⟨id, now, accepts⟩ other) taken

/-- In every run the greeting of each accepted client is lost, and no other message. -/
theorem greeting_dropped_throughout (ops : List ServerOp) :
    Throughout serve (ServerInterface.Every GreetingDropped) {} ops := by
  have start : ServerInterface.Every GreetingDropped {} := fun _ member => nomatch member
  refine throughout_of_kept (fun server op next every taken => ?_) start
  rw [every_iff greetingDropped_iff] at every ⊢
  refine ServerInterface.every_step every (fun id now _ => ?_) taken
  rw [accepted_client, ← greetingDropped_iff]
  exact fun _ => ⟨_, ⟨now, rfl⟩, rfl⟩

/-- The handshake is kept exactly in the runs that accept no client; in every run the
greeting is what an accepted client loses. -/
theorem handshake_iff (ops : List ServerOp) :
    (Throughout serve (ServerInterface.Every Greeted) {} ops ↔ Meets serve (fun _ op => ¬ Accepts op) {} ops) ∧
      Throughout serve (ServerInterface.Every GreetingDropped) {} ops := by
  have start : ServerInterface.Every Greeted {} := fun _ member => nomatch member
  refine ⟨?_, greeting_dropped_throughout ops⟩
  exact throughout_iff_of_exact (fun _ _ _ every taken => greeted_step_iff every taken) start

/-- One client is accepted and then sent a message: it is given the message alone. -/
theorem greeting_lost : ∃ server peer,
    run serve {} [.accept 7 0, .messageClient (some 0) (success 0), .handle 0] = some server ∧
      server.peers = [peer] ∧ peer.isConnected = true ∧
      peer.offered = [flagMessage .clientAccepted true 0, success 0] ∧
      peer.connection.outbound = [success 0] ∧ ¬ Greeted peer := by
  refine ⟨_, _, rfl, rfl, rfl, rfl, rfl, fun ⟨_, placed⟩ => ?_⟩
  have lost := congrArg List.length (placed rfl)
  cases lost

end Wallchanger.ChangeServer
