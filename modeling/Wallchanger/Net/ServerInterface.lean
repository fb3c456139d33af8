import Wallchanger.Foundation.Keyed
import Wallchanger.Foundation.Run
import Wallchanger.Net.Connection

/-! `server_interface.hpp`: the connections of a server, in every order of accepts, sends,
disconnects and handlers of the sockets. -/

namespace Wallchanger.Net

open Foundation

/-- A connection of the server: the messages `send_message` was called with, those whose
handler is posted, and those whose handler has placed them on the queue. -/
structure Peer where
  connection : Connection
  offered : List Message := []
  posted : List Message := []
  queued : List Message := []

namespace Peer

def isConnected (peer : Peer) : Bool := peer.connection.isConnected

/-- `send_message`: the handler is posted only on a connected socket. -/
def sendMessage (peer : Peer) (msg : Message) : Peer :=
  let offered := peer.offered ++ [msg]
  if peer.isConnected then { peer with offered, posted := peer.posted ++ [msg] } else { peer with offered }

/-- The handler posted first runs. -/
def handle (peer : Peer) : Option Peer :=
  match peer.posted with
  | [] => none
  | msg :: posted => (peer.connection.sendMessage msg).map (fun connection =>
      { peer with connection, posted, queued := peer.queued ++ [msg] })

/-- A write completes. -/
def written (peer : Peer) (ok : Bool) : Option Peer :=
  (peer.connection.written ok).map (fun connection => { peer with connection })

/-- `disconnect`, as a failed read calls it. -/
def disconnect (peer : Peer) : Peer := { peer with connection := peer.connection.disconnect }

/-- The posted close of the socket runs. -/
def close (peer : Peer) : Option Peer :=
  if peer.connection.closing then
    some { peer with connection := { peer.connection with isOpen := false, closing := false } }
  else none

def connectToClient (peer : Peer) (id : UInt32) : Peer :=
  { peer with connection := peer.connection.connectToClient id }

end Peer

/-- `peers` are the connections made so far, named by their position; `connections` is
`m_connections`, `none` a pointer that was reset; `removed` are the clients that
`on_client_disconnect` was called with. -/
structure ServerInterface where
  peers : List Peer := []
  connections : List (Option Nat) := []
  removed : List (Option Nat) := []

inductive ServerOp where
  | accept (id : UInt32) (now : UInt64)
  | send (client : Nat) (msg : Message)
  | messageClient (client : Option Nat) (msg : Message)
  | messageAllClient (msg : Message) (ignoreClient : Option Nat)
  | handle (client : Nat)
  | written (client : Nat) (ok : Bool)
  | disconnect (client : Nat)
  | close (client : Nat)

namespace ServerInterface

/-- `client && client->is_connected()`. -/
def connected (server : ServerInterface) (client : Option Nat) : Bool :=
  match client with
  | some index => (server.peers[index]?.map Peer.isConnected).getD false
  | none => false

/-- `client->send_message`. -/
def sendTo (server : ServerInterface) (client : Option Nat) (msg : Message) : ServerInterface :=
  match client with
  | some index => { server with peers := server.peers.modify index (·.sendMessage msg) }
  | none => server

/-- `message_client`: it resets its own pointer before it compares the others with it. -/
def messageClient (server : ServerInterface) (client : Option Nat) (msg : Message) : ServerInterface :=
  if server.connected client then server.sendTo client msg
  else { server with
    removed := server.removed ++ [client]
    connections := server.connections.filter (· ≠ none) }

/-- The loop of `message_all_client`, over the connections not visited yet. -/
def messageEach (msg : Message) (ignoreClient : Option Nat) :
    ServerInterface → List (Option Nat) → ServerInterface × List (Option Nat)
  | server, [] => (server, [])
  | server, client :: rest =>
    if server.connected client then
      let next := if client ≠ ignoreClient then server.sendTo client msg else server
      let visited := messageEach msg ignoreClient next rest
      (visited.1, client :: visited.2)
    else
      let visited := messageEach msg ignoreClient { server with removed := server.removed ++ [client] } rest
      (visited.1, none :: visited.2)

def messageAllClient (server : ServerInterface) (msg : Message) (ignoreClient : Option Nat) : ServerInterface :=
  let (visited, connections) := messageEach msg ignoreClient server server.connections
  let invalidClient := connections.length ≠ (connections.filter (· ≠ none)).length
  { visited with connections := if invalidClient then connections.filter (· ≠ none) else connections }

/-- The handler of an accepted socket, with what `on_client_connect` does and answers. -/
def accept (server : ServerInterface) (onClientConnect : Peer → Peer × Bool) (id : UInt32) : ServerInterface :=
  let (newCon, accepted) := onClientConnect { connection := { owner := .server } }
  if accepted then { server with
    peers := server.peers ++ [newCon.connectToClient id]
    connections := server.connections ++ [some server.peers.length] }
  else server

/-- A change of one connection, where it exists and has an outcome. -/
def update (server : ServerInterface) (client : Nat) (change : Peer → Option Peer) : Option ServerInterface := do
  let peer ← server.peers[client]?
  let next ← change peer
  return { server with peers := server.peers.set client next }

/-- A step of the server; `none` for a connection or a handler that is not there. -/
def step (onClientConnect : UInt64 → Peer → Peer × Bool) (server : ServerInterface) :
    ServerOp → Option ServerInterface
  | .accept id now => some (server.accept (onClientConnect now) id)
  | .send client msg => server.update client (fun peer => some (peer.sendMessage msg))
  | .messageClient client msg => some (server.messageClient client msg)
  | .messageAllClient msg ignoreClient => some (server.messageAllClient msg ignoreClient)
  | .handle client => server.update client Peer.handle
  | .written client ok => server.update client (·.written ok)
  | .disconnect client => server.update client (fun peer => some peer.disconnect)
  | .close client => server.update client Peer.close

/-! ### Properties of single connections -/

/-- A property of connections that every step on one of them keeps. -/
structure PeerInvariant where
  holds : Peer → Prop
  sendMessage : holds peer → holds (peer.sendMessage msg)
  handle : holds peer → peer.handle = some next → holds next
  written : holds peer → peer.written ok = some next → holds next
  disconnect : holds peer → holds peer.disconnect
  close : holds peer → peer.close = some next → holds next

/-- The first message placed on the queue, or waiting to be, is of some kind. -/
def PeerInvariant.starting (first : Message → Prop) : PeerInvariant where
  holds peer := ∃ msg rest, first msg ∧ peer.queued ++ peer.posted = msg :: rest
  sendMessage {peer msg} begun := by
    obtain ⟨front, rest, kind, placed⟩ := begun
    unfold Peer.sendMessage
    dsimp only
    split
    · refine ⟨front, rest ++ [msg], kind, ?_⟩
      change peer.queued ++ (peer.posted ++ [msg]) = _
      rw [← List.append_assoc, placed]
      rfl
    · exact ⟨front, rest, kind, placed⟩
  handle {peer next} begun handled := by
    obtain ⟨front, rest, kind, placed⟩ := begun
    unfold Peer.handle at handled
    split at handled
    · cases handled
    · rename_i msg posted waiting
      obtain ⟨connection, _, handled⟩ := Option.map_eq_some_iff.mp handled
      cases handled
      refine ⟨front, rest, kind, ?_⟩
      rw [← placed, waiting, List.append_assoc]
      rfl
  written {peer next ok} begun completed := by
    obtain ⟨connection, _, completed⟩ := Option.map_eq_some_iff.mp completed
    cases completed
    exact begun
  disconnect begun := begun
  close {peer next} begun closed := by
    unfold Peer.close at closed
    split at closed
    · cases closed
      exact begun
    · cases closed

/-- Of the messages sent while the connection stands, some first ones were lost and the
others are placed in order. -/
def PeerInvariant.losing (lost : List Message → Prop) : PeerInvariant where
  holds peer := peer.isConnected = true →
    ∃ gone, lost gone ∧ peer.offered = gone ++ (peer.queued ++ peer.posted)
  sendMessage {peer msg} placed := by
    unfold Peer.sendMessage
    dsimp only
    split
    · rename_i stands
      intro _
      obtain ⟨gone, kind, same⟩ := placed stands
      refine ⟨gone, kind, ?_⟩
      change peer.offered ++ [msg] = gone ++ (peer.queued ++ (peer.posted ++ [msg]))
      rw [same, List.append_assoc, List.append_assoc]
    · rename_i apart
      exact fun stands => absurd stands apart
  handle {peer next} placed handled := by
    unfold Peer.handle at handled
    split at handled
    · cases handled
    · rename_i msg posted waiting
      obtain ⟨connection, ran, handled⟩ := Option.map_eq_some_iff.mp handled
      cases handled
      intro stands
      obtain ⟨gone, kind, same⟩ := placed ((Connection.isConnected_sendMessage ran).symm.trans stands)
      refine ⟨gone, kind, same.trans ?_⟩
      rw [waiting, List.append_cons peer.queued msg posted]
  written {peer next ok} placed completed := by
    obtain ⟨connection, ran, completed⟩ := Option.map_eq_some_iff.mp completed
    cases completed
    intro stands
    have both := (Connection.isConnected_written ran).symm.trans stands
    exact placed (Bool.and_eq_true_iff.mp both).2
  disconnect {peer} _ stands :=
    nomatch stands.symm.trans (Connection.isConnected_disconnect peer.connection)
  close {peer next} _ closed := by
    unfold Peer.close at closed
    split at closed
    · cases closed
      intro stands
      cases stands
    · cases closed

def PeerInvariant.and (left right : PeerInvariant) : PeerInvariant where
  holds peer := left.holds peer ∧ right.holds peer
  sendMessage both := ⟨left.sendMessage both.1, right.sendMessage both.2⟩
  handle both handled := ⟨left.handle both.1 handled, right.handle both.2 handled⟩
  written both completed := ⟨left.written both.1 completed, right.written both.2 completed⟩
  disconnect both := ⟨left.disconnect both.1, right.disconnect both.2⟩
  close both closed := ⟨left.close both.1 closed, right.close both.2 closed⟩

/-- Every connection of the server has the property. -/
def Every (holds : Peer → Prop) (server : ServerInterface) : Prop := ∀ peer ∈ server.peers, holds peer

variable {invariant : PeerInvariant}

theorem every_sendTo {server : ServerInterface} (every : server.Every invariant.holds)
    (client : Option Nat) (msg : Message) : (server.sendTo client msg).Every invariant.holds := by
  cases client with
  | none => exact every
  | some index =>
    refine forall_mem_modify.mpr ⟨?_, ?_⟩
    · intro peer found
      exact invariant.sendMessage (every peer (List.mem_of_getElem? found))
    · intro _ peer _ found
      exact every peer (List.mem_of_getElem? found)

theorem every_messageEach {server : ServerInterface} (every : server.Every invariant.holds)
    (msg : Message) (ignoreClient : Option Nat) (clients : List (Option Nat)) :
    (messageEach msg ignoreClient server clients).1.Every invariant.holds := by
  induction clients generalizing server with
  | nil => exact every
  | cons client rest ih =>
    unfold messageEach
    split
    · dsimp only
      split
      · exact ih (every_sendTo every client msg)
      · exact ih every
    · exact ih every

theorem every_update {server next : ServerInterface} {client : Nat} {change : Peer → Option Peer}
    (every : server.Every invariant.holds)
    (keeps : ∀ peer after, invariant.holds peer → change peer = some after → invariant.holds after)
    (updated : server.update client change = some next) : next.Every invariant.holds := by
  obtain ⟨peer, found, updated⟩ := Option.bind_eq_some_iff.mp updated
  obtain ⟨after, changed, updated⟩ := Option.bind_eq_some_iff.mp updated
  cases updated
  intro other member
  rcases List.mem_or_eq_of_mem_set member with old | same
  · exact every other old
  · rw [same]
    exact keeps peer after (every peer (List.mem_of_getElem? found)) changed

/-- A step keeps the property of every connection, if an accepted one starts with it. -/
theorem every_step {onClientConnect : UInt64 → Peer → Peer × Bool} {server next : ServerInterface}
    {op : ServerOp} (every : server.Every invariant.holds)
    (starts : ∀ id now, op = .accept id now →
      invariant.holds ((onClientConnect now { connection := { owner := .server } }).1.connectToClient id))
    (taken : server.step onClientConnect op = some next) : next.Every invariant.holds := by
  cases op with
  | accept id now =>
    cases taken
    unfold accept
    dsimp only
    split
    · intro peer member
      rcases List.mem_append.mp member with old | new
      · exact every peer old
      · rw [List.mem_singleton.mp new]
        exact starts id now rfl
    · exact every
  | send client msg =>
    refine every_update every (fun peer after good sent => ?_) taken
    cases sent
    exact invariant.sendMessage good
  | messageClient client msg =>
    cases taken
    unfold messageClient
    split
    · exact every_sendTo every client msg
    · exact every
  | messageAllClient msg ignoreClient =>
    cases taken
    exact every_messageEach every msg ignoreClient server.connections
  | handle client => exact every_update every (fun _ _ => invariant.handle) taken
  | written client ok => exact every_update every (fun _ _ => invariant.written) taken
  | disconnect client =>
    refine every_update every (fun peer after good gone => ?_) taken
    cases gone
    exact invariant.disconnect good
  | close client => exact every_update every (fun _ _ => invariant.close) taken

end ServerInterface

end Wallchanger.Net
