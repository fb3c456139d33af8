import Wallchanger.ChangeService.ChangeServer
import Wallchanger.Net.Conversation

/-! The service and its clients over their sockets: `change_server.hpp` on
`server_interface.hpp`, in every order of connects, requests, handlers of the sockets and
turns of the loop in `update`, while no operation of a socket fails. -/

namespace Wallchanger

open Foundation Net

/-- `talks` are the connections in the order in which they were accepted, by whose position
a message of `m_incomming` names the one it came by. -/
structure Service (σ : Type) where
  server : ChangeServer σ
  talks : List Conversation := []
  incomming : List (Nat × Message) := []

/-- `act` is a handler that runs at one end of a connection, `update` a turn of the loop. -/
inductive ServiceOp where
  | connect (id : UInt32) (now : UInt64)
  | ask (client : Nat) (msg : Message)
  | act (client : Nat) (owner : Owner) (activity : Activity)
  | update (env : Environment)

namespace Service

variable {σ : Type} (api : StateApi σ) (cbor : Cbor)

/-- A client connects and the server accepts it. -/
def connect (service : Service σ) (id : UInt32) (now : UInt64) : Service σ :=
  let (newCon, accepted) := ChangeServer.onClientConnect now { connection := { owner := .server } }
  if accepted then { service with
    server := { service.server with connections := service.server.connections + 1 }
    talks := service.talks ++ [Conversation.established (newCon.connectToClient id)] }
  else service

/-- What a handler pushes to `m_incomming`, with the connection it came by. -/
def pushed (client : Nat) (talk next : Conversation) : List (Nat × Message) :=
  ((next .server).incoming.drop (talk .server).incoming.length).map (fun owned => (client, owned.msg))

def act (service : Service σ) (client : Nat) (owner : Owner) (activity : Activity) : Option (Service σ) := do
  let talk ← service.talks[client]?
  let next ← talk.step owner activity
  return { service with
    talks := service.talks.set client next
    incomming := service.incomming ++ pushed client talk next }

/-- The replies that `m_process` sends over the connection of the client, one `send_message` each. -/
def reply (talk : Conversation) (sent : List Message) : Conversation :=
  sent.foldl (fun talk msg => talk.send .server msg) talk

/-- A turn of the loop in `update`: the front message is taken and given to `on_message`. -/
def update (service : Service σ) (env : Environment) : Option (Service σ) :=
  match service.incomming with
  | [] => none
  | (client, msg) :: incomming =>
    match ChangeServer.onMessage api cbor env service.server msg with
    | .error _ => none
    | .ok (server, sent) => some {
        server, incomming, talks := service.talks.modify client (fun talk => reply talk sent) }

/-- `none` for a connection that does not exist, a handler that has nothing to do, and
where `on_message` does not return. -/
def step (service : Service σ) : ServiceOp → Option (Service σ)
  | .connect id now => some (service.connect id now)
  | .ask client msg => do
    let talk ← service.talks[client]?
    return { service with talks := service.talks.set client (talk.send .client msg) }
  | .act client owner activity => service.act client owner activity
  | .update env => service.update api cbor env

/-! ### What a step does -/

variable {api cbor} {service next : Service σ}

theorem ask_cases {client : Nat} {msg : Message} (taken : service.step api cbor (.ask client msg) = some next) :
    ∃ talk, service.talks[client]? = some talk ∧
      next = { service with talks := service.talks.set client (talk.send .client msg) } := by
  obtain ⟨talk, found, taken⟩ := Option.bind_eq_some_iff.mp taken
  cases taken
  exact ⟨talk, found, rfl⟩

theorem act_cases {client : Nat} {owner : Owner} {activity : Activity}
    (taken : service.act client owner activity = some next) : ∃ talk after,
      service.talks[client]? = some talk ∧ talk.step owner activity = some after ∧
      next = { service with
        talks := service.talks.set client after
        incomming := service.incomming ++ pushed client talk after } := by
  obtain ⟨talk, found, taken⟩ := Option.bind_eq_some_iff.mp taken
  obtain ⟨after, ran, taken⟩ := Option.bind_eq_some_iff.mp taken
  cases taken
  exact ⟨talk, after, found, ran, rfl⟩

theorem update_cases {env : Environment} (taken : service.update api cbor env = some next) :
    ∃ client msg incomming server sent, service.incomming = (client, msg) :: incomming ∧
      ChangeServer.onMessage api cbor env service.server msg = .ok (server, sent) ∧
      next = { server, incomming, talks := service.talks.modify client (fun talk => reply talk sent) } := by
  unfold update at taken
  split at taken
  · cases taken
  · rename_i client msg incomming queue
    split at taken
    · cases taken
    · rename_i server sent returned
      cases taken
      exact ⟨client, msg, incomming, server, sent, queue, returned, rfl⟩

end Service

/-! ### The server with one event at a time -/

/-- A client is accepted, or a message of a client is handled. -/
inductive ServerEvent where
  | accepted
  | request (client : Nat) (env : Environment) (msg : Message)

namespace ServerEvent

/-- The message, if it is this client's. -/
def requestOf (client : Nat) : ServerEvent → Option Message
  | .accepted => none
  | .request other _ msg => if other = client then some msg else none

def sender : ServerEvent → Option Nat
  | .accepted => none
  | .request client _ _ => some client

end ServerEvent

namespace ChangeServer

variable {σ : Type} (api : StateApi σ) (cbor : Cbor)

/-- What one event leaves of the server, and the messages sent to the client it is from. -/
def atOnce (server : ChangeServer σ) : ServerEvent → Option (ChangeServer σ × List Message)
  | .accepted => some ({ server with connections := server.connections + 1 }, [])
  | .request _ env msg => (onMessage api cbor env server msg).toOption

def afterEvent (server : ChangeServer σ) (event : ServerEvent) : Option (ChangeServer σ) :=
  (atOnce api cbor server event).map Prod.fst

/-- The messages that a client is sent over the events. -/
def repliesTo (client : Nat) : ChangeServer σ → List ServerEvent → List Message
  | _, [] => []
  | server, event :: rest =>
    match atOnce api cbor server event with
    | some (next, sent) => (if event.sender = some client then sent else []) ++ repliesTo client next rest
    | none => []

variable {api : StateApi σ} {cbor : Cbor}

theorem repliesTo_append {server middle : ChangeServer σ} {before : List ServerEvent}
    (reached : run (afterEvent api cbor) server before = some middle) (client : Nat)
    (after : List ServerEvent) : repliesTo api cbor client server (before ++ after) =
      repliesTo api cbor client server before ++ repliesTo api cbor client middle after := by
  induction before generalizing server with
  | nil =>
    cases reached
    rfl
  | cons event rest ih =>
    obtain ⟨next, taken, reached⟩ := run_cons.mp reached
    obtain ⟨⟨_, sent⟩, given, rfl⟩ := Option.map_eq_some_iff.mp taken
    rw [List.cons_append, repliesTo, repliesTo, given]
    dsimp only
    rw [ih reached, List.append_assoc]

end ChangeServer

end Wallchanger
