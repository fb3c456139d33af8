import Wallchanger.Net.Framing
import Wallchanger.Net.ServerInterface

/-! A client and the server's connection to it: both directions of one socket at once, in
every order of the handlers of the two ends. -/

namespace Wallchanger.Net

open Foundation

/-- The end at the other side of the socket. -/
def Owner.other : Owner → Owner
  | .server => .client
  | .client => .server

theorem Owner.other_ne (owner : Owner) : owner.other ≠ owner := by cases owner <;> decide

@[simp] theorem Owner.other_other (owner : Owner) : owner.other.other = owner := by cases owner <;> rfl

theorem Owner.eq_or_eq_other (owner side : Owner) : side = owner ∨ side = owner.other := by
  cases owner <;> cases side <;> simp [Owner.other]

/-- One end: `wire` is written by it and not yet read, `incoming` is what its handlers
pushed to the queue of its owner. -/
structure Endpoint where
  peer : Peer
  wire : Bytes := []
  incoming : List OwnedMessage := []

/-- The messages that are posted or placed on the queue of the connection. -/
def Endpoint.sent (here : Endpoint) : List Message := here.peer.queued ++ here.peer.posted

/-- The handlers that run at an end while no operation fails. -/
inductive Activity where
  | handle
  | written
  | received

abbrev Conversation := Owner → Endpoint

namespace Conversation

/-- A socket that is connected at both ends, `server` being the server's. -/
def established (server : Peer) : Conversation
  | .server => { peer := server }
  | .client => { peer := { connection := ({ owner := .client } : Connection).connectToServer } }

/-- The direction an end writes in. -/
def direction (talk : Conversation) (owner : Owner) : Link where
  writer := (talk owner).peer.connection
  wire := (talk owner).wire
  reader := (talk owner.other).peer.connection
  incoming := (talk owner.other).incoming

/-- `send_message` at an end. -/
def send (talk : Conversation) (owner : Owner) (msg : Message) : Conversation :=
  Function.update talk owner { talk owner with peer := (talk owner).peer.sendMessage msg }

/-- A handler runs at an end. A read is filled from what the other end has written. -/
def step (talk : Conversation) (owner : Owner) : Activity → Option Conversation
  | .handle => do
    let peer ← (talk owner).peer.handle
    return Function.update talk owner { talk owner with peer }
  | .written => do
    let (_, buffer) ← (talk owner).peer.connection.writes.head?
    let peer ← (talk owner).peer.written true
    return Function.update talk owner { talk owner with peer, wire := (talk owner).wire ++ buffer }
  | .received => do
    let source := talk owner.other
    let (_, wanted) ← (talk owner).peer.connection.reads.head?
    if wanted ≤ source.wire.length then
      let (connection, item) ← (talk owner).peer.connection.received (source.wire.take wanted)
      let drained := Function.update talk owner.other { source with wire := source.wire.drop wanted }
      return Function.update drained owner { talk owner with
        peer := { (talk owner).peer with connection }
        incoming := (talk owner).incoming ++ item.toList }
    else none

end Conversation

/-! ### What the handlers of one direction leave of the other -/

namespace Connection

/-- Nothing that a read depends on differs. -/
def SameReading (before after : Connection) : Prop :=
  after.reads = before.reads ∧ after.tempIn = before.tempIn

/-- Nothing that a write depends on differs. -/
def SameWriting (before after : Connection) : Prop :=
  after.outbound = before.outbound ∧ after.writes = before.writes ∧ after.isConnected = before.isConnected

theorem sameReading_writeHeader {connection next : Connection}
    (begun : connection.writeHeader = some next) : connection.SameReading next := by
  obtain ⟨front, _, begun⟩ := Option.bind_eq_some_iff.mp begun
  cases begun
  exact ⟨rfl, rfl⟩

theorem sameReading_sendMessage {connection next : Connection} {msg : Message}
    (handled : connection.sendMessage msg = some next) : connection.SameReading next := by
  unfold sendMessage at handled
  dsimp only at handled
  split at handled
  · have same := sameReading_writeHeader handled
    exact same
  · cases handled
    exact ⟨rfl, rfl⟩

theorem sameReading_nextMessage {connection next : Connection}
    (moved : connection.nextMessage = some next) : connection.SameReading next := by
  cases queue : connection.outbound with
  | nil =>
    unfold nextMessage at moved
    rw [queue] at moved
    cases moved
  | cons front rest =>
    rw [nextMessage_eq connection front rest queue] at moved
    cases moved
    exact ⟨rfl, rfl⟩

theorem sameReading_written {connection next : Connection}
    (handled : connection.written true = some next) : connection.SameReading next := by
  unfold written at handled
  split at handled
  · cases handled
  · obtain ⟨front, _, handled⟩ := Option.bind_eq_some_iff.mp handled
    split at handled
    · obtain ⟨_, _, handled⟩ := Option.bind_eq_some_iff.mp handled
      cases handled
      exact ⟨rfl, rfl⟩
    · have same := sameReading_nextMessage handled
      exact same
  · have same := sameReading_nextMessage handled
    exact same

theorem sameWriting_received {connection next : Connection} {data : Bytes} {item : Option OwnedMessage}
    (handled : connection.received data = some (next, item)) : connection.SameWriting next := by
  unfold received at handled
  split at handled
  · cases handled
  · unfold headerRead at handled
    dsimp only at handled
    split at handled
    · cases handled
      exact ⟨rfl, rfl, rfl⟩
    · cases handled
      exact ⟨rfl, rfl, rfl⟩
  · cases handled
    exact ⟨rfl, rfl, rfl⟩

end Connection

theorem Writing.congr {before after : Connection} {posted : List Message} {sent unsent : Bytes}
    (same : before.SameWriting after) (writing : Writing before posted sent unsent) :
    Writing after posted sent unsent := by
  obtain ⟨outbound, writes, _⟩ := same
  cases writing with
  | idle queue started => exact .idle (outbound.trans queue) (writes.trans started) ‹_› ‹_›
  | header done rest front queue started =>
    exact .header done rest front (outbound.trans queue) (writes.trans started) ‹_› ‹_› ‹_›
  | body done rest front queue started =>
    exact .body done rest front (outbound.trans queue) (writes.trans started) ‹_› ‹_› ‹_› ‹_›

theorem Reading.congr {before after : Connection} {queue : List (MessageHeader × Bytes)}
    {posted : List Message} {taken ahead : Bytes} (same : before.SameReading after)
    (reading : Reading before queue posted taken ahead) : Reading after queue posted taken ahead := by
  obtain ⟨reads, tempIn⟩ := same
  cases reading with
  | header done pending started whole queued kept before after =>
    exact .header done pending (reads.trans started) whole queued (tempIn ▸ kept) before after
  | body done pending front started whole queued named nonempty before after =>
    exact .body done pending front (reads.trans started) whole queued (tempIn ▸ named) nonempty before after

theorem Framed.congr {link next : Link} {posted : List Message} {taken unsent : Bytes}
    (writer : link.writer.SameWriting next.writer) (reader : link.reader.SameReading next.reader)
    (wire : next.wire = link.wire) (incoming : next.incoming = link.incoming)
    (framed : Framed link posted taken unsent) : Framed next posted taken unsent where
  writing := wire ▸ Writing.congr writer framed.writing
  reading := by
    have pairs : next.pairs = link.pairs := by rw [Link.pairs, incoming, Link.pairs]
    rw [wire, pairs]
    exact Reading.congr reader framed.reading

/-- Messages with bodies come through as they are. -/
theorem delivered_of_nonempty {msgs : List Message} (nonempty : ∀ msg ∈ msgs, msg.body ≠ []) :
    delivered [] msgs = msgs.map (fun msg => (msg.header, msg.body)) := by
  refine (delivered_eq_iff [] msgs).mpr ⟨fun _ _ _ => rfl, List.pairwise_of_forall_mem_list ?_⟩
  intro _ _ later member empty
  exact absurd empty (nonempty later member)

/-- What was queued at the far end is the front of what was written, if no body is empty. -/
theorem pairs_prefix {link : Link} {posted : List Message} {taken unsent : Bytes}
    (framed : Framed link posted taken unsent) (nonempty : ∀ msg ∈ posted, msg.body ≠ []) :
    link.pairs <+: posted.map (fun msg => (msg.header, msg.body)) := by
  have front : ∃ done pending, posted = done ++ pending ∧ link.pairs = delivered [] done := by
    cases framed.reading with
    | header done pending _ whole queued => exact ⟨done, pending, whole, queued⟩
    | body done pending front _ whole queued => exact ⟨done, front :: pending, whole, queued⟩
  obtain ⟨done, pending, rfl, queued⟩ := front
  have each : ∀ msg ∈ done, msg.body ≠ [] := fun msg member => nonempty msg (List.mem_append_left _ member)
  rw [queued, delivered_of_nonempty each, List.map_append]
  exact List.prefix_append _ _

namespace Conversation

/-! ### Both directions at once -/

/-- Both ends stand, and each direction carries the messages that its writer has placed. -/
structure Sound (talk : Conversation) : Prop where
  connected : ∀ owner, (talk owner).peer.isConnected = true
  framed : ∀ owner, ∃ taken unsent, Framed (talk.direction owner) (talk owner).peer.queued taken unsent

theorem sound_established {server : Peer} {id : UInt32}
    (accepted : server.connection = ({ owner := .server } : Connection).connectToClient id)
    (fresh : server.queued = []) : (established server).Sound where
  connected owner := by
    cases owner with
    | server =>
      change server.connection.isConnected = true
      rw [accepted]
      rfl
    | client => rfl
  framed owner := by
    cases owner with
    | server =>
      have same : (established server).direction .server = Link.established .server id := by
        simp [direction, established, Link.established, Owner.other, accepted]
      exact ⟨[], [], by rw [same]; exact fresh.symm ▸ framed_established .server id⟩
    | client =>
      have same : (established server).direction .client = Link.established .client id := by
        simp [direction, established, Link.established, Owner.other, accepted]
      exact ⟨[], [], by rw [same]; exact framed_established .client id⟩

/-- Both directions, from the one an end writes in and the one it reads from. -/
theorem Sound.of_both {talk : Conversation} (owner : Owner)
    (here : (talk owner).peer.isConnected = true) (there : (talk owner.other).peer.isConnected = true)
    (out : ∃ taken unsent, Framed (talk.direction owner) (talk owner).peer.queued taken unsent)
    (back : ∃ taken unsent, Framed (talk.direction owner.other) (talk owner.other).peer.queued taken unsent) :
    talk.Sound where
  connected side := by
    rcases owner.eq_or_eq_other side with rfl | rfl
    · exact here
    · exact there
  framed side := by
    rcases owner.eq_or_eq_other side with rfl | rfl
    · exact out
    · exact back

/-- `send_message` only posts a handler. -/
theorem send_same (talk : Conversation) (owner : Owner) (msg : Message) (side : Owner) :
    ((talk.send owner msg) side).peer.connection = (talk side).peer.connection ∧
      ((talk.send owner msg) side).peer.queued = (talk side).peer.queued ∧
      ((talk.send owner msg) side).wire = (talk side).wire ∧
      ((talk.send owner msg) side).incoming = (talk side).incoming := by
  rcases owner.eq_or_eq_other side with rfl | rfl
  · unfold send Peer.sendMessage
    rw [Function.update_self]
    dsimp only
    split
    · exact ⟨rfl, rfl, rfl, rfl⟩
    · exact ⟨rfl, rfl, rfl, rfl⟩
  · unfold send
    rw [Function.update_of_ne owner.other_ne]
    exact ⟨rfl, rfl, rfl, rfl⟩

theorem sound_send {talk : Conversation} (sound : talk.Sound) (owner : Owner) (msg : Message) :
    (talk.send owner msg).Sound := by
  have same := talk.send_same owner msg
  constructor
  · intro side
    unfold Peer.isConnected
    rw [(same side).1]
    exact sound.connected side
  · intro side
    have links : (talk.send owner msg).direction side = talk.direction side := by
      simp only [direction, same]
    rw [links, (same side).2.1]
    exact sound.framed side

theorem sent_send {talk : Conversation} (sound : talk.Sound) (owner : Owner) (msg : Message) :
    ((talk.send owner msg) owner).sent = (talk owner).sent ++ [msg] := by
  unfold send Endpoint.sent Peer.sendMessage
  rw [Function.update_self, if_pos (sound.connected owner)]
  exact (List.append_assoc _ _ _).symm

theorem send_other (talk : Conversation) (owner : Owner) (msg : Message) :
    (talk.send owner msg) owner.other = talk owner.other := Function.update_of_ne owner.other_ne _ _

@[simp] theorem send_client_server (talk : Conversation) (msg : Message) :
    (talk.send .client msg) .server = talk .server := talk.send_other .client msg

@[simp] theorem send_server_client (talk : Conversation) (msg : Message) :
    (talk.send .server msg) .client = talk .client := talk.send_other .server msg

@[simp] theorem incoming_send (talk : Conversation) (owner side : Owner) (msg : Message) :
    ((talk.send owner msg) side).incoming = (talk side).incoming := (talk.send_same owner msg side).2.2.2

/-! ### What a handler does -/

theorem handle_cases {talk next : Conversation} {owner : Owner}
    (taken : talk.step owner .handle = some next) : ∃ msg posted connection,
      (talk owner).peer.posted = msg :: posted ∧
      (talk owner).peer.connection.sendMessage msg = some connection ∧
      next = Function.update talk owner { talk owner with peer := { (talk owner).peer with
        connection, posted, queued := (talk owner).peer.queued ++ [msg] } } := by
  obtain ⟨peer, handled, taken⟩ := Option.bind_eq_some_iff.mp taken
  cases taken
  unfold Peer.handle at handled
  split at handled
  · cases handled
  · rename_i msg posted waiting
    obtain ⟨connection, ran, handled⟩ := Option.map_eq_some_iff.mp handled
    cases handled
    exact ⟨msg, posted, connection, waiting, ran, rfl⟩

theorem written_cases {talk next : Conversation} {owner : Owner}
    (taken : talk.step owner .written = some next) : ∃ part buffer connection,
      (talk owner).peer.connection.writes.head? = some (part, buffer) ∧
      (talk owner).peer.connection.written true = some connection ∧
      next = Function.update talk owner { talk owner with
        peer := { (talk owner).peer with connection }, wire := (talk owner).wire ++ buffer } := by
  obtain ⟨⟨part, buffer⟩, started, taken⟩ := Option.bind_eq_some_iff.mp taken
  obtain ⟨peer, completed, taken⟩ := Option.bind_eq_some_iff.mp taken
  cases taken
  obtain ⟨connection, ran, completed⟩ := Option.map_eq_some_iff.mp completed
  cases completed
  exact ⟨part, buffer, connection, started, ran, rfl⟩

theorem received_cases {talk next : Conversation} {owner : Owner}
    (taken : talk.step owner .received = some next) : ∃ part wanted connection item,
      (talk owner).peer.connection.reads.head? = some (part, wanted) ∧
      wanted ≤ (talk owner.other).wire.length ∧
      (talk owner).peer.connection.received ((talk owner.other).wire.take wanted) = some (connection, item) ∧
      next = Function.update
        (Function.update talk owner.other { talk owner.other with wire := (talk owner.other).wire.drop wanted })
        owner { talk owner with
          peer := { (talk owner).peer with connection }
          incoming := (talk owner).incoming ++ item.toList } := by
  obtain ⟨⟨part, wanted⟩, started, taken⟩ := Option.bind_eq_some_iff.mp taken
  dsimp only at taken
  split at taken
  · rename_i enough
    obtain ⟨⟨connection, item⟩, ran, taken⟩ := Option.bind_eq_some_iff.mp taken
    cases taken
    exact ⟨part, wanted, connection, item, started, enough, ran, rfl⟩
  · cases taken

/-- No handler sends a message of its own. -/
theorem sent_step {talk next : Conversation} {owner : Owner} {activity : Activity}
    (taken : talk.step owner activity = some next) (side : Owner) : (next side).sent = (talk side).sent := by
  cases activity with
  | handle =>
    obtain ⟨msg, posted, connection, waiting, _, rfl⟩ := handle_cases taken
    rcases owner.eq_or_eq_other side with rfl | rfl
    · rw [Function.update_self, Endpoint.sent, Endpoint.sent, waiting]
      exact List.append_assoc _ _ _
    · rw [Function.update_of_ne owner.other_ne]
  | written =>
    obtain ⟨part, buffer, connection, _, _, rfl⟩ := written_cases taken
    rcases owner.eq_or_eq_other side with rfl | rfl
    · rw [Function.update_self]
      rfl
    · rw [Function.update_of_ne owner.other_ne]
  | received =>
    obtain ⟨part, wanted, connection, item, _, _, _, rfl⟩ := received_cases taken
    rcases owner.eq_or_eq_other side with rfl | rfl
    · rw [Function.update_self]
      rfl
    · rw [Function.update_of_ne owner.other_ne, Function.update_self]
      rfl

/-- A handler pushes messages only to the queue of its own end. -/
theorem incoming_step {talk next : Conversation} {owner : Owner} {activity : Activity}
    (taken : talk.step owner activity = some next) :
    (∃ arrived, (next owner).incoming = (talk owner).incoming ++ arrived) ∧
      (next owner.other).incoming = (talk owner.other).incoming := by
  cases activity with
  | handle =>
    obtain ⟨msg, posted, connection, _, _, rfl⟩ := handle_cases taken
    rw [Function.update_self, Function.update_of_ne owner.other_ne]
    exact ⟨⟨[], (List.append_nil _).symm⟩, rfl⟩
  | written =>
    obtain ⟨part, buffer, connection, _, _, rfl⟩ := written_cases taken
    rw [Function.update_self, Function.update_of_ne owner.other_ne]
    exact ⟨⟨[], (List.append_nil _).symm⟩, rfl⟩
  | received =>
    obtain ⟨part, wanted, connection, item, _, _, _, rfl⟩ := received_cases taken
    rw [Function.update_self, Function.update_of_ne owner.other_ne, Function.update_self]
    exact ⟨⟨item.toList, rfl⟩, rfl⟩

/-! ### The handlers keep both directions -/

theorem sound_handle {talk next : Conversation} {owner : Owner} (sound : talk.Sound)
    (sized : ∀ side, ∀ msg ∈ (talk side).peer.queued, msg.Sized)
    (taken : talk.step owner .handle = some next) : next.Sound := by
  obtain ⟨msg, posted, connection, waiting, ran, rfl⟩ := handle_cases taken
  obtain ⟨_, _, own⟩ := sound.framed owner
  obtain ⟨_, _, across⟩ := sound.framed owner.other
  have posts : (talk.direction owner).step (.post msg) =
      some { talk.direction owner with writer := connection } := by
    simp [Link.step, direction, ran]
  refine Sound.of_both owner ?_ ?_ ?_ ?_
  · rw [Function.update_self]
    exact (Connection.isConnected_sendMessage ran).trans (sound.connected owner)
  · rw [Function.update_of_ne owner.other_ne]
    exact sound.connected owner.other
  · rw [Function.update_self, direction, Function.update_self, Function.update_of_ne owner.other_ne]
    exact framed_step own (sized owner) posts
  · rw [Function.update_of_ne owner.other_ne]
    refine ⟨_, _, Framed.congr ?_ ?_ ?_ ?_ across⟩
    · simp only [direction, Function.update_of_ne owner.other_ne]
      exact ⟨rfl, rfl, rfl⟩
    · simp only [direction, Owner.other_other, Function.update_self]
      exact Connection.sameReading_sendMessage ran
    · simp only [direction, Function.update_of_ne owner.other_ne]
    · simp only [direction, Owner.other_other, Function.update_self]

theorem sound_written {talk next : Conversation} {owner : Owner} (sound : talk.Sound)
    (sized : ∀ side, ∀ msg ∈ (talk side).peer.queued, msg.Sized)
    (taken : talk.step owner .written = some next) : next.Sound := by
  obtain ⟨part, buffer, connection, started, ran, rfl⟩ := written_cases taken
  obtain ⟨_, _, own⟩ := sound.framed owner
  obtain ⟨_, _, across⟩ := sound.framed owner.other
  have writes : (talk.direction owner).step .written = some { talk.direction owner with
      writer := connection, wire := (talk.direction owner).wire ++ buffer } := by
    simp [Link.step, direction, ran, started]
  have written := framed_step own (sized owner) writes
  rw [posted, List.filterMap_cons_none rfl, List.filterMap_nil, List.append_nil] at written
  refine Sound.of_both owner ?_ ?_ ?_ ?_
  · rw [Function.update_self]
    exact (Connection.isConnected_written ran).trans (sound.connected owner)
  · rw [Function.update_of_ne owner.other_ne]
    exact sound.connected owner.other
  · rw [Function.update_self, direction, Function.update_self, Function.update_of_ne owner.other_ne]
    exact written
  · rw [Function.update_of_ne owner.other_ne]
    refine ⟨_, _, Framed.congr ?_ ?_ ?_ ?_ across⟩
    · simp only [direction, Function.update_of_ne owner.other_ne]
      exact ⟨rfl, rfl, rfl⟩
    · simp only [direction, Owner.other_other, Function.update_self]
      exact Connection.sameReading_written ran
    · simp only [direction, Function.update_of_ne owner.other_ne]
    · simp only [direction, Owner.other_other, Function.update_self]

theorem sound_received {talk next : Conversation} {owner : Owner} (sound : talk.Sound)
    (sized : ∀ side, ∀ msg ∈ (talk side).peer.queued, msg.Sized)
    (taken : talk.step owner .received = some next) : next.Sound := by
  obtain ⟨part, wanted, connection, item, started, enough, ran, rfl⟩ := received_cases taken
  obtain ⟨_, _, own⟩ := sound.framed owner
  obtain ⟨_, _, across⟩ := sound.framed owner.other
  obtain ⟨outbound, writes, stands⟩ := Connection.sameWriting_received ran
  have reads : (talk.direction owner.other).step .received = some { talk.direction owner.other with
      reader := connection, wire := (talk owner.other).wire.drop wanted
      incoming := (talk owner).incoming ++ item.toList } := by
    simp [Link.step, direction, started, enough, ran]
  have received := framed_step across (sized owner.other) reads
  rw [posted, List.filterMap_cons_none rfl, List.filterMap_nil, List.append_nil] at received
  refine Sound.of_both owner ?_ ?_ ?_ ?_
  · rw [Function.update_self]
    exact stands.trans (sound.connected owner)
  · rw [Function.update_of_ne owner.other_ne, Function.update_self]
    exact sound.connected owner.other
  · rw [Function.update_self]
    refine ⟨_, _, Framed.congr ?_ ?_ ?_ ?_ own⟩
    · simp only [direction, Function.update_self]
      exact ⟨outbound, writes, stands⟩
    · simp only [direction, Function.update_of_ne owner.other_ne, Function.update_self]
      exact ⟨rfl, rfl⟩
    · simp only [direction, Function.update_self]
    · simp only [direction, Function.update_of_ne owner.other_ne, Function.update_self]
  · rw [Function.update_of_ne owner.other_ne, Function.update_self]
    simp only [direction, Owner.other_other, Function.update_of_ne owner.other_ne, Function.update_self]
    exact received

/-- Every handler keeps both directions, if the messages have the size their headers name. -/
theorem sound_step {talk next : Conversation} {owner : Owner} {activity : Activity} (sound : talk.Sound)
    (sized : ∀ side, ∀ msg ∈ (talk side).peer.queued, msg.Sized)
    (taken : talk.step owner activity = some next) : next.Sound := by
  cases activity with
  | handle => exact sound_handle sound sized taken
  | written => exact sound_written sound sized taken
  | received => exact sound_received sound sized taken

/-! ### What comes through -/

/-- What was queued at an end is the front of what the other end has sent. -/
theorem received_prefix {talk : Conversation} (sound : talk.Sound) (owner : Owner)
    (nonempty : ∀ msg ∈ (talk owner).sent, msg.body ≠ []) :
    (talk.direction owner).pairs <+: (talk owner).sent.map (fun msg => (msg.header, msg.body)) := by
  obtain ⟨_, _, framed⟩ := sound.framed owner
  have placed := pairs_prefix framed (fun msg member => nonempty msg (List.mem_append_left _ member))
  rw [Endpoint.sent, List.map_append]
  exact placed.trans (List.prefix_append _ _)

/-- Nothing is left to do for what an end has sent. -/
def Settled (talk : Conversation) (owner : Owner) : Prop :=
  (talk owner).peer.posted = [] ∧ (talk.direction owner).Drained

/-- All of what an end has sent was queued at the other, once nothing is left to do. -/
theorem received_settled {talk : Conversation} (sound : talk.Sound) {owner : Owner}
    (nonempty : ∀ msg ∈ (talk owner).sent, msg.body ≠ []) (settled : talk.Settled owner) :
    (talk.direction owner).pairs = (talk owner).sent.map (fun msg => (msg.header, msg.body)) := by
  obtain ⟨_, _, framed⟩ := sound.framed owner
  have all : (talk owner).sent = (talk owner).peer.queued := by
    rw [Endpoint.sent, settled.1, List.append_nil]
  rw [all] at nonempty ⊢
  rw [pairs_of_drained framed settled.2, delivered_of_nonempty nonempty]

/-! ### When nothing can run -/

/-- No handler at either end has anything to do. -/
def AtRest (talk : Conversation) : Prop := ∀ owner activity, talk.step owner activity = none

instance (talk : Conversation) : Decidable talk.AtRest :=
  decidable_of_iff (∀ owner ∈ [Owner.server, .client], ∀ activity ∈ [Activity.handle, .written, .received],
      (talk.step owner activity).isNone = true) (by
    constructor
    · intro all owner activity
      exact Option.isNone_iff_eq_none.mp
        (all owner (by cases owner <;> simp) activity (by cases activity <;> simp))
    · intro rest owner _ activity _
      exact Option.isNone_iff_eq_none.mpr (rest owner activity))

theorem posted_of_rest {talk : Conversation} (sound : talk.Sound) (rest : talk.AtRest) (owner : Owner) :
    (talk owner).peer.posted = [] := by
  cases waiting : (talk owner).peer.posted with
  | nil => rfl
  | cons msg posted =>
    obtain ⟨_, _, framed⟩ := sound.framed owner
    obtain ⟨connection, ran, _⟩ := writing_post framed.writing msg
    have handled : (talk owner).peer.connection.sendMessage msg = some connection := ran
    have stuck := rest owner .handle
    simp [step, Peer.handle, waiting, handled] at stuck

theorem writes_of_rest {talk : Conversation} (sound : talk.Sound) (rest : talk.AtRest) (owner : Owner) :
    (talk owner).peer.connection.writes = [] := by
  by_cases started : (talk owner).peer.connection.writes = []
  · exact started
  · obtain ⟨_, _, framed⟩ := sound.framed owner
    obtain ⟨part, buffer, connection, _, first, ran, _⟩ := writing_written framed.writing started
    have head : (talk owner).peer.connection.writes.head? = some (part, buffer) := first
    have written : (talk owner).peer.connection.written true = some connection := ran
    have stuck := rest owner .written
    simp [step, Peer.written, head, written] at stuck

/-- A direction at rest has brought everything through. -/
theorem settled_of_rest {talk : Conversation} (sound : talk.Sound)
    (sized : ∀ side, ∀ msg ∈ (talk side).peer.queued, msg.Sized) (rest : talk.AtRest) (owner : Owner) :
    talk.Settled owner := by
  obtain ⟨taken, unsent, framed⟩ := sound.framed owner
  have written := writes_of_rest sound rest owner
  have ⟨queue, done_⟩ : (talk owner).peer.connection.outbound = [] ∧ unsent = [] := by
    cases framed.writing with
    | idle queue _ _ after => exact ⟨queue, after⟩
    | header _ _ _ _ started => cases written.symm.trans started
    | body _ _ _ _ started => cases written.symm.trans started
  subst done_
  refine ⟨posted_of_rest sound rest owner, queue, ?_⟩
  by_cases more : (talk.direction owner).wire = []
  · exact more
  · obtain ⟨next, _, read, _⟩ :=
      framed_received framed (sized owner) (wanted_le_wire framed more) more
    obtain ⟨⟨part, wanted⟩, started, read⟩ := Option.bind_eq_some_iff.mp read
    dsimp only at read
    split at read
    · rename_i enough
      obtain ⟨⟨connection, item⟩, ran, _⟩ := Option.bind_eq_some_iff.mp read
      have head : (talk owner.other).peer.connection.reads.head? = some (part, wanted) := started
      have long : wanted ≤ (talk owner).wire.length := enough
      have received : (talk owner.other).peer.connection.received ((talk owner).wire.take wanted) =
          some (connection, item) := ran
      have stuck := rest owner.other .received
      simp [step, head, long, received] at stuck
    · cases read

end Conversation

end Wallchanger.Net
