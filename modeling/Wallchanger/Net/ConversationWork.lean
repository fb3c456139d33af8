import Wallchanger.Net.Conversation

/-! How many handlers run at a connection: each adds one to a count that the messages sent
bound, in whatever order they come. -/

namespace Wallchanger.Net

/-- How many of some transfers are of bodies. -/
def bodies {α : Type} (transfers : List (Part × α)) : Nat :=
  transfers.countP (fun transfer => transfer.1 = .body)

namespace Connection

theorem counts_sendMessage {connection next : Connection} {msg : Message}
    (handled : connection.sendMessage msg = some next) :
    next.outbound.length = connection.outbound.length + 1 ∧ bodies next.writes = bodies connection.writes := by
  unfold sendMessage at handled
  dsimp only at handled
  split at handled
  · obtain ⟨front, _, begun⟩ := Option.bind_eq_some_iff.mp handled
    cases begun
    refine ⟨List.length_append, ?_⟩
    simp [bodies]
  · cases handled
    exact ⟨List.length_append, rfl⟩

end Connection

/-! ### One direction -/

/-- The queue holds what was placed and not yet written. -/
theorem Writing.counts {writer : Connection} {posted : List Message} {sent unsent : Bytes}
    (writing : Writing writer posted sent unsent) :
    writer.outbound.length ≤ posted.length ∧ bodies writer.writes ≤ writer.outbound.length := by
  cases writing with
  | idle queue started =>
    rw [queue, started]
    exact ⟨Nat.zero_le _, Nat.le_refl 0⟩
  | header done rest front queue started whole =>
    rw [queue, started, whole]
    exact ⟨by simp, Nat.zero_le _⟩
  | body done rest front queue started whole =>
    rw [queue, started, whole]
    exact ⟨by simp, by simp [bodies]⟩

theorem length_delivered (last : Bytes) (msgs : List Message) : (delivered last msgs).length = msgs.length := by
  induction msgs generalizing last with
  | nil => rfl
  | cons msg rest ih => rw [delivered, List.length_cons, List.length_cons, ih]

/-- What was read was posted, and so was what is being read. -/
theorem Reading.counts {reader : Connection} {queue : List (MessageHeader × Bytes)}
    {posted : List Message} {taken ahead : Bytes} (reading : Reading reader queue posted taken ahead) :
    2 * queue.length + bodies reader.reads ≤ 2 * posted.length := by
  cases reading with
  | header done pending started whole queued =>
    rw [started, whole, queued, length_delivered, List.length_append]
    change 2 * done.length + 0 ≤ _
    omega
  | body done pending front started whole queued =>
    rw [started, whole, queued, length_delivered, List.length_append, List.length_cons]
    change 2 * done.length + 1 ≤ _
    omega

/-- A message with a body leaves the queue after two writes. -/
theorem counts_written {writer next : Connection} {posted : List Message} {sent unsent : Bytes}
    (writing : Writing writer posted sent unsent) (nonempty : ∀ msg ∈ posted, msg.body ≠ [])
    (ran : writer.written true = some next) :
    next.outbound.length ≤ writer.outbound.length ∧
      2 * writer.outbound.length + bodies next.writes = 2 * next.outbound.length + bodies writer.writes + 1 := by
  cases writing with
  | idle queue started =>
    rw [Connection.written, started] at ran
    cases ran
  | header done rest front queue started whole =>
    have long : front.body.length > 0 := List.length_pos_iff.mpr (nonempty front (by simp [whole]))
    have begun : writer.written true = some { writer with writes := [(.body, front.body)] } := by
      simp [Connection.written, Connection.headerWritten, Connection.writeBody, started, queue, long]
    cases begun.symm.trans ran
    rw [started]
    exact ⟨Nat.le_refl _, rfl⟩
  | body done rest front queue started whole =>
    have moved := Connection.nextMessage_eq { writer with writes := [] } front rest queue
    have done_ : writer.written true = Connection.nextMessage { writer with writes := [] } := by
      simp [Connection.written, Connection.bodyWritten, started]
    cases (done_.trans moved).symm.trans ran
    rw [started, queue]
    refine ⟨Nat.le_succ _, ?_⟩
    cases rest with
    | nil => rfl
    | cons later others =>
      change 2 * (others.length + 1 + 1) + 0 = 2 * (others.length + 1) + 1 + 1
      omega

/-- A message with a body is queued after two reads. -/
theorem counts_received {link : Link} {posted : List Message} {taken unsent : Bytes} {part : Part}
    {wanted : Nat} {next : Connection} {item : Option OwnedMessage}
    (whole : ∀ msg ∈ posted, msg.Sized ∧ msg.body ≠ [])
    (reading : Reading link.reader link.pairs posted taken (link.wire ++ unsent))
    (started : link.reader.reads.head? = some (part, wanted)) (enough : wanted ≤ link.wire.length)
    (ran : link.reader.received (link.wire.take wanted) = some (next, item)) :
    2 * item.toList.length + bodies next.reads = bodies link.reader.reads + 1 := by
  cases reading with
  | header done pending reads split queued kept before after =>
    rw [reads] at started
    cases started
    cases pending with
    | nil =>
      have nothing : link.wire = [] := (List.append_eq_nil_iff.mp after).1
      rw [nothing] at enough
      exact absurd enough (by decide)
    | cons front rest =>
      obtain ⟨sized, nonempty⟩ := whole front (by simp [split])
      have some_ : 0 < front.header.size.toNat := by
        rw [sized]
        exact List.length_pos_iff.mpr nonempty
      rw [encode_cons] at after
      have long : front.header.bytes.length ≤ link.wire.length := by simpa using enough
      obtain ⟨took, _, _⟩ := take_of_stream after long
      have header : link.wire.take headerSize = front.header.bytes := by simpa using took
      simp only [Connection.received, reads, header] at ran
      rw [Connection.headerRead_sized _ some_] at ran
      cases ran
      rw [reads]
      rfl
  | body done pending front reads =>
    rw [reads] at started
    cases started
    simp only [Connection.received, reads, Connection.bodyRead, Connection.addToIncomming] at ran
    cases ran
    rw [reads]
    rfl

namespace Conversation

/-! ### Both directions -/

/-- The handlers that have run at both ends for what one end has sent: one has placed each
message on the queue, two have written it and two have read it. -/
def handled (talk : Conversation) (owner : Owner) : Nat :=
  let peer := (talk owner).peer
  let reader := talk owner.other
  peer.queued.length + (2 * peer.queued.length - 2 * peer.connection.outbound.length +
    bodies peer.connection.writes) + (2 * reader.incoming.length + bodies reader.peer.connection.reads)

def ran (talk : Conversation) : Nat := talk.handled .server + talk.handled .client

/-- The messages that were sent from either end. -/
def messages (talk : Conversation) : Nat := (talk .server).sent.length + (talk .client).sent.length

variable {talk next : Conversation} {owner : Owner}

theorem ran_eq (talk : Conversation) (owner : Owner) :
    talk.ran = talk.handled owner + talk.handled owner.other := by
  cases owner with
  | server => rfl
  | client => exact Nat.add_comm _ _

theorem ran_send (talk : Conversation) (owner : Owner) (msg : Message) :
    (talk.send owner msg).ran = talk.ran := by
  have same := talk.send_same owner msg
  simp only [ran, handled, same]

theorem handled_handle (taken : talk.step owner .handle = some next) (queue :
    (talk owner).peer.connection.outbound.length ≤ (talk owner).peer.queued.length) :
    next.handled owner = talk.handled owner + 1 ∧ next.handled owner.other = talk.handled owner.other := by
  obtain ⟨msg, posted, connection, waiting, placed, rfl⟩ := handle_cases taken
  obtain ⟨longer, same⟩ := Connection.counts_sendMessage placed
  obtain ⟨reads, _⟩ := Connection.sameReading_sendMessage placed
  constructor
  · simp only [handled, Function.update_self, Function.update_of_ne owner.other_ne, List.length_append,
      List.length_singleton, longer, same]
    omega
  · simp only [handled, Owner.other_other, Function.update_self, Function.update_of_ne owner.other_ne, reads]

theorem handled_written (sound : talk.Sound) (nonempty : ∀ msg ∈ (talk owner).peer.queued, msg.body ≠ [])
    (taken : talk.step owner .written = some next) :
    next.handled owner = talk.handled owner + 1 ∧ next.handled owner.other = talk.handled owner.other := by
  obtain ⟨_, _, framed⟩ := sound.framed owner
  obtain ⟨part, buffer, connection, started, ran, rfl⟩ := written_cases taken
  obtain ⟨shorter, counts⟩ := counts_written framed.writing nonempty ran
  obtain ⟨queue, _⟩ := framed.writing.counts
  obtain ⟨reads, _⟩ := Connection.sameReading_written ran
  constructor
  · simp only [handled, Function.update_self, Function.update_of_ne owner.other_ne]
    change 2 * (talk owner).peer.connection.outbound.length + _ =
      2 * connection.outbound.length + bodies (talk owner).peer.connection.writes + 1 at counts
    change (talk owner).peer.connection.outbound.length ≤ _ at queue
    change connection.outbound.length ≤ (talk owner).peer.connection.outbound.length at shorter
    omega
  · simp only [handled, Owner.other_other, Function.update_self, Function.update_of_ne owner.other_ne, reads]

theorem handled_received (sound : talk.Sound)
    (whole : ∀ msg ∈ (talk owner.other).peer.queued, msg.Sized ∧ msg.body ≠ [])
    (taken : talk.step owner .received = some next) :
    next.handled owner = talk.handled owner ∧ next.handled owner.other = talk.handled owner.other + 1 := by
  obtain ⟨_, _, framed⟩ := sound.framed owner.other
  obtain ⟨part, wanted, connection, item, started, enough, ran, rfl⟩ := received_cases taken
  obtain ⟨outbound, writes, _⟩ := Connection.sameWriting_received ran
  have source : (talk.direction owner.other).reader = (talk owner).peer.connection := by
    rw [direction, Owner.other_other]
  have counts := counts_received whole framed.reading (source ▸ started) enough (source ▸ ran)
  rw [source] at counts
  constructor
  · simp only [handled, Function.update_self, Function.update_of_ne owner.other_ne, outbound, writes]
  · simp only [handled, Owner.other_other, Function.update_self, Function.update_of_ne owner.other_ne,
      List.length_append]
    omega

/-- Every handler counts. -/
theorem ran_step {activity : Activity} (sound : talk.Sound)
    (whole : ∀ side, ∀ msg ∈ (talk side).peer.queued, msg.Sized ∧ msg.body ≠ [])
    (taken : talk.step owner activity = some next) : next.ran = talk.ran + 1 := by
  have counts : next.handled owner + next.handled owner.other =
      talk.handled owner + talk.handled owner.other + 1 := by
    cases activity with
    | handle =>
      obtain ⟨_, _, framed⟩ := sound.framed owner
      obtain ⟨own, across⟩ := handled_handle taken framed.writing.counts.1
      omega
    | written =>
      obtain ⟨own, across⟩ := handled_written sound (fun msg member => (whole owner msg member).2) taken
      omega
    | received =>
      obtain ⟨own, across⟩ := handled_received sound (whole owner.other) taken
      omega
  rw [ran_eq next owner, ran_eq talk owner, counts]

theorem handled_le (sound : talk.Sound) (owner : Owner) : talk.handled owner ≤ 5 * (talk owner).sent.length := by
  obtain ⟨_, _, framed⟩ := sound.framed owner
  obtain ⟨queue, writes⟩ := framed.writing.counts
  have reads := framed.reading.counts
  change (talk owner).peer.connection.outbound.length ≤ _ at queue
  change bodies (talk owner).peer.connection.writes ≤ (talk owner).peer.connection.outbound.length at writes
  rw [Link.pairs, List.length_map] at reads
  change 2 * (talk owner.other).incoming.length + bodies (talk owner.other).peer.connection.reads ≤ _ at reads
  have placed : (talk owner).sent.length = (talk owner).peer.queued.length + (talk owner).peer.posted.length :=
    List.length_append
  simp only [handled]
  omega

/-- At most five handlers run for a message. -/
theorem ran_le (sound : talk.Sound) : talk.ran ≤ 5 * talk.messages := by
  have server := handled_le sound .server
  have client := handled_le sound .client
  simp only [ran, messages]
  omega

/-- What arrives was sent. -/
theorem incoming_le (sound : talk.Sound) (owner : Owner) :
    (talk owner.other).incoming.length ≤ (talk owner).sent.length := by
  obtain ⟨_, _, framed⟩ := sound.framed owner
  have reads := framed.reading.counts
  rw [Link.pairs, List.length_map] at reads
  change 2 * (talk owner.other).incoming.length + _ ≤ _ at reads
  have placed : (talk owner).sent.length = (talk owner).peer.queued.length + (talk owner).peer.posted.length :=
    List.length_append
  omega

/-- At rest five handlers have run for each message. -/
theorem ran_of_rest (sound : talk.Sound)
    (whole : ∀ side, ∀ msg ∈ (talk side).sent, msg.Sized ∧ msg.body ≠ []) (rest : talk.AtRest) :
    talk.ran = 5 * talk.messages := by
  have enough : ∀ owner, 5 * (talk owner).sent.length ≤ talk.handled owner := by
    intro owner
    have sized : ∀ side, ∀ msg ∈ (talk side).peer.queued, msg.Sized := fun side msg member =>
      (whole side msg (List.mem_append_left _ member)).1
    have settled := settled_of_rest sound sized rest owner
    have arrived := received_settled sound (fun msg member => (whole owner msg member).2) settled
    have same := congrArg List.length arrived
    rw [Link.pairs, List.length_map, List.length_map] at same
    change (talk owner.other).incoming.length = _ at same
    have placed : (talk owner).sent.length = (talk owner).peer.queued.length := by
      rw [Endpoint.sent, settled.1, List.append_nil]
    have queue : (talk owner).peer.connection.outbound = [] := settled.2.1
    simp only [handled, queue, List.length_nil]
    omega
  have atMost := ran_le sound
  have server := enough .server
  have client := enough .client
  simp only [ran, messages] at atMost ⊢
  omega

end Conversation

end Wallchanger.Net
