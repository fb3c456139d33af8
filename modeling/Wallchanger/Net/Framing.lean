import Wallchanger.Net.Connection
import Wallchanger.Foundation.Run

/-! One direction of a connection: messages are posted at one end, written, carried,
read and queued at the other, in any interleaving of posts and completions. -/

namespace Wallchanger.Net

open Foundation

/-- The two ends, and the bytes that are written and not yet read. -/
structure Link where
  writer : Connection
  wire : Bytes := []
  reader : Connection
  incoming : List OwnedMessage := []

inductive LinkOp where
  | post (msg : Message)
  | written
  | received

namespace Link

/-- A fresh connection, by the owner of the end that writes. -/
def established : Owner → UInt32 → Link
  | .client, id =>
    { writer := ({ owner := .client } : Connection).connectToServer
      reader := ({ owner := .server } : Connection).connectToClient id }
  | .server, id =>
    { writer := ({ owner := .server } : Connection).connectToClient id
      reader := ({ owner := .client } : Connection).connectToServer }

/-- A write transfers its buffer and a read fills its buffer, once enough is there. -/
def step (link : Link) : LinkOp → Option Link
  | .post msg => (link.writer.sendMessage msg).map (fun writer => { link with writer })
  | .written => do
    let (_, buffer) ← link.writer.writes.head?
    let writer ← link.writer.written true
    return { link with writer, wire := link.wire ++ buffer }
  | .received => do
    let (_, wanted) ← link.reader.reads.head?
    if wanted ≤ link.wire.length then
      let (reader, item) ← link.reader.received (link.wire.take wanted)
      return { link with reader, wire := link.wire.drop wanted, incoming := link.incoming ++ item.toList }
    else none

/-- The headers and bodies that were queued. -/
def pairs (link : Link) : List (MessageHeader × Bytes) :=
  link.incoming.map (fun owned => (owned.msg.header, owned.msg.body))

/-- Nothing is left to write or to read. -/
def Drained (link : Link) : Prop := link.writer.outbound = [] ∧ link.wire = []

end Link

/-- The messages of a run, in the order in which their handlers ran. -/
def posted (ops : List LinkOp) : List Message :=
  ops.filterMap (fun op => match op with
    | .post msg => some msg
    | _ => none)

/-! ### What the reader makes of a stream -/

def encode (msgs : List Message) : Bytes := msgs.flatMap Message.bytes

@[simp] theorem encode_nil : encode [] = [] := rfl

@[simp] theorem encode_cons (msg : Message) (rest : List Message) :
    encode (msg :: rest) = msg.header.bytes ++ (msg.body ++ encode rest) := by
  simp [encode, Message.bytes]

@[simp] theorem encode_append (front back : List Message) :
    encode (front ++ back) = encode front ++ encode back := List.flatMap_append

/-- The body that the reading buffer keeps after a message. -/
def keptBody (last : Bytes) (msg : Message) : Bytes := if msg.body = [] then last else msg.body

/-- What is queued for some messages if the buffer starts with a body. -/
def delivered (last : Bytes) : List Message → List (MessageHeader × Bytes)
  | [] => []
  | msg :: rest => (msg.header, keptBody last msg) :: delivered (keptBody last msg) rest

theorem delivered_append (last : Bytes) (front back : List Message) :
    delivered last (front ++ back) = delivered last front ++ delivered (front.foldl keptBody last) back := by
  induction front generalizing last with
  | nil => rfl
  | cons msg rest ih => simp [delivered, ih]

/-- The messages come through exactly if no empty body follows one that is not. -/
theorem delivered_eq_iff (last : Bytes) (msgs : List Message) :
    delivered last msgs = msgs.map (fun msg => (msg.header, msg.body)) ↔
      (∀ msg ∈ msgs, msg.body = [] → last = []) ∧
        msgs.Pairwise (fun earlier later => later.body = [] → earlier.body = []) := by
  induction msgs generalizing last with
  | nil => simp [delivered]
  | cons msg rest ih =>
    rw [delivered, List.map_cons, List.cons.injEq, ih, List.pairwise_cons, List.forall_mem_cons,
      Prod.mk.injEq]
    by_cases empty : msg.body = []
    · simp only [keptBody, empty, true_and, forall_const, implies_true]
      constructor
      · rintro ⟨same, all, apart⟩
        exact ⟨⟨same, all⟩, apart⟩
      · rintro ⟨⟨same, all⟩, apart⟩
        exact ⟨same, all, apart⟩
    · simp only [keptBody, if_neg empty, true_and]
      constructor
      · rintro ⟨all, apart⟩
        refine ⟨⟨fun blank => absurd blank empty, fun other member blank => ?_⟩, all, apart⟩
        exact absurd (all other member blank) empty
      · rintro ⟨_, all, apart⟩
        exact ⟨all, apart⟩

/-! ### Where the ends stand -/

/-- Where the writing end stands, having sent some bytes of the posted messages. -/
inductive Writing (writer : Connection) (posted : List Message) (sent unsent : Bytes) : Prop where
  | idle (queue : writer.outbound = []) (started : writer.writes = [])
      (before : sent = encode posted) (after : unsent = [])
  | header (done rest : List Message) (front : Message) (queue : writer.outbound = front :: rest)
      (started : writer.writes = [(.header, front.header.bytes)]) (whole : posted = done ++ front :: rest)
      (before : sent = encode done) (after : unsent = encode (front :: rest))
  | body (done rest : List Message) (front : Message) (queue : writer.outbound = front :: rest)
      (started : writer.writes = [(.body, front.body)]) (whole : posted = done ++ front :: rest)
      (nonempty : front.body ≠ []) (before : sent = encode done ++ front.header.bytes)
      (after : unsent = front.body ++ encode rest)

/-- Where the reading end stands, having taken some bytes of the posted messages. -/
inductive Reading (reader : Connection) (queue : List (MessageHeader × Bytes))
    (posted : List Message) (taken ahead : Bytes) : Prop where
  | header (done pending : List Message) (started : reader.reads = [(.header, headerSize)])
      (whole : posted = done ++ pending) (queued : queue = delivered [] done)
      (kept : reader.tempIn.body = done.foldl keptBody [])
      (before : taken = encode done) (after : ahead = encode pending)
  | body (done pending : List Message) (front : Message)
      (started : reader.reads = [(.body, front.body.length)])
      (whole : posted = done ++ front :: pending) (queued : queue = delivered [] done)
      (named : reader.tempIn.header = front.header) (nonempty : front.body ≠ [])
      (before : taken = encode done ++ front.header.bytes) (after : ahead = front.body ++ encode pending)

/-- The ends agree on one stream: what is taken, what is on the wire, what is unsent. -/
structure Framed (link : Link) (posted : List Message) (taken unsent : Bytes) : Prop where
  writing : Writing link.writer posted (taken ++ link.wire) unsent
  reading : Reading link.reader link.pairs posted taken (link.wire ++ unsent)

theorem framed_established (owner : Owner) (id : UInt32) :
    Framed (Link.established owner id) [] [] [] := by
  cases owner with
  | client => exact ⟨.idle rfl rfl rfl rfl, .header [] [] rfl rfl rfl rfl rfl rfl⟩
  | server => exact ⟨.idle rfl rfl rfl rfl, .header [] [] rfl rfl rfl rfl rfl rfl⟩

theorem reading_post {reader : Connection} {queue : List (MessageHeader × Bytes)}
    {posted : List Message} {taken ahead : Bytes}
    (reading : Reading reader queue posted taken ahead) (msg : Message) :
    Reading reader queue (posted ++ [msg]) taken (ahead ++ encode [msg]) := by
  cases reading with
  | header done pending started whole queued kept before after =>
    refine .header done (pending ++ [msg]) started ?_ queued kept before ?_
    · rw [whole, List.append_assoc]
    · rw [after, encode_append]
  | body done pending front started whole queued named nonempty before after =>
    refine .body done (pending ++ [msg]) front started ?_ queued named nonempty before ?_
    · simp [whole]
    · rw [after, encode_append, List.append_assoc]

theorem writing_post {writer : Connection} {posted : List Message} {sent unsent : Bytes}
    (writing : Writing writer posted sent unsent) (msg : Message) :
    ∃ next, writer.sendMessage msg = some next ∧
      Writing next (posted ++ [msg]) sent (unsent ++ encode [msg]) := by
  cases writing with
  | idle queue started before after =>
    refine ⟨{ writer with outbound := [msg], writes := [(.header, msg.header.bytes)] }, ?_, ?_⟩
    · simp [Connection.sendMessage, Connection.writeHeader, queue, started]
    · exact .header posted [] msg rfl rfl rfl before (by rw [after, List.nil_append])
  | header done rest front queue started whole before after =>
    refine ⟨{ writer with outbound := front :: (rest ++ [msg]) }, ?_, ?_⟩
    · simp [Connection.sendMessage, queue]
    · refine .header done (rest ++ [msg]) front rfl started ?_ before ?_
      · simp [whole]
      · rw [after, ← encode_append]
        rfl
  | body done rest front queue started whole nonempty before after =>
    refine ⟨{ writer with outbound := front :: (rest ++ [msg]) }, ?_, ?_⟩
    · simp [Connection.sendMessage, queue]
    · refine .body done (rest ++ [msg]) front rfl started ?_ nonempty before ?_
      · simp [whole]
      · rw [after, encode_append, List.append_assoc]

/-- The end of a message leads to the next one's header. -/
theorem writing_next {writer : Connection} {done rest : List Message} {front : Message}
    (queue : writer.outbound = front :: rest) (started : writer.writes = []) :
    ∃ next, writer.nextMessage = some next ∧
      Writing next (done ++ front :: rest) (encode (done ++ [front])) (encode rest) := by
  refine ⟨_, writer.nextMessage_eq front rest queue, ?_⟩
  cases rest with
  | nil => exact .idle rfl (by simp [started]) rfl rfl
  | cons msg others => exact .header (done ++ [front]) others msg rfl (by simp [started]) (by simp) rfl rfl

/-- A completed write moves its bytes to the wire. -/
theorem writing_written {writer : Connection} {posted : List Message} {sent unsent : Bytes}
    (writing : Writing writer posted sent unsent) (more : writer.writes ≠ []) :
    ∃ part buffer next rest, writer.writes.head? = some (part, buffer) ∧
      writer.written true = some next ∧ buffer ≠ [] ∧ unsent = buffer ++ rest ∧
      Writing next posted (sent ++ buffer) rest := by
  cases writing with
  | idle queue started before after => exact absurd started more
  | header done rest front queue started whole before after =>
    by_cases empty : front.body = []
    · obtain ⟨next, moved, writing⟩ := @writing_next { writer with writes := [] } done rest front queue rfl
      refine ⟨.header, front.header.bytes, next, encode rest, by rw [started]; rfl, ?_,
        front.header.bytes_ne_nil, ?_, ?_⟩
      · simpa [Connection.written, Connection.headerWritten, started, queue, empty] using moved
      · rw [after, encode_cons, empty, List.nil_append]
      · rw [whole, before]
        simpa [empty] using writing
    · refine ⟨.header, front.header.bytes, { writer with writes := [(.body, front.body)] },
        front.body ++ encode rest, by rw [started]; rfl, ?_, front.header.bytes_ne_nil, ?_, ?_⟩
      · have long : 0 < front.body.length := List.length_pos_iff.mpr empty
        simp [Connection.written, Connection.headerWritten, Connection.writeBody, started, queue, long]
      · rw [after, encode_cons]
      · exact .body done rest front queue rfl whole empty (by rw [before]) rfl
  | body done rest front queue started whole nonempty before after =>
    obtain ⟨next, moved, writing⟩ := @writing_next { writer with writes := [] } done rest front queue rfl
    refine ⟨.body, front.body, next, encode rest, by rw [started]; rfl, ?_, nonempty, after, ?_⟩
    · simp [Connection.written, Connection.bodyWritten, started, moved]
    · rw [whole, before]
      simpa using writing

/-- A front part of the stream that is on the wire in full is read from there. -/
theorem take_of_stream {wire unsent front rest : Bytes} (same : wire ++ unsent = front ++ rest)
    (enough : front.length ≤ wire.length) :
    wire.take front.length = front ∧ wire = front ++ wire.drop front.length ∧
      wire.drop front.length ++ unsent = rest := by
  rcases List.append_eq_append_iff.mp same with ⟨gap, split, rfl⟩ | ⟨gap, rfl, rfl⟩
  · have none_ : gap = [] := by
      rw [split, List.length_append] at enough
      exact List.eq_nil_of_length_eq_zero (by omega)
    subst none_
    rw [List.append_nil] at split
    subst split
    simp
  · simp

/-- The number of bytes the pending read waits for. -/
def wanted (link : Link) : Nat := (link.reader.reads.head?.map Prod.snd).getD 0

theorem encode_eq_nil {msgs : List Message} (empty : encode msgs = []) : msgs = [] := by
  cases msgs with
  | nil => rfl
  | cons msg rest =>
    rw [encode_cons] at empty
    exact absurd (List.append_eq_nil_iff.mp empty).1 msg.header.bytes_ne_nil

/-- Queueing a message that is complete in the buffer. -/
private theorem pairs_push {link : Link} {done : List Message} {front : Message}
    (queued : link.pairs = delivered [] done) {owned : OwnedMessage}
    (header : owned.msg.header = front.header)
    (body : owned.msg.body = keptBody (done.foldl keptBody []) front) :
    (link.incoming ++ [owned]).map (fun owned => (owned.msg.header, owned.msg.body)) =
      delivered [] (done ++ [front]) := by
  rw [List.map_append, delivered_append]
  change link.pairs ++ [(owned.msg.header, owned.msg.body)] = _
  rw [queued, header, body]
  rfl

/-- A read that gets its bytes hands them to its handler. -/
theorem step_received {link : Link} {part : Part} {buffer : Bytes} {reader : Connection}
    {item : Option OwnedMessage} (started : link.reader.reads = [(part, buffer.length)])
    (enough : buffer.length ≤ link.wire.length) (took : link.wire.take buffer.length = buffer)
    (handled : link.reader.received buffer = some (reader, item)) :
    link.step .received = some { link with
      reader, wire := link.wire.drop buffer.length, incoming := link.incoming ++ item.toList } := by
  simp [Link.step, started, enough, took, handled]

/-- A completed read takes its bytes from the wire. -/
theorem reading_received {link : Link} {posted : List Message} {taken unsent : Bytes}
    (sized : ∀ msg ∈ posted, msg.Sized)
    (reading : Reading link.reader link.pairs posted taken (link.wire ++ unsent))
    (enough : wanted link ≤ link.wire.length) (more : link.wire ≠ []) :
    ∃ next, link.step .received = some next ∧ next.writer = link.writer ∧
      ∃ buffer, buffer ≠ [] ∧ link.wire = buffer ++ next.wire ∧
        Reading next.reader next.pairs posted (taken ++ buffer) (next.wire ++ unsent) := by
  cases reading with
  | header done pending started whole queued kept before after =>
    cases pending with
    | nil => exact absurd (List.append_eq_nil_iff.mp after).1 more
    | cons front rest =>
      rw [encode_cons] at after
      have size : front.header.size.toNat = front.body.length := sized front (by simp [whole])
      have long : front.header.bytes.length ≤ link.wire.length := by
        simpa [wanted, started] using enough
      obtain ⟨took, split, left⟩ := take_of_stream after long
      by_cases empty : front.body = []
      · have blank : front.header.size.toNat = 0 := by rw [size, empty, List.length_nil]
        refine ⟨_, step_received started long took (by
          simp only [Connection.received, started, Connection.headerRead_blank _ blank]
          rfl), rfl, front.header.bytes, front.header.bytes_ne_nil, split, ?_⟩
        refine .header (done ++ [front]) rest rfl (by simp [whole]) ?_ ?_ ?_ ?_
        · exact pairs_push queued rfl (by simpa [keptBody, empty] using kept)
        · simpa [keptBody, empty, Connection.readHeader] using kept
        · simp [before, empty]
        · simpa [empty] using left
      · have some_ : 0 < front.header.size.toNat := size ▸ List.length_pos_iff.mpr empty
        refine ⟨_, step_received started long took (by
          simp only [Connection.received, started, Connection.headerRead_sized _ some_]
          rfl), rfl, front.header.bytes, front.header.bytes_ne_nil, split, ?_⟩
        refine .body done rest front ?_ whole ?_ rfl empty (by rw [before]) left
        · simp [Connection.readBody, size]
        · simpa [Link.pairs] using queued
  | body done pending front started whole queued named nonempty before after =>
    have long : front.body.length ≤ link.wire.length := by
      simpa [wanted, started] using enough
    obtain ⟨took, split, left⟩ := take_of_stream after long
    refine ⟨_, step_received started long took (by
      simp only [Connection.received, started, Connection.bodyRead]
      rfl), rfl, front.body, nonempty, split, ?_⟩
    refine .header (done ++ [front]) pending rfl (by simp [whole]) ?_ ?_ ?_ left
    · exact pairs_push queued named (by simp [keptBody, nonempty])
    · simp [keptBody, nonempty, Connection.readHeader]
    · simp [before]

/-! ### Runs -/

theorem framed_post {link : Link} {sent : List Message} {taken unsent : Bytes}
    (framed : Framed link sent taken unsent) (msg : Message) :
    ∃ next, link.step (.post msg) = some next ∧
      Framed next (sent ++ [msg]) taken (unsent ++ encode [msg]) := by
  obtain ⟨writer, handled, writing⟩ := writing_post framed.writing msg
  refine ⟨{ link with writer }, ?_, writing, ?_⟩
  · rw [Link.step, handled]
    rfl
  · rw [← List.append_assoc]
    exact reading_post framed.reading msg

theorem framed_written {link : Link} {sent : List Message} {taken unsent : Bytes}
    (framed : Framed link sent taken unsent) (more : link.writer.writes ≠ []) :
    ∃ next buffer rest, link.step .written = some next ∧ buffer ≠ [] ∧ unsent = buffer ++ rest ∧
      next.wire = link.wire ++ buffer ∧ Framed next sent taken rest := by
  obtain ⟨part, buffer, writer, rest, started, handled, nonempty, split, writing⟩ :=
    writing_written framed.writing more
  refine ⟨{ link with writer, wire := link.wire ++ buffer }, buffer, rest, ?_, nonempty, split, rfl, ?_, ?_⟩
  · simp [Link.step, started, handled]
  · rw [List.append_assoc] at writing
    exact writing
  · have reading := framed.reading
    rw [split, ← List.append_assoc] at reading
    exact reading

theorem framed_received {link : Link} {sent : List Message} {taken unsent : Bytes}
    (framed : Framed link sent taken unsent) (sized : ∀ msg ∈ sent, msg.Sized)
    (enough : wanted link ≤ link.wire.length) (more : link.wire ≠ []) :
    ∃ next buffer, link.step .received = some next ∧ buffer ≠ [] ∧ link.wire = buffer ++ next.wire ∧
      Framed next sent (taken ++ buffer) unsent := by
  obtain ⟨next, handled, same, buffer, nonempty, split, reading⟩ :=
    reading_received sized framed.reading enough more
  refine ⟨next, buffer, handled, nonempty, split, ?_, reading⟩
  rw [same, List.append_assoc, ← split]
  exact framed.writing

/-- A read never waits for nothing. -/
theorem wanted_pos {link : Link} {sent : List Message} {taken unsent : Bytes}
    (framed : Framed link sent taken unsent) : 0 < wanted link := by
  cases framed.reading with
  | header _ _ started => simp [wanted, started, headerSize]
  | body _ _ _ started _ _ _ nonempty =>
    simp only [wanted, started]
    exact List.length_pos_iff.mpr nonempty

/-- One step keeps the ends in agreement, on the stream as far as it is posted. -/
theorem framed_step {link next : Link} {sent : List Message} {taken unsent : Bytes} {op : LinkOp}
    (framed : Framed link sent taken unsent) (sized : ∀ msg ∈ sent, msg.Sized)
    (step : link.step op = some next) :
    ∃ taken' unsent', Framed next (sent ++ posted [op]) taken' unsent' := by
  cases op with
  | post msg =>
    obtain ⟨other, handled, framed⟩ := framed_post framed msg
    cases handled.symm.trans step
    exact ⟨_, _, framed⟩
  | written =>
    have more : link.writer.writes ≠ [] := by
      intro none_
      simp [Link.step, none_] at step
    obtain ⟨other, _, _, handled, _, _, _, framed⟩ := framed_written framed more
    cases handled.symm.trans step
    exact ⟨_, _, (List.append_nil sent).symm ▸ framed⟩
  | received =>
    have enough : wanted link ≤ link.wire.length := by
      obtain ⟨⟨part, size⟩, started, step⟩ := Option.bind_eq_some_iff.mp step
      by_cases long : size ≤ link.wire.length
      · simpa [wanted, started] using long
      · simp [long] at step
    have more : link.wire ≠ [] := List.ne_nil_of_length_pos (Nat.lt_of_lt_of_le (wanted_pos framed) enough)
    obtain ⟨other, _, handled, _, _, framed⟩ := framed_received framed sized enough more
    cases handled.symm.trans step
    exact ⟨_, _, (List.append_nil sent).symm ▸ framed⟩

theorem framed_run {link final : Link} {sent : List Message} {taken unsent : Bytes} {ops : List LinkOp}
    (framed : Framed link sent taken unsent) (sized : ∀ msg ∈ sent ++ posted ops, msg.Sized)
    (reached : run Link.step link ops = some final) :
    ∃ taken' unsent', Framed final (sent ++ posted ops) taken' unsent' := by
  induction ops generalizing link sent taken unsent with
  | nil =>
    cases reached
    exact ⟨_, _, (List.append_nil sent).symm ▸ framed⟩
  | cons op rest ih =>
    obtain ⟨next, step, reached⟩ := run_cons.mp reached
    have whole : sent ++ posted (op :: rest) = (sent ++ posted [op]) ++ posted rest := by
      cases op <;> simp [posted]
    obtain ⟨taken', unsent', framed⟩ :=
      framed_step framed (fun msg member => sized msg (List.mem_append_left _ member)) step
    rw [whole] at sized ⊢
    exact ih framed sized reached

/-- A drained connection has queued what its reader makes of the stream. -/
theorem pairs_of_drained {link : Link} {sent : List Message} {taken unsent : Bytes}
    (framed : Framed link sent taken unsent) (drained : link.Drained) :
    link.pairs = delivered [] sent := by
  have ⟨queue, wire⟩ := drained
  have done_ : unsent = [] := by
    cases framed.writing with
    | idle _ _ _ after => exact after
    | header _ _ _ busy => cases queue.symm.trans busy
    | body _ _ _ busy => cases queue.symm.trans busy
  cases framed.reading with
  | header done pending _ whole queued _ _ after =>
    rw [wire, done_] at after
    have last : pending = [] := encode_eq_nil after.symm
    rw [queued, whole, last, List.append_nil]
  | body done pending front _ _ _ _ nonempty _ after =>
    rw [wire, done_] at after
    exact absurd (List.append_eq_nil_iff.mp after.symm).1 nonempty

/-- Once all is written, what is on the wire holds what the reader waits for. -/
theorem wanted_le_wire {link : Link} {sent : List Message} {taken : Bytes}
    (framed : Framed link sent taken []) (more : link.wire ≠ []) : wanted link ≤ link.wire.length := by
  have reading := framed.reading
  rw [List.append_nil] at reading
  cases reading with
  | header done pending started _ _ _ _ after =>
    cases pending with
    | nil => exact absurd after more
    | cons front rest =>
      rw [encode_cons] at after
      simp [wanted, started, after]
  | body done pending front started _ _ _ _ _ after =>
    simp [wanted, started, after]

/-- Without further posts a connection drains, by as many completions as it takes. -/
theorem drains {link : Link} {sent : List Message} {taken unsent : Bytes}
    (framed : Framed link sent taken unsent) (sized : ∀ msg ∈ sent, msg.Sized) :
    ∃ completions final, posted completions = [] ∧ run Link.step link completions = some final ∧
      final.Drained := by
  -- a written byte still has to be read, so it counts less than an unwritten one
  induction size : 2 * unsent.length + link.wire.length using Nat.strongRecOn
    generalizing link taken unsent with
  | ind size ih =>
    subst size
    by_cases writing : link.writer.writes = []
    · have ⟨queue, done_⟩ : link.writer.outbound = [] ∧ unsent = [] := by
        cases framed.writing with
        | idle queue _ _ after => exact ⟨queue, after⟩
        | header _ _ _ _ busy => cases writing.symm.trans busy
        | body _ _ _ _ busy => cases writing.symm.trans busy
      subst done_
      by_cases more : link.wire = []
      · exact ⟨[], link, rfl, rfl, queue, more⟩
      · obtain ⟨next, buffer, handled, nonempty, split, framed⟩ :=
          framed_received framed sized (wanted_le_wire framed more) more
        have shorter : next.wire.length < link.wire.length := by
          have long := List.length_pos_iff.mpr nonempty
          rw [split, List.length_append]
          omega
        obtain ⟨completions, final, none_, reached, drained⟩ := ih _ (by omega) framed rfl
        exact ⟨.received :: completions, final, none_, run_cons.mpr ⟨next, handled, reached⟩, drained⟩
    · obtain ⟨next, buffer, rest, handled, nonempty, split, wire, framed⟩ := framed_written framed writing
      have long := List.length_pos_iff.mpr nonempty
      have lengths : unsent.length = buffer.length + rest.length := by rw [split, List.length_append]
      have onWire : next.wire.length = link.wire.length + buffer.length := by rw [wire, List.length_append]
      obtain ⟨completions, final, none_, reached, drained⟩ := ih _ (by omega) framed rfl
      exact ⟨.written :: completions, final, none_, run_cons.mpr ⟨next, handled, reached⟩, drained⟩

/-- Every run drains, and one that has drained has brought the messages over exactly if
none with an empty body follows one with a body. -/
theorem round_trips_iff (owner : Owner) (id : UInt32) {ops : List LinkOp} {final : Link}
    (sized : ∀ msg ∈ posted ops, msg.Sized)
    (reached : run Link.step (Link.established owner id) ops = some final) :
    (∃ completions finished, posted completions = [] ∧
      run Link.step final completions = some finished ∧ finished.Drained) ∧
    (final.Drained → (final.pairs = (posted ops).map (fun msg => (msg.header, msg.body)) ↔
      (posted ops).Pairwise (fun earlier later => later.body = [] → earlier.body = []))) := by
  obtain ⟨taken, unsent, framed⟩ :=
    framed_run (framed_established owner id) (by rwa [List.nil_append]) reached
  rw [List.nil_append] at framed
  refine ⟨drains framed sized, fun drained => ?_⟩
  rw [pairs_of_drained framed drained, delivered_eq_iff]
  exact and_iff_right (fun _ _ _ => rfl)

/-- A request without a body, and one with a byte. -/
def blank : Message := { header := { id := 1 } }

def marked : Message := { header := { id := 2, size := 1 }, body := [7] }

/-- The blank message first: it comes through. -/
theorem round_trips_run : ∃ final,
    run Link.step (Link.established .client 0) [.post blank, .post marked, .written, .received,
      .written, .written, .received, .received] = some final ∧
    final.pairs = [(blank.header, []), (marked.header, [7])] := by
  refine ⟨_, rfl, ?_⟩
  have sized : ∀ msg ∈ [blank, marked], msg.Sized := by decide
  exact ((@round_trips_iff .client 0
    [.post blank, .post marked, .written, .received, .written, .written, .received, .received]
    _ sized rfl).2 ⟨rfl, rfl⟩).mpr (by decide)

/-- The marked message first: the blank one is delivered with its body. -/
theorem blank_takes_body : ∃ ops final, posted ops = [marked, blank] ∧
    (∀ msg ∈ posted ops, msg.Sized) ∧
    run Link.step (Link.established .client 0) ops = some final ∧ final.Drained ∧
    final.pairs = [(marked.header, [7]), (blank.header, [7])] ∧
    final.pairs ≠ (posted ops).map (fun msg => (msg.header, msg.body)) := by
  have sized : ∀ msg ∈ [marked, blank], msg.Sized := by decide
  refine ⟨[.post marked, .post blank, .written, .written, .written, .received, .received, .received],
    _, rfl, sized, rfl, ⟨rfl, rfl⟩, rfl, ?_⟩
  intro same
  cases same

end Wallchanger.Net
