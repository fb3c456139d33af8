import Wallchanger.Foundation.Run
import Wallchanger.Net.Connection

/-! The writing half of a connection: posted `send_message` handlers and completions of
its writes, in any order, the failed ones included. -/

namespace Wallchanger.Net

open Foundation

/-- A connection, and every write that its handlers have started. -/
structure Outbound where
  connection : Connection
  started : List (Part × Bytes) := []

inductive OutboundOp where
  | send (msg : Message)
  | complete (ok : Bool)

namespace Outbound

/-- A handler ran with some writes outstanding: what it started comes after them. -/
def record (state : Outbound) (outstanding : List (Part × Bytes)) (connection : Connection) : Outbound :=
  { connection, started := state.started ++ connection.writes.drop outstanding.length }

def step (state : Outbound) : OutboundOp → Option Outbound
  | .send msg => (state.connection.sendMessage msg).map (state.record state.connection.writes)
  | .complete ok => (state.connection.written ok).map (state.record state.connection.writes.tail)

/-- The messages of a run, in the order in which their handlers ran. -/
def sent (ops : List OutboundOp) : List Message :=
  ops.filterMap (fun op => match op with
    | .send msg => some msg
    | .complete _ => none)

/-- Whether a write of the run failed. -/
def fails (ops : List OutboundOp) : Bool :=
  ops.any (fun op => match op with
    | .send _ => false
    | .complete ok => !ok)

/-- The buffers of a message, an empty body skipped. -/
def parts (msg : Message) : List (Part × Bytes) :=
  (.header, msg.header.bytes) :: if msg.body = [] then [] else [(.body, msg.body)]

/-- The buffers of some messages, one message after the other. -/
def buffers (msgs : List Message) : List (Part × Bytes) := msgs.flatMap parts

@[simp] theorem buffers_append (front back : List Message) :
    buffers (front ++ back) = buffers front ++ buffers back := List.flatMap_append

@[simp] theorem buffers_cons (msg : Message) (rest : List Message) :
    buffers (msg :: rest) = parts msg ++ buffers rest := rfl

@[simp] theorem buffers_nil : buffers [] = [] := rfl

/-- Where the writer stands. A write is outstanding exactly while the queue has a
message and no write has failed, and then it belongs to the message in front. -/
inductive Sending (state : Outbound) (posted : List Message) : Bool → Prop where
  | idle (queue : state.connection.outbound = []) (outstanding : state.connection.writes = [])
      (whole : state.started = buffers posted) : Sending state posted false
  | header (done rest : List Message) (front : Message)
      (queue : state.connection.outbound = front :: rest)
      (outstanding : state.connection.writes = [(.header, front.header.bytes)])
      (all : posted = done ++ front :: rest)
      (begun : state.started = buffers done ++ [(.header, front.header.bytes)]) : Sending state posted false
  | body (done rest : List Message) (front : Message)
      (queue : state.connection.outbound = front :: rest)
      (outstanding : state.connection.writes = [(.body, front.body)])
      (all : posted = done ++ front :: rest)
      (begun : state.started = buffers (done ++ [front])) : Sending state posted false
  | broken (queue : state.connection.outbound ≠ []) (outstanding : state.connection.writes = [])
      (part : state.started <+: buffers posted) : Sending state posted true

theorem buffers_prefix_of_front {done rest : List Message} {front : Message} :
    buffers done ++ [(.header, front.header.bytes)] <+: buffers (done ++ front :: rest) := by
  rw [buffers_append, buffers_cons, parts, List.cons_append]
  exact List.prefix_append_right_inj _ |>.mpr (List.prefix_append [_] _)

/-- What was started is a front part of the buffers of the posted messages. -/
theorem Sending.started_prefix {state : Outbound} {posted : List Message} {failed : Bool}
    (sending : Sending state posted failed) : state.started <+: buffers posted := by
  cases sending with
  | idle queue outstanding whole => exact whole ▸ List.prefix_rfl
  | header done rest front queue outstanding all begun =>
    rw [begun, all]
    exact buffers_prefix_of_front
  | body done rest front queue outstanding all begun =>
    rw [begun, all, List.append_cons done front rest, buffers_append (done ++ [front]) rest]
    exact List.prefix_append _ _
  | broken queue outstanding part => exact part

theorem Sending.at_most_one {state : Outbound} {posted : List Message} {failed : Bool}
    (sending : Sending state posted failed) : state.connection.writes.length ≤ 1 := by
  cases sending with
  | idle queue outstanding whole => simp [outstanding]
  | header done rest front queue outstanding all begun => simp [outstanding]
  | body done rest front queue outstanding all begun => simp [outstanding]
  | broken queue outstanding part => simp [outstanding]

/-- A posted handler starts a write only if the queue was empty. -/
theorem sending_send {state : Outbound} {posted : List Message} {failed : Bool}
    (sending : Sending state posted failed) (msg : Message) :
    ∃ next, state.step (.send msg) = some next ∧ Sending next (posted ++ [msg]) failed ∧
      (failed = true → next.started = state.started) := by
  cases sending with
  | idle queue outstanding whole =>
    refine ⟨{ connection := { state.connection with
        outbound := [msg], writes := [(.header, msg.header.bytes)] }
              started := state.started ++ [(.header, msg.header.bytes)] }, ?_, ?_, fun broken => nomatch broken⟩
    · simp [step, record, Connection.sendMessage, Connection.writeHeader, queue, outstanding]
    · exact .header posted [] msg rfl rfl rfl (by rw [whole])
  | header done rest front queue outstanding all begun =>
    refine ⟨{ state with connection := { state.connection with outbound := front :: (rest ++ [msg]) } },
      ?_, ?_, fun broken => nomatch broken⟩
    · simp [step, record, Connection.sendMessage, queue]
    · exact .header done (rest ++ [msg]) front rfl outstanding (by simp [all]) begun
  | body done rest front queue outstanding all begun =>
    refine ⟨{ state with connection := { state.connection with outbound := front :: (rest ++ [msg]) } },
      ?_, ?_, fun broken => nomatch broken⟩
    · simp [step, record, Connection.sendMessage, queue]
    · exact .body done (rest ++ [msg]) front rfl outstanding (by simp [all]) begun
  | broken queue outstanding part =>
    refine ⟨{ state with connection := { state.connection with
        outbound := state.connection.outbound ++ [msg] } }, ?_, ?_, fun _ => rfl⟩
    · simp [step, record, Connection.sendMessage, queue]
    · refine .broken (fun empty => ?_) outstanding ?_
      · exact absurd (List.append_eq_nil_iff.mp empty).2 (List.cons_ne_nil _ _)
      · rw [buffers_append]
        exact part.trans (List.prefix_append _ _)

/-- After the last buffer of a message comes the header of the next one. -/
theorem sending_next {state : Outbound} {done rest : List Message} {front : Message}
    (queue : state.connection.outbound = front :: rest)
    (begun : state.started = buffers (done ++ [front])) :
    ∃ next, ({ state.connection with writes := [] } : Connection).nextMessage = some next ∧
      Sending (state.record [] next) (done ++ front :: rest) false := by
  refine ⟨_, Connection.nextMessage_eq _ front rest queue, ?_⟩
  cases rest with
  | nil => exact .idle rfl rfl (by simp [record, begun])
  | cons other others =>
    refine .header (done ++ [front]) others other rfl rfl (by simp) ?_
    simp [record, begun]

/-- A completed write leads to the body, to the next message or to an empty queue. -/
theorem sending_complete {state : Outbound} {posted : List Message} {failed : Bool}
    (sending : Sending state posted failed) (more : state.connection.writes ≠ []) :
    ∃ connection, state.step (.complete true) = some (state.record [] connection) ∧
      Sending (state.record [] connection) posted failed := by
  cases sending with
  | idle queue outstanding whole => exact absurd outstanding more
  | header done rest front queue outstanding all begun =>
    by_cases empty : front.body = []
    · obtain ⟨next, moved, sending⟩ := @sending_next state done rest front queue
        (by rw [begun, buffers_append, buffers_cons, parts, if_pos empty, buffers_nil, List.append_nil])
      have written : state.connection.written true = some next := by
        simpa [Connection.written, Connection.headerWritten, outstanding, queue, empty] using moved
      exact ⟨next, by simp [step, written, outstanding], all ▸ sending⟩
    · refine ⟨{ state.connection with writes := [(.body, front.body)] }, ?_, ?_⟩
      · have long : 0 < front.body.length := List.length_pos_iff.mpr empty
        simp [step, Connection.written, Connection.headerWritten, Connection.writeBody, outstanding, queue,
          long]
      · refine .body done rest front queue rfl all ?_
        simp [record, begun, parts, empty]
  | body done rest front queue outstanding all begun =>
    obtain ⟨next, moved, sending⟩ := @sending_next state done rest front queue begun
    refine ⟨next, ?_, all ▸ sending⟩
    simp [step, Connection.written, Connection.bodyWritten, outstanding, moved]
  | broken queue outstanding part => exact absurd outstanding more

@[simp] theorem outbound_disconnect (connection : Connection) :
    connection.disconnect.outbound = connection.outbound := by
  unfold Connection.disconnect
  split
  · rfl
  · rfl

@[simp] theorem writes_disconnect (connection : Connection) :
    connection.disconnect.writes = connection.writes := by
  unfold Connection.disconnect
  split
  · rfl
  · rfl

/-- A failed write disconnects and leaves the message it belongs to in front. -/
theorem sending_failed {state : Outbound} {posted : List Message} {failed : Bool}
    (sending : Sending state posted failed) (more : state.connection.writes ≠ []) :
    ∃ next, state.step (.complete false) = some next ∧ Sending next posted true ∧
      next.started = state.started := by
  have part := sending.started_prefix
  cases sending with
  | idle queue outstanding whole => exact absurd outstanding more
  | header done rest front queue outstanding all begun =>
    refine ⟨{ state with connection := ({ state.connection with writes := [] } : Connection).disconnect },
      ?_, .broken ?_ ?_ part, rfl⟩
    · simp [step, record, Connection.written, Connection.headerWritten, outstanding]
    · simp [queue]
    · simp
  | body done rest front queue outstanding all begun =>
    refine ⟨{ state with connection := ({ state.connection with writes := [] } : Connection).disconnect },
      ?_, .broken ?_ ?_ part, rfl⟩
    · simp [step, record, Connection.written, Connection.bodyWritten, outstanding]
    · simp [queue]
    · simp
  | broken queue outstanding part => exact absurd outstanding more

theorem step_idle {state : Outbound} (none_ : state.connection.writes = []) (ok : Bool) :
    state.step (.complete ok) = none := by
  simp [step, Connection.written, none_]

/-! ### Runs -/

/-- A step keeps the writer in order; after a failed write it starts none. -/
theorem sending_step {state next : Outbound} {posted : List Message} {failed : Bool} {op : OutboundOp}
    (sending : Sending state posted failed) (taken : state.step op = some next) :
    Sending next (posted ++ sent [op]) (failed || fails [op]) ∧
      ((failed || fails [op]) = true → next.started = state.started) := by
  cases op with
  | send msg =>
    obtain ⟨after, handled, sending, same⟩ := sending_send sending msg
    cases handled.symm.trans taken
    have none_ : (failed || fails [.send msg]) = failed := Bool.or_false failed
    rw [none_]
    exact ⟨sending, same⟩
  | complete ok =>
    have kept : posted ++ sent [.complete ok] = posted := List.append_nil posted
    have more : state.connection.writes ≠ [] := fun none_ => nomatch (step_idle none_ ok).symm.trans taken
    rw [kept]
    cases ok with
    | true =>
      obtain ⟨after, handled, next_⟩ := sending_complete sending more
      cases handled.symm.trans taken
      have none_ : (failed || fails [.complete true]) = failed := Bool.or_false failed
      rw [none_]
      refine ⟨next_, fun broken => ?_⟩
      cases sending with
      | broken queue outstanding part => exact absurd outstanding more
      | idle _ _ _ | header _ _ _ _ _ _ _ | body _ _ _ _ _ _ _ => exact nomatch broken
    | false =>
      obtain ⟨after, handled, sending, same⟩ := sending_failed sending more
      cases handled.symm.trans taken
      have some_ : (failed || fails [.complete false]) = true := Bool.or_true failed
      rw [some_]
      exact ⟨sending, fun _ => same⟩

theorem sent_append (front back : List OutboundOp) : sent (front ++ back) = sent front ++ sent back :=
  List.filterMap_append

theorem fails_append (front back : List OutboundOp) : fails (front ++ back) = (fails front || fails back) :=
  List.any_append

/-- Every run keeps the writer in order, and starts nothing after a failed write. -/
theorem sending_run {state final : Outbound} {posted : List Message} {failed : Bool}
    {ops : List OutboundOp} (sending : Sending state posted failed)
    (reached : run step state ops = some final) : Sending final (posted ++ sent ops) (failed || fails ops) ∧
      (failed = true → final.started = state.started) := by
  induction ops generalizing state posted failed with
  | nil =>
    cases reached
    refine ⟨?_, fun _ => rfl⟩
    rw [show fails [] = false from rfl, show sent [] = [] from rfl, Bool.or_false, List.append_nil]
    exact sending
  | cons op rest ih =>
    obtain ⟨next, taken, reached⟩ := run_cons.mp reached
    obtain ⟨here, same⟩ := sending_step sending taken
    obtain ⟨later, kept⟩ := ih here reached
    refine ⟨?_, fun broken => ?_⟩
    · rw [show op :: rest = [op] ++ rest from rfl, sent_append, fails_append, ← List.append_assoc,
        ← Bool.or_assoc]
      exact later
    · have still : (failed || fails [op]) = true := by rw [broken, Bool.true_or]
      exact (kept still).trans (same still)

/-- With no failed write and none outstanding, everything was written. -/
theorem Sending.settled {state : Outbound} {posted : List Message} (sending : Sending state posted false)
    (none_ : state.connection.writes = []) :
    state.connection.outbound = [] ∧ state.started = buffers posted := by
  cases sending with
  | idle queue outstanding whole => exact ⟨queue, whole⟩
  | header done rest front queue outstanding all begun => exact nomatch outstanding.symm.trans none_
  | body done rest front queue outstanding all begun => exact nomatch outstanding.symm.trans none_

/-- Completing one write after the other empties the queue: the measure is the number of
buffers that are not completely written. -/
theorem drains {state : Outbound} {posted : List Message} {left : Nat} (sending : Sending state posted false)
    (measure : (buffers posted).length + state.connection.writes.length = state.started.length + left) :
    ∃ drained, run step state (List.replicate left (.complete true)) = some drained ∧
      drained.connection.writes = [] ∧ drained.connection.outbound = [] ∧
      drained.started = buffers posted := by
  have bound := sending.started_prefix.length_le
  induction left generalizing state with
  | zero =>
    have none_ : state.connection.writes = [] := List.eq_nil_of_length_eq_zero (by omega)
    exact ⟨state, rfl, none_, sending.settled none_⟩
  | succ left ih =>
    have more : state.connection.writes ≠ [] := by
      intro none_
      rw [(sending.settled none_).2, none_] at measure
      simp at measure
    have one : state.connection.writes.length = 1 :=
      Nat.le_antisymm sending.at_most_one (List.length_pos_iff.mpr more)
    obtain ⟨connection, taken, next⟩ := sending_complete sending more
    have begun : (state.record [] connection).started.length =
        state.started.length + connection.writes.length := List.length_append
    have measure : (buffers posted).length + connection.writes.length =
        (state.record [] connection).started.length + left := by omega
    obtain ⟨drained, reached, done⟩ := ih next measure next.started_prefix.length_le
    exact ⟨drained, run_cons.mpr ⟨_, taken, reached⟩, done⟩

/-- Every handler has an outcome; only a write that was not started cannot complete. -/
theorem Sending.progress {state : Outbound} {posted : List Message} {failed : Bool} {op : OutboundOp}
    (sending : Sending state posted failed) (stuck : state.step op = none) :
    ∃ ok, op = .complete ok ∧ state.connection.writes = [] := by
  cases op with
  | send msg =>
    obtain ⟨next, taken, _⟩ := sending_send sending msg
    exact nomatch taken.symm.trans stuck
  | complete ok =>
    refine ⟨ok, rfl, Decidable.byContradiction (fun more => ?_)⟩
    cases ok with
    | true =>
      obtain ⟨next, taken, _⟩ := sending_complete sending more
      exact nomatch taken.symm.trans stuck
    | false =>
      obtain ⟨next, taken, _⟩ := sending_failed sending more
      exact nomatch taken.symm.trans stuck

/-- A new connection: nothing is queued and nothing is being written. -/
def fresh (connection : Connection) : Outbound :=
  { connection := { connection with outbound := [], writes := [] } }

/-- Whatever the order of handlers and completions: every handler has an outcome; one write
is outstanding at most; the buffers are started in order; without a failure the completions
of the writes drain the queue; after a failure nothing is started. -/
theorem outbound_protocol (connection : Connection) (ops : List OutboundOp) (final : Outbound)
    (reached : run step (fresh connection) ops = some final) :
    (∀ op, final.step op = none → ∃ ok, op = .complete ok ∧ final.connection.writes = []) ∧
    final.connection.writes.length ≤ 1 ∧ final.started <+: buffers (sent ops) ∧
    (fails ops = false →
      (final.connection.writes = [] →
        final.connection.outbound = [] ∧ final.started = buffers (sent ops)) ∧
      ∃ count drained, run step final (List.replicate count (.complete true)) = some drained ∧
        drained.connection.writes = [] ∧ drained.connection.outbound = [] ∧
        drained.started = buffers (sent ops)) ∧
    (∀ before after middle, ops = before ++ .complete false :: after →
      run step (fresh connection) before = some middle → final.started = middle.started) := by
  have start : Sending (fresh connection) [] false := .idle rfl rfl rfl
  have sending := (sending_run start reached).1
  refine ⟨fun op => sending.progress, sending.at_most_one, sending.started_prefix, fun fine => ?_, ?_⟩
  · rw [Bool.false_or, fine] at sending
    refine ⟨sending.settled, ?_⟩
    have bound : final.started.length ≤ (buffers (sent ops)).length := sending.started_prefix.length_le
    exact ⟨(buffers (sent ops)).length + final.connection.writes.length - final.started.length,
      drains sending (Nat.add_sub_cancel' (Nat.le_trans bound (Nat.le_add_right ..))).symm⟩
  · intro before after middle split earlier
    rw [split, run_append, earlier, Option.bind_some] at reached
    obtain ⟨next, taken, reached⟩ := run_cons.mp reached
    obtain ⟨broken, same⟩ := sending_step (sending_run start earlier).1 taken
    have some_ : ((false || fails before) || fails [.complete false]) = true := Bool.or_true _
    rw [some_] at broken
    exact ((sending_run broken reached).2 rfl).trans (same some_)

/-- A second message is queued while the first is written, and the write of its header
fails: the buffers before that were started in order. -/
theorem outbound_protocol_two : ∃ final, run step (fresh { owner := .server })
      [.send ⟨⟨1, 1, 0⟩, 0, [7]⟩, .send ⟨⟨2, 0, 0⟩, 0, []⟩, .complete true, .complete true,
        .complete false] = some final ∧
    final.started <+: buffers [⟨⟨1, 1, 0⟩, 0, [7]⟩, ⟨⟨2, 0, 0⟩, 0, []⟩] := by
  have defined : ∃ final, run step (fresh { owner := .server })
      [.send ⟨⟨1, 1, 0⟩, 0, [7]⟩, .send ⟨⟨2, 0, 0⟩, 0, []⟩, .complete true, .complete true,
        .complete false] = some final := ⟨_, rfl⟩
  obtain ⟨final, reached⟩ := defined
  obtain ⟨_, _, begun, _⟩ := outbound_protocol _ _ final reached
  exact ⟨final, reached, begun⟩

end Outbound

end Wallchanger.Net
