import Wallchanger.Foundation.Run
import Wallchanger.Net.Message

/-! The body of a message as a stack: values are pushed onto it and pulled off again. -/

namespace Wallchanger.Net

open Foundation

/-- A use of `operator<<` or, into a value with some bytes, of `operator>>`. -/
inductive StackOp where
  | push (data : Bytes) (now : UInt64)
  | pull (data : Bytes)

/-- The message, and what was pulled so far. -/
abbrev StackState := Message × List Bytes

def stackStep (state : StackState) : StackOp → Option StackState
  | .push data now => some (state.1.push data now, state.2)
  | .pull data => (state.1.pull data).map (fun pulled => (pulled.1, state.2 ++ [pulled.2]))

/-- The header tells the length of the body and its checksum. -/
def Message.Consistent (msg : Message) : Prop := msg.Sized ∧ msg.validate = true

instance (msg : Message) : Decidable msg.Consistent := inferInstanceAs (Decidable (_ ∧ _))

/-- A step that leaves a consistent message. -/
def LeavesConsistent (state : StackState) (op : StackOp) : Prop :=
  ∀ next, stackStep state op = some next → next.1.Consistent

theorem push_body (msg : Message) (data : Bytes) (now : UInt64) :
    (msg.push data now).body = msg.body ++ data := rfl

theorem consistent_push {msg : Message} {data : Bytes} (small : (msg.body ++ data).length < 2 ^ 32)
    (now : UInt64) : (msg.push data now).Consistent :=
  ⟨Message.sized_finalize small now, decide_eq_true rfl⟩

/-- What a pull leaves: another body and its size, under the old checksum. -/
def Message.shrunk (msg : Message) (body : Bytes) : Message :=
  { msg with body, header := { msg.header with size := UInt32.ofNat body.length } }

/-- A pull from a message with the checksum of its body takes the last bytes. -/
theorem pull_of_valid {msg : Message} {front back data : Bytes} (valid : msg.validate = true)
    (body : msg.body = front ++ back) (size : data.length = back.length) :
    msg.pull data = some (msg.shrunk front, back) := by
  have long : data.length ≤ msg.body.length := by
    rw [body, size, List.length_append]
    exact Nat.le_add_left ..
  have cut : msg.body.length - data.length = front.length := by
    rw [body, size, List.length_append, Nat.add_sub_cancel]
  have kept : msg.body.take front.length = front := by rw [body, List.take_left]
  have taken : msg.body.drop front.length = back := by rw [body, List.drop_left]
  simp only [Message.pull, if_pos valid, if_pos long, cut, kept, taken]
  rfl

def pushes (values : List (Bytes × UInt64)) : List StackOp := values.map (fun value => .push value.1 value.2)

/-- The bytes of the pushed values, in order. -/
def contents (values : List (Bytes × UInt64)) : List Bytes := values.map Prod.fst

/-- Every push leaves a consistent message with its value on top. -/
theorem run_pushes {msg : Message} (values : List (Bytes × UInt64))
    (small : (msg.body ++ (contents values).flatten).length < 2 ^ 32) (got : List Bytes) :
    ∃ after, run stackStep (msg, got) (pushes values) = some (after, got) ∧
      after.body = msg.body ++ (contents values).flatten ∧ (values ≠ [] → after.Consistent) ∧
      Meets stackStep LeavesConsistent (msg, got) (pushes values) := by
  induction values generalizing msg with
  | nil => exact ⟨msg, rfl, (List.append_nil _).symm, fun some_ => absurd rfl some_, trivial⟩
  | cons value rest ih =>
    have split : msg.body ++ (contents (value :: rest)).flatten =
        (msg.push value.1 value.2).body ++ (contents rest).flatten := by
      rw [push_body, List.append_assoc]
      rfl
    have here : (msg.push value.1 value.2).Consistent := by
      refine consistent_push (Nat.lt_of_le_of_lt ?_ small) value.2
      rw [split, push_body, @List.length_append _ (msg.body ++ value.1)]
      exact Nat.le_add_right ..
    rw [split] at small ⊢
    obtain ⟨after, reached, body, consistent, meets⟩ := ih small
    refine ⟨after, reached, body, fun _ => ?_, ?_⟩
    · cases rest with
      | nil =>
        cases reached
        exact here
      | cons other others => exact consistent (List.cons_ne_nil _ _)
    · intro next taken
      cases taken
      refine ⟨fun next taken => ?_, meets⟩
      cases taken
      exact here

/-- The pulls give back the values on top, in reverse order, down to a body below them,
and each leaves a consistent message. -/
def GivesBack (state : StackState) (slots popped : List Bytes) (base : Bytes) : Prop :=
  ∃ final, run stackStep state (slots.map .pull) = some final ∧ final.2 = state.2 ++ popped ∧
    final.1.body = base ∧ Meets stackStep LeavesConsistent state (slots.map .pull)

/-- A first pull that finds the checksum current, and the others. -/
theorem givesBack_cons {msg : Message} {got popped slots : List Bytes} {base front value slot : Bytes}
    (valid : msg.validate = true) (body : msg.body = front ++ value) (size : slot.length = value.length)
    (small : msg.body.length < 2 ^ 32) :
    GivesBack (msg, got) (slot :: slots) (value :: popped) base ↔
      (msg.shrunk front).validate = true ∧ GivesBack (msg.shrunk front, got ++ [value]) slots popped base := by
  have taken : stackStep (msg, got) (.pull slot) = some (msg.shrunk front, got ++ [value]) := by
    simp only [stackStep, pull_of_valid valid body size, Option.map_some]
  constructor
  · intro ⟨final, reached, pops, rest, meets⟩
    obtain ⟨next, step, reached⟩ := run_cons.mp reached
    cases taken.symm.trans step
    have ⟨here, later⟩ := meets _ taken
    refine ⟨(here _ taken).2, final, reached, ?_, rest, later⟩
    rw [pops, List.append_assoc]
    rfl
  · intro ⟨current, final, reached, pops, rest, meets⟩
    have short : front.length < 2 ^ 32 := by
      rw [body, List.length_append] at small
      omega
    have sized : (msg.shrunk front).Sized := by
      change (UInt32.ofNat front.length).toNat = front.length
      rw [UInt32.toNat_ofNat', Nat.mod_eq_of_lt short]
    refine ⟨final, run_cons.mpr ⟨_, taken, reached⟩, ?_, rest, fun next step => ?_⟩
    · rw [pops, List.append_assoc]
      rfl
    · cases taken.symm.trans step
      refine ⟨fun next step => ?_, meets⟩
      cases taken.symm.trans step
      exact ⟨sized, current⟩

/-- The pulls give the values back exactly if no shorter body has another checksum. -/
theorem givesBack_iff {msg : Message} {got popped slots : List Bytes} {base : Bytes}
    (valid : msg.validate = true) (body : msg.body = base ++ popped.reverse.flatten)
    (sizes : slots.map List.length = popped.map List.length) (small : msg.body.length < 2 ^ 32) :
    GivesBack (msg, got) slots popped base ↔
      ∀ rest, rest <:+ popped → crc32 (base ++ rest.reverse.flatten) = msg.header.hash := by
  have current : crc32 msg.body = msg.header.hash := of_decide_eq_true valid
  induction popped generalizing msg got slots with
  | nil =>
    cases List.map_eq_nil_iff.mp sizes
    constructor
    · intro _ rest suffix
      cases List.suffix_nil.mp suffix
      rw [← body]
      exact current
    · intro _
      exact ⟨(msg, got), rfl, (List.append_nil got).symm, body.trans (List.append_nil base), trivial⟩
  | cons value popped ih =>
    cases slots with
    | nil => cases sizes
    | cons slot slots =>
      have ⟨size, sizes⟩ := List.cons.inj sizes
      have split : msg.body = (base ++ popped.reverse.flatten) ++ value := by
        rw [body]
        simp
      have short : (base ++ popped.reverse.flatten).length < 2 ^ 32 := by
        rw [split, List.length_append] at small
        omega
      rw [givesBack_cons valid split size small]
      constructor
      · intro ⟨next, later⟩ rest suffix
        rcases List.suffix_cons_iff.mp suffix with whole | suffix
        · rw [whole, ← body]
          exact current
        · exact (ih next rfl sizes short (of_decide_eq_true next)).mp later rest suffix
      · intro same
        have next : (msg.shrunk (base ++ popped.reverse.flatten)).validate = true :=
          decide_eq_true (same popped (List.suffix_cons value popped))
        refine ⟨next, (ih next rfl sizes short (of_decide_eq_true next)).mpr ?_⟩
        exact fun rest suffix => same rest (suffix.trans (List.suffix_cons value popped))

/-- Pushing some values and pulling as many gives them back in reverse order, restores
the body, and leaves a consistent message after each of the steps. -/
def Faithful (msg : Message) (values : List (Bytes × UInt64)) (slots : List Bytes) : Prop :=
  ∃ final, run stackStep (msg, []) (pushes values ++ slots.map .pull) = some final ∧
    final.2 = (contents values).reverse ∧ final.1.body = msg.body ∧
    Meets stackStep LeavesConsistent (msg, []) (pushes values ++ slots.map .pull)

/-- A body is a faithful stack exactly if its checksum comes out the same however many
of the values are on it. -/
theorem stack_faithful_iff (msg : Message) (values : List (Bytes × UInt64)) (slots : List Bytes)
    (sizes : slots.map List.length = (contents values).reverse.map List.length)
    (small : (msg.body ++ (contents values).flatten).length < 2 ^ 32) :
    Faithful msg values slots ↔ ∀ front, front <+: contents values →
      crc32 (msg.body ++ front.flatten) = crc32 (msg.body ++ (contents values).flatten) := by
  cases values with
  | nil =>
    cases List.map_eq_nil_iff.mp sizes
    constructor
    · intro _ front short
      cases List.prefix_nil.mp short
      rfl
    · exact fun _ => ⟨(msg, []), rfl, rfl, rfl, trivial⟩
  | cons value rest =>
    obtain ⟨after, reached, body, consistent, meets⟩ := run_pushes (value :: rest) small []
    have valid : after.validate = true := (consistent (List.cons_ne_nil _ _)).2
    have hash : crc32 after.body = after.header.hash := of_decide_eq_true valid
    have pulls : Faithful msg (value :: rest) slots ↔
        GivesBack (after, []) slots (contents (value :: rest)).reverse msg.body := by
      constructor
      · intro ⟨final, whole, got, restored, all⟩
        rw [run_append, reached] at whole
        exact ⟨final, whole, got, restored, (meets_append.mp all).2 _ reached⟩
      · intro ⟨final, whole, got, restored, later⟩
        refine ⟨final, ?_, got, restored, meets_append.mpr ⟨meets, fun middle same => ?_⟩⟩
        · rw [run_append, reached]
          exact whole
        · cases reached.symm.trans same
          exact later
    rw [pulls, givesBack_iff valid (by rw [body, List.reverse_reverse]) sizes (body ▸ small), ← hash, body]
    constructor
    · intro same front short
      have shown := same front.reverse (List.reverse_suffix.mpr short)
      rwa [List.reverse_reverse] at shown
    · intro same back suffix
      exact same back.reverse (List.reverse_suffix.mp (by rwa [List.reverse_reverse]))

/-- The first pull of two values leaves the checksum of both, so the second does nothing. -/
theorem second_pull_blocked :
    run stackStep (({} : Message), []) [.push [1] 0, .push [2] 0, .pull [0], .pull [0]] =
        some (⟨⟨0, 1, crc32 [1, 2]⟩, 0, [1]⟩, [[2], [0]]) ∧
      ¬ Faithful {} [([1], 0), ([2], 0)] [[0], [0]] := by
  have reached : run stackStep (({} : Message), []) [.push [1] 0, .push [2] 0, .pull [0], .pull [0]] =
      some (⟨⟨0, 1, crc32 [1, 2]⟩, 0, [1]⟩, [[2], [0]]) := rfl
  refine ⟨reached, fun ⟨final, whole, got, _⟩ => ?_⟩
  cases reached.symm.trans whole
  exact absurd got (by decide)

/-- A value with the checksum of the empty body comes off again as it was. -/
theorem stack_faithful_of_checksum : Faithful {} [([0x9D, 0x0A, 0xD9, 0x6D], 0)] [[0, 0, 0, 0]] := by
  refine (stack_faithful_iff {} [([0x9D, 0x0A, 0xD9, 0x6D], 0)] [[0, 0, 0, 0]] rfl (by decide)).mpr ?_
  intro front short
  rcases List.prefix_cons_iff.mp short with none_ | ⟨rest, one, short⟩
  · rw [none_]
    rfl
  · rw [one, List.prefix_nil.mp short]
    rfl

/-- What a pull into a value of some size may do to a message: nothing, or take as many
bytes off its end. -/
inductive Pulled (msg : Message) (data : Bytes) : Message → Bytes → Prop where
  | popped (front back : Bytes) (header : MessageHeader) (body : msg.body = front ++ back)
      (exact : back.length = data.length) (size : header.size.toNat = front.length)
      (id : header.id = msg.header.id) (hash : header.hash = msg.header.hash) :
      Pulled msg data { msg with header, body := front } back
  | unchanged : Pulled msg data msg data

theorem Pulled.sized {msg after : Message} {data value : Bytes} (pulled : Pulled msg data after value)
    (shorter : after.body.length < msg.body.length) : after.Sized := by
  cases pulled with
  | popped front back header body exact size id hash => exact size
  | unchanged => exact absurd shorter (Nat.lt_irrefl _)

/-- A pull that computes no size below zero, reads no byte outside the body, and does
what a pull may do. -/
structure StaysInside (msg : Message) (data : Bytes) : Prop where
  computed : msg.validate = true → (0 : Int) ≤ msg.body.length - data.length
  outcome : ∃ after value, msg.pull data = some (after, value) ∧ Pulled msg data after value

/-- The checksum is no guard against a body that is too short. -/
theorem staysInside_iff (msg : Message) {data : Bytes} (positive : 0 < data.length) :
    StaysInside msg data ↔ (msg.validate = true →
      data.length ≤ msg.body.length ∧ msg.body.length - data.length < 2 ^ 32) := by
  let front := msg.body.take (msg.body.length - data.length)
  let back := msg.body.drop (msg.body.length - data.length)
  have whole : msg.body = front ++ back := (List.take_append_drop _ _).symm
  have kept : front.length = msg.body.length - data.length := List.length_take_of_le (Nat.sub_le ..)
  have exact (long : data.length ≤ msg.body.length) : data.length = back.length := by
    rw [List.length_drop, Nat.sub_sub_self long]
  constructor
  · intro stays valid
    have long : data.length ≤ msg.body.length := by
      have nonneg := stays.computed valid
      omega
    obtain ⟨after, value, taken, pulled⟩ := stays.outcome
    cases (pull_of_valid valid whole (exact long)).symm.trans taken
    have shorter : (msg.shrunk front).body.length < msg.body.length := by
      change front.length < _
      omega
    have size : (msg.shrunk front).header.size.toNat = front.length := pulled.sized shorter
    exact ⟨long, kept ▸ size ▸ UInt32.toNat_lt _⟩
  · intro inside
    by_cases valid : msg.validate = true
    · have ⟨long, small⟩ := inside valid
      have size : (msg.shrunk front).header.size.toNat = front.length := by
        change (UInt32.ofNat front.length).toNat = _
        rw [UInt32.toNat_ofNat', kept, Nat.mod_eq_of_lt small]
      refine ⟨fun _ => by omega, _, _, pull_of_valid valid whole (exact long), ?_⟩
      exact .popped front back _ whole (exact long).symm size rfl rfl
    · exact ⟨fun absurd_ => absurd absurd_ valid, msg, data, if_neg valid, .unchanged⟩

/-- An empty message has the checksum of its body, and eight bytes are pulled from it. -/
theorem empty_pull_outside : ({} : Message).validate = true ∧
    ({} : Message).pull [0, 0, 0, 0, 0, 0, 0, 0] = none ∧
      ¬ StaysInside {} [0, 0, 0, 0, 0, 0, 0, 0] := by
  refine ⟨rfl, rfl, fun stays => ?_⟩
  exact absurd (stays.computed rfl) (by decide)

/-- A pushed value is pulled from inside the body. -/
theorem pushed_staysInside : StaysInside (({} : Message).push [7, 7] 3) [0, 0] := by
  have positive : 0 < ([0, 0] : Bytes).length := Nat.succ_pos 1
  exact (staysInside_iff (({} : Message).push [7, 7] 3) positive).mpr (fun _ => by decide)

end Wallchanger.Net
