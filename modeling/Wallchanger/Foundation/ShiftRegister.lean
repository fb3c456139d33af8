import Mathlib.Data.List.Basic
import Mathlib.Logic.Function.Basic

/-! Linear feedback shift registers of any width: the lowest bit leaves and brings the
feedback in if it is set. A step is linear over xor, so a word taken in at once does
what its bits do one at a time. -/

namespace Wallchanger.Foundation.ShiftRegister

variable {width : Nat}

section Words

/-- A bit in the lowest place. -/
def ofBit (bit : Bool) : BitVec width := (BitVec.ofBool bit).setWidth width

/-- A list of bits from the lowest place upwards. -/
def word : List Bool → BitVec width
  | [] => 0
  | bit :: rest => ofBit bit ^^^ (word rest <<< 1)

theorem getLsbD_ofBit (bit : Bool) (place : Nat) :
    (ofBit bit : BitVec width).getLsbD place = (decide (place < width) && decide (place = 0) && bit) := by
  cases place <;> simp [ofBit, BitVec.getLsbD_setWidth]

theorem getLsbD_word (bits : List Bool) (place : Nat) :
    (word bits : BitVec width).getLsbD place = (decide (place < width) && bits.getD place false) := by
  induction bits generalizing place with
  | nil => simp [word]
  | cons bit rest ih =>
    cases place with
    | zero => simp [word, getLsbD_ofBit, BitVec.getLsbD_shiftLeft]
    | succ place =>
      simp only [word, BitVec.getLsbD_xor, getLsbD_ofBit, BitVec.getLsbD_shiftLeft, ih]
      by_cases inside : place + 1 < width
      · have lower : place < width := Nat.lt_of_succ_lt inside
        simp [inside, lower]
      · simp [inside]

/-- A word of at most the register's width keeps its bits. -/
theorem word_inj {bits other : List Bool} (same : bits.length = other.length)
    (fits : bits.length ≤ width) (equal : (word bits : BitVec width) = word other) : bits = other := by
  apply List.ext_getElem same
  intro place inside insideOther
  have atPlace := congrArg (BitVec.getLsbD · place) equal
  have lower : place < width := Nat.lt_of_lt_of_le inside fits
  simpa only [getLsbD_word, lower, decide_true, Bool.true_and, List.getD_eq_getElem?_getD,
    List.getElem?_eq_getElem inside, List.getElem?_eq_getElem insideOther, Option.getD_some] using atPlace

end Words

variable (feedback : BitVec width)

/-- One step without input. -/
def shift (register : BitVec width) : BitVec width :=
  (register >>> 1) ^^^ (if register.getLsbD 0 then feedback else 0)

/-- One step that takes a bit in. -/
def feed (register : BitVec width) (bit : Bool) : BitVec width := shift feedback (register ^^^ ofBit bit)

def shifts : Nat → BitVec width → BitVec width
  | 0, register => register
  | count + 1, register => shifts count (shift feedback register)

def feeds (register : BitVec width) (bits : List Bool) : BitVec width := bits.foldl (feed feedback) register

theorem shift_xor (register other : BitVec width) :
    shift feedback (register ^^^ other) = shift feedback register ^^^ shift feedback other := by
  apply BitVec.eq_of_getLsbD_eq
  intro place _
  simp only [shift, BitVec.ushiftRight_xor_distrib, BitVec.getLsbD_xor]
  cases register.getLsbD 0 <;> cases other.getLsbD 0 <;> simp <;>
    cases feedback.getLsbD place <;> simp

theorem shifts_xor (count : Nat) (register other : BitVec width) :
    shifts feedback count (register ^^^ other) =
      shifts feedback count register ^^^ shifts feedback count other := by
  induction count generalizing register other with
  | zero => rfl
  | succ count ih => simp only [shifts, shift_xor, ih]

/-- Nothing is fed back while zeros leave. -/
theorem shifts_of_low_clear {count : Nat} {register : BitVec width}
    (clear : ∀ place < count, register.getLsbD place = false) :
    shifts feedback count register = register >>> count := by
  induction count generalizing register with
  | zero => simp [shifts]
  | succ count ih =>
    have step : shift feedback register = register >>> 1 := by simp [shift, clear 0]
    have rest : ∀ place < count, (register >>> 1).getLsbD place = false := by
      intro place below
      rw [BitVec.getLsbD_ushiftRight, Nat.add_comm]
      exact clear (place + 1) (Nat.succ_lt_succ below)
    rw [shifts, step, ih rest, ← BitVec.shiftRight_add, Nat.add_comm]

/-- The steps of a register are those of its low bits, beside its high bits moved down:
what a table of the low bits' steps is good for. -/
theorem shifts_eq_low_xor (count : Nat) (register low : BitVec width)
    (agrees : ∀ place < count, low.getLsbD place = register.getLsbD place)
    (short : low >>> count = 0) :
    shifts feedback count register = shifts feedback count low ^^^ (register >>> count) := by
  have clear : ∀ place < count, (low ^^^ register).getLsbD place = false := by
    intro place below
    simp [agrees place below]
  have high := shifts_of_low_clear feedback clear
  rw [shifts_xor, BitVec.ushiftRight_xor_distrib, short] at high
  have moved : shifts feedback count low ^^^ shifts feedback count register = register >>> count :=
    high.trans BitVec.zero_xor
  rw [← moved, ← BitVec.xor_assoc, BitVec.xor_self, BitVec.zero_xor]

/-- A word one place up, with room above it, is what the next step leaves. -/
theorem shift_word {bits : List Bool} (room : bits.length < width) :
    shift feedback (word bits <<< 1) = word bits := by
  have low : (word bits <<< 1 : BitVec width).getLsbD 0 = false := by simp [BitVec.getLsbD_shiftLeft]
  rw [shift, low]
  apply BitVec.eq_of_getLsbD_eq
  intro place inside
  have back : 1 + place - 1 = place := Nat.add_sub_cancel_left 1 place
  simp only [Bool.false_eq_true, ↓reduceIte, BitVec.getLsbD_xor, BitVec.getLsbD_ushiftRight,
    BitVec.getLsbD_shiftLeft, getLsbD_word, back]
  by_cases last : 1 + place < width
  · simp [last, inside]
  · have beyond : bits.length ≤ place := by omega
    simp [last, List.getElem?_eq_none beyond]

/-- A word taken in at once, and as many steps, do what its bits do one at a time. -/
theorem feeds_eq_shifts {bits : List Bool} (fits : bits.length ≤ width) (register : BitVec width) :
    feeds feedback register bits = shifts feedback bits.length (register ^^^ word bits) := by
  induction bits generalizing register with
  | nil => simp [feeds, shifts, word]
  | cons bit rest ih =>
    have shorter : rest.length ≤ width := Nat.le_of_succ_le fits
    change feeds feedback (feed feedback register bit) rest = _
    rw [ih shorter, feed, word, List.length_cons, shifts, ← BitVec.xor_assoc, shift_xor feedback (_ ^^^ _),
      shift_word feedback fits]

theorem feeds_append (register : BitVec width) (bits more : List Bool) :
    feeds feedback register (bits ++ more) = feeds feedback (feeds feedback register bits) more :=
  List.foldl_append

section Wider

variable {wider : Nat} (wide : width ≤ wider)
include wide

/-- A wider register with the same feedback takes the same steps. -/
theorem shift_setWidth (register : BitVec width) :
    shift (feedback.setWidth wider) (register.setWidth wider) =
      (shift feedback register).setWidth wider := by
  simp only [shift, BitVec.setWidth_xor, BitVec.setWidth_ushiftRight wide, BitVec.getLsbD_setWidth]
  by_cases empty : wider = 0
  · subst empty
    exact Subsingleton.elim _ _
  · have inside : 0 < wider := Nat.pos_of_ne_zero empty
    simp only [inside, decide_true, Bool.true_and]
    split <;> simp

theorem feed_setWidth (positive : 0 < width) (register : BitVec width) (bit : Bool) :
    feed (feedback.setWidth wider) (register.setWidth wider) bit =
      (feed feedback register bit).setWidth wider := by
  have input : (ofBit bit : BitVec width).setWidth wider = ofBit bit := by
    apply BitVec.eq_of_getLsbD_eq
    intro place inside
    cases place with
    | zero => simp only [BitVec.getLsbD_setWidth, getLsbD_ofBit, inside, positive, decide_true, Bool.true_and]
    | succ place => simp [BitVec.getLsbD_setWidth, getLsbD_ofBit]
  rw [feed, feed, ← input, ← BitVec.setWidth_xor, shift_setWidth feedback wide]

theorem feeds_setWidth (positive : 0 < width) (register : BitVec width) (bits : List Bool) :
    feeds (feedback.setWidth wider) (register.setWidth wider) bits =
      (feeds feedback register bits).setWidth wider := by
  induction bits generalizing register with
  | nil => rfl
  | cons bit rest ih =>
    calc feeds (feedback.setWidth wider) (register.setWidth wider) (bit :: rest)
      _ = feeds (feedback.setWidth wider) ((feed feedback register bit).setWidth wider) rest :=
        congrArg (feeds _ · rest) (feed_setWidth feedback wide positive register bit)
      _ = (feeds feedback register (bit :: rest)).setWidth wider := ih _

end Wider

section Bursts

variable {feedback}

/-- The feedback's highest bit tells whether it came in, so no step clears a register. -/
theorem eq_zero_of_shift (tapped : feedback.getLsbD (width - 1) = true) {register : BitVec width}
    (cleared : shift feedback register = 0) : register = 0 := by
  have low : register.getLsbD 0 = false := by
    apply Bool.eq_false_iff.mpr
    intro set
    have top := congrArg (BitVec.getLsbD · (width - 1)) cleared
    have beyond : register.getLsbD (1 + (width - 1)) = false := BitVec.getLsbD_of_ge _ _ (by omega)
    simp [shift, set, tapped, beyond] at top
  have high : register >>> 1 = 0 := by simpa [shift, low] using cleared
  apply BitVec.eq_of_getLsbD_eq
  intro place _
  cases place with
  | zero => simpa using low
  | succ place =>
    have atPlace := congrArg (BitVec.getLsbD · place) high
    simpa [BitVec.getLsbD_ushiftRight, Nat.add_comm] using atPlace

theorem shift_injective (tapped : feedback.getLsbD (width - 1) = true) :
    Function.Injective (shift feedback) := by
  intro register other same
  have cleared : shift feedback (register ^^^ other) = 0 := by
    rw [shift_xor, same]
    exact BitVec.xor_self
  exact BitVec.xor_eq_zero_iff.mp (eq_zero_of_shift tapped cleared)

theorem shifts_injective (tapped : feedback.getLsbD (width - 1) = true) (count : Nat) :
    Function.Injective (shifts feedback count) := by
  induction count with
  | zero => exact Function.injective_id
  | succ count ih => exact ih.comp (shift_injective tapped)

theorem feeds_injective (tapped : feedback.getLsbD (width - 1) = true) (bits : List Bool) :
    Function.Injective (feeds feedback · bits) := by
  induction bits with
  | nil => exact Function.injective_id
  | cons bit rest ih =>
    intro register other same
    have stepped := shift_injective tapped (ih same)
    exact (BitVec.xor_left_inj _).mp stepped

/-- What an input no longer than the register leaves there tells the input. -/
theorem eq_of_feeds_eq (tapped : feedback.getLsbD (width - 1) = true) {bits other : List Bool}
    (same : bits.length = other.length) (fits : bits.length ≤ width) {register : BitVec width}
    (equal : feeds feedback register bits = feeds feedback register other) : bits = other := by
  have fitsOther : other.length ≤ width := le_of_eq_of_le same.symm fits
  rw [feeds_eq_shifts feedback fits, feeds_eq_shifts feedback fitsOther, same] at equal
  have words := (BitVec.xor_right_inj _).mp (shifts_injective tapped _ equal)
  exact word_inj same fits words

/-- Two inputs of one length that differ within as many bits as the register has leave it
differently. -/
theorem feeds_ne_of_burst (tapped : feedback.getLsbD (width - 1) = true) {bits other : List Bool}
    (same : bits.length = other.length) (differ : bits ≠ other) {start : Nat}
    (burst : ∀ place, bits[place]? ≠ other[place]? → start ≤ place ∧ place < start + width)
    (register : BitVec width) : feeds feedback register bits ≠ feeds feedback register other := by
  have before : bits.take start = other.take start := by
    apply List.ext_getElem?
    intro place
    rw [List.getElem?_take, List.getElem?_take]
    split
    · exact Classical.byContradiction (fun apart => by have := burst place apart; omega)
    · rfl
  have after : bits.drop (start + width) = other.drop (start + width) := by
    apply List.ext_getElem?
    intro place
    rw [List.getElem?_drop, List.getElem?_drop]
    exact Classical.byContradiction (fun apart => by have := burst _ apart; omega)
  have parts (input : List Bool) :
      input = input.take start ++ ((input.drop start).take width ++ input.drop (start + width)) := by
    rw [← List.drop_drop, List.take_append_drop, List.take_append_drop]
  intro equal
  rw [parts bits, parts other, before, after, feeds_append, feeds_append, feeds_append, feeds_append] at equal
  have middle := feeds_injective tapped _ equal
  have within := eq_of_feeds_eq tapped (by simp [same]) (List.length_take_le _ _) middle
  exact differ ((parts bits).trans (by rw [before, within, after, ← parts other]))

end Bursts

end Wallchanger.Foundation.ShiftRegister
