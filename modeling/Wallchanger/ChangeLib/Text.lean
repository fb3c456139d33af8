import Mathlib.Algebra.Group.Nat.Defs
import Mathlib.Data.List.Basic

/-! Strings as the program handles them: byte sequences without an encoding, and
views of them that some callees read past their length. -/

namespace Wallchanger

/-- The characters of a `std::string`; a file name may hold any bytes. -/
abbrev Bytes := List UInt8

/-- Strings are compared by the decision procedure the generic lookups use too. -/
instance : BEq Bytes := instBEqOfDecidableEq

/-- A `std::string_view`: the viewed characters and the bytes that follow them in
the buffer. A NUL stands behind `rest`, as reading `data()` as a C string needs. -/
structure StringView where
  chars : Bytes
  rest : Bytes := []
deriving DecidableEq

namespace StringView

/-- What a callee that takes `data()` for a C string reads: up to the first NUL. -/
def data (view : StringView) : Bytes := (view.chars ++ view.rest).takeWhile (· ≠ 0)

/-- A NUL-free view with a NUL right behind it, as a view of an argv string is. -/
def Terminated (view : StringView) : Prop :=
  0 ∉ view.chars ∧ (view.rest = [] ∨ view.rest.head? = some 0)

instance (view : StringView) : Decidable view.Terminated :=
  inferInstanceAs (Decidable (_ ∧ _))

theorem data_of_terminated {view : StringView} (terminated : view.Terminated) :
    view.data = view.chars := by
  have ⟨free, follows⟩ := terminated
  have kept : ∀ byte ∈ view.chars, decide (byte ≠ 0) = true := by
    intro byte member
    exact decide_eq_true (fun same : byte = 0 => free (same ▸ member))
  have stopped : view.rest.takeWhile (fun byte => decide (byte ≠ 0)) = [] := by
    rcases follows with empty | nul
    · rw [empty]
      rfl
    · cases bytes : view.rest with
      | nil => rfl
      | cons byte more =>
        rw [bytes] at nul
        have zero : byte = 0 := Option.some.inj nul
        simp [zero]
  rw [data, List.takeWhile_append_of_pos kept, stopped, List.append_nil]

end StringView

/-- Where a UTF-8 decoder stands between two bytes. -/
inductive Utf8State where
  | accept
  | tail1
  | tail2
  | tail3
  | afterE0
  | afterED
  | afterF0
  | afterF4
deriving DecidableEq

namespace Utf8State

private def within (low high byte : UInt8) (next : Utf8State) : Option Utf8State :=
  if low ≤ byte ∧ byte ≤ high then some next else none

/-- One byte: well-formed sequences only, so no overlong form, no surrogate and
nothing above U+10FFFF. -/
def decode : Utf8State → UInt8 → Option Utf8State
  | .accept, byte =>
    if byte ≤ 0x7F then some .accept
    else if 0xC2 ≤ byte ∧ byte ≤ 0xDF then some .tail1
    else if byte = 0xE0 then some .afterE0
    else if byte = 0xED then some .afterED
    else if 0xE1 ≤ byte ∧ byte ≤ 0xEF then some .tail2
    else if byte = 0xF0 then some .afterF0
    else if 0xF1 ≤ byte ∧ byte ≤ 0xF3 then some .tail3
    else if byte = 0xF4 then some .afterF4
    else none
  | .tail1, byte => within 0x80 0xBF byte .accept
  | .tail2, byte => within 0x80 0xBF byte .tail1
  | .tail3, byte => within 0x80 0xBF byte .tail2
  | .afterE0, byte => within 0xA0 0xBF byte .tail1
  | .afterED, byte => within 0x80 0x9F byte .tail1
  | .afterF0, byte => within 0x90 0xBF byte .tail2
  | .afterF4, byte => within 0x80 0x8F byte .tail2

end Utf8State

/-- Whether a string is valid UTF-8: its last byte completes a character. -/
def validUtf8 (text : Bytes) : Bool := text.foldlM Utf8State.decode .accept == some .accept

example : validUtf8 [0x61, 0xC3, 0xA9] = true ∧ validUtf8 [0x61, 0xFF] = false := by decide

end Wallchanger
