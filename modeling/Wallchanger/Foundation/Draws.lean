import Mathlib.Data.List.Basic

/-! Draws from a range of integers, and loops that draw until a draw is accepted. -/

namespace Wallchanger.Foundation

universe u v

/-- The inclusive bounds of a range. -/
structure Bounds where
  lower : Int
  upper : Int

namespace Bounds

/-- A distribution over the range can be built. -/
def Valid (bounds : Bounds) : Prop := bounds.lower ≤ bounds.upper

instance (bounds : Bounds) : Decidable bounds.Valid := inferInstanceAs (Decidable (_ ≤ _))

/-- The range has the value. -/
def Gives (bounds : Bounds) (value : Int) : Prop := bounds.lower ≤ value ∧ value ≤ bounds.upper

/-- Draws without end, among which every value of the range keeps occurring. -/
structure Fair (bounds : Bounds) (draws : Nat → Int) : Prop where
  inside : ∀ count, bounds.Gives (draws count)
  recurs : ∀ value, bounds.Gives value → ∀ count, ∃ later, count ≤ later ∧ draws later = value

/-- The values of the range in turn, from one of them on. -/
def cycle (bounds : Bounds) (start : Int) (count : Nat) : Int :=
  bounds.lower + (start - bounds.lower + count) % (bounds.upper - bounds.lower + 1)

theorem cycle_zero {bounds : Bounds} {start : Int} (given : bounds.Gives start) :
    bounds.cycle start 0 = start := by
  have ⟨above, below⟩ := given
  have small : (start - bounds.lower + 0) % (bounds.upper - bounds.lower + 1) = start - bounds.lower :=
    (congrArg (· % (bounds.upper - bounds.lower + 1)) (Int.add_zero _)).trans
      (Int.emod_eq_of_lt (by omega) (by omega))
  have shown : bounds.cycle start 0 =
      bounds.lower + (start - bounds.lower + 0) % (bounds.upper - bounds.lower + 1) := rfl
  rw [shown, small]
  omega

/-- Drawing the values in turn is fair. -/
theorem fair_cycle {bounds : Bounds} {start : Int} (given : bounds.Gives start) :
    bounds.Fair (bounds.cycle start) where
  inside count := by
    have ⟨above, below⟩ := given
    have low := Int.emod_nonneg (start - bounds.lower + count)
      (show bounds.upper - bounds.lower + 1 ≠ 0 by omega)
    have high := Int.emod_lt_of_pos (start - bounds.lower + count)
      (show 0 < bounds.upper - bounds.lower + 1 by omega)
    unfold cycle Gives
    omega
  recurs value listed count := by
    have ⟨above, below⟩ := given
    have ⟨above', below'⟩ := listed
    -- from `count` on, the value comes after the rest of a turn
    have step := Int.emod_nonneg (value - start - count)
      (show bounds.upper - bounds.lower + 1 ≠ 0 by omega)
    refine ⟨count + ((value - start - count) % (bounds.upper - bounds.lower + 1)).toNat,
      Nat.le_add_right .., ?_⟩
    unfold cycle
    rw [Int.natCast_add, Int.toNat_of_nonneg step, ← Int.add_assoc, Int.add_emod_emod,
      show start - bounds.lower + count + (value - start - count) = value - bounds.lower by omega,
      Int.emod_eq_of_lt (by omega) (by omega)]
    omega

end Bounds

/-! ### Drawing until a draw is accepted -/

variable {Draw : Type u} {Result : Type v}

def firstDraws (draws : Nat → Draw) (count : Nat) : List Draw := (List.range count).map draws

/-- What the first of some draws to be accepted gives. -/
def redraw (accept : Draw → Option Result) (draws : List Draw) : Option Result := draws.findSome? accept

/-- An accepted draw is among the draws. -/
theorem accepted_of_redraw {accept : Draw → Option Result} {draws : List Draw} {result : Result}
    (ended : redraw accept draws = some result) : ∃ draw ∈ draws, accept draw = some result :=
  List.exists_of_findSome?_eq_some ended

/-- Draws end at the first of them that is accepted. -/
theorem redraw_eq_some_iff {accept : Draw → Option Result} {draws : List Draw} {result : Result} :
    redraw accept draws = some result ↔ ∃ skipped draw later, draws = skipped ++ draw :: later ∧
      (∀ other ∈ skipped, accept other = none) ∧ accept draw = some result := by
  rw [redraw, List.findSome?_eq_some_iff]
  constructor
  · intro ⟨skipped, draw, later, same, accepted, others⟩
    exact ⟨skipped, draw, later, same, others, accepted⟩
  · intro ⟨skipped, draw, later, same, others, accepted⟩
    exact ⟨skipped, draw, later, same, accepted, others⟩

/-- A sequence whose first draw is accepted ends there. -/
theorem redraw_first {accept : Draw → Option Result} {draws : Nat → Draw} {first other : Result}
    (accepted : accept (draws 0) = some first) {count : Nat}
    (ended : redraw accept (firstDraws draws count) = some other) : other = first := by
  cases count with
  | zero => cases ended
  | succ count =>
    rw [redraw, firstDraws, List.range_succ_eq_map, List.map_cons, List.findSome?_cons, accepted] at ended
    exact (Option.some.inj ended).symm

/-- A fair loop ends exactly if the range has a value that is accepted. -/
theorem Bounds.Fair.redraw_iff {bounds : Bounds} {draws : Nat → Int} (fair : bounds.Fair draws)
    (accept : Int → Option Result) :
    (∃ count result, redraw accept (firstDraws draws count) = some result) ↔
      ∃ value result, bounds.Gives value ∧ accept value = some result := by
  constructor
  · intro ⟨count, result, ended⟩
    obtain ⟨draw, member, accepted⟩ := accepted_of_redraw ended
    obtain ⟨at_, _, same⟩ := List.mem_map.mp member
    exact ⟨draw, result, same ▸ fair.inside at_, accepted⟩
  · intro ⟨value, result, listed, accepted⟩
    obtain ⟨later, _, same⟩ := fair.recurs value listed 0
    have member : value ∈ firstDraws draws (later + 1) :=
      List.mem_map.mpr ⟨later, List.mem_range.mpr (Nat.lt_succ_self later), same⟩
    have some_ : (redraw accept (firstDraws draws (later + 1))).isSome = true :=
      List.findSome?_isSome_iff.mpr ⟨value, member, by rw [accepted]; rfl⟩
    obtain ⟨first, ended⟩ := Option.isSome_iff_exists.mp some_
    exact ⟨later + 1, first, ended⟩

end Wallchanger.Foundation
