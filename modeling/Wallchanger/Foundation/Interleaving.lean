import Mathlib.Data.List.Basic

/-! Lists run together: every item of both, each once, and those of one list in its order. -/

namespace Wallchanger.Foundation

universe u
variable {α : Type u}

/-- The third list takes, one item at a time, the next one of the first or of the second. -/
inductive Interleaves : List α → List α → List α → Prop where
  | nil : Interleaves [] [] []
  | left (head : α) (rest : Interleaves first second merged) :
      Interleaves (head :: first) second (head :: merged)
  | right (head : α) (rest : Interleaves first second merged) :
      Interleaves first (head :: second) (head :: merged)

namespace Interleaves

theorem nil_left (items : List α) : Interleaves [] items items := by
  induction items with
  | nil => exact .nil
  | cons head rest ih => exact .right head ih

theorem nil_right (items : List α) : Interleaves items [] items := by
  induction items with
  | nil => exact .nil
  | cons head rest ih => exact .left head ih

/-- However the loop chooses between the two heads, it runs the lists together. -/
theorem of_merge (le : α → α → Bool) (first second : List α) :
    Interleaves first second (first.merge second le) := by
  induction first generalizing second with
  | nil => exact List.nil_merge .. ▸ nil_left second
  | cons head rest outer =>
    induction second with
    | nil => exact List.merge_right .. ▸ nil_right (head :: rest)
    | cons other more inner =>
      rw [List.cons_merge_cons]
      split
      · exact .left head (outer (other :: more))
      · exact .right other inner

end Interleaves

end Wallchanger.Foundation
