import Wallchanger.ChangeLib.WallCacheLibrary
import Wallchanger.Foundation.Interleaving

/-! The order of a collection's items: `operator<=>` is a strict total order, and the
merging loop keeps lists in that order. -/

namespace Wallchanger

open Foundation

universe u

namespace CacheItem
variable {Value : Type u} [DecidableEq Value] [LT Value] [DecidableLT Value]

theorem less_iff (left right : CacheItem Value) :
    left.less right = true ↔ left.cacheValue < right.cacheValue ∨
      (left.cacheValue = right.cacheValue ∧ (left.cacheState.code < right.cacheState.code ∨
        (left.cacheState = right.cacheState ∧ left.loc < right.loc))) := by
  simp [less]

variable [LE Value] [Std.IsLinearOrder Value] [Std.LawfulOrderLT Value]

theorem less_trans {a b c : CacheItem Value} (first : a.less b = true) (second : b.less c = true) :
    a.less c = true := by
  rw [less_iff] at first second ⊢
  rcases first with value | ⟨value, first⟩
  · rcases second with value' | ⟨value', _⟩
    · exact .inl (Std.lt_trans value value')
    · exact .inl (value' ▸ value)
  · rcases second with value' | ⟨value', second⟩
    · exact .inl (value ▸ value')
    · refine .inr ⟨value.trans value', ?_⟩
      rcases first with code | ⟨state, loc⟩
      · rcases second with code' | ⟨state', _⟩
        · exact .inl (UInt8.lt_trans code code')
        · exact .inl (state' ▸ code)
      · rcases second with code' | ⟨state', loc'⟩
        · exact .inl (state ▸ code')
        · exact .inr ⟨state.trans state', UInt32.lt_trans loc loc'⟩

omit [Std.IsLinearOrder Value] in
theorem less_irrefl (item : CacheItem Value) : item.less item = false := by
  rw [← Bool.not_eq_true, less_iff]
  intro less
  rcases less with value | ⟨_, code | ⟨_, loc⟩⟩
  · exact Std.lt_irrefl value
  · exact UInt8.lt_irrefl _ code
  · exact UInt32.lt_irrefl _ loc

/-- Of two different items one comes before the other. -/
theorem less_or_eq_or_less (left right : CacheItem Value) :
    left.less right = true ∨ left = right ∨ right.less left = true := by
  simp only [less_iff]
  rcases Std.lt_trichotomy left.cacheValue right.cacheValue with value | value | value
  · exact .inl (.inl value)
  · rcases Std.lt_trichotomy left.cacheState.code right.cacheState.code with code | code | code
    · exact .inl (.inr ⟨value, .inl code⟩)
    · have state := CacheState.code_inj code
      rcases Std.lt_trichotomy left.loc right.loc with loc | loc | loc
      · exact .inl (.inr ⟨value, .inr ⟨state, loc⟩⟩)
      · cases left
        cases right
        exact .inr (.inl (CacheItem.mk.injEq .. ▸ ⟨value, state, loc⟩))
      · exact .inr (.inr (.inr ⟨value.symm, .inr ⟨state.symm, loc⟩⟩))
    · exact .inr (.inr (.inr ⟨value.symm, .inl code⟩))
  · exact .inr (.inr (.inl value))

theorem less_asymm {a b : CacheItem Value} (less : a.less b = true) : b.less a = false := by
  rw [← Bool.not_eq_true]
  intro back
  exact absurd (less_trans less back) (Bool.eq_false_iff.mp a.less_irrefl)

/-- Not coming after composes, as the order is total. -/
theorem not_less_trans {a b c : CacheItem Value} (first : b.less a = false) (second : c.less b = false) :
    c.less a = false := by
  rw [← Bool.not_eq_true] at first second ⊢
  intro back
  rcases less_or_eq_or_less a b with less | same | less
  · exact second (less_trans back less)
  · exact second (same ▸ back)
  · exact first less

end CacheItem

/-- No item comes before an earlier one: `std::ranges::is_sorted`. -/
def Sorted (items : List (CacheItem Bytes)) : Prop :=
  items.Pairwise (fun earlier later => later.less earlier = false)

instance (items : List (CacheItem Bytes)) : Decidable (Sorted items) :=
  inferInstanceAs (Decidable (List.Pairwise _ _))

theorem sorted_iff (items : List (CacheItem Bytes)) :
    Sorted items ↔ items.Pairwise (fun left right => (!right.less left) = true) := by
  simp only [Sorted, Bool.not_eq_true']

/-- The merging loop runs the two lists together. -/
theorem interleaves_rangesMerge (first second : List (CacheItem Bytes)) :
    Interleaves first second (rangesMerge first second) := .of_merge _ first second

/-- Of two sorted lists the loop makes a sorted one. -/
theorem sorted_rangesMerge {first second : List (CacheItem Bytes)} (left : Sorted first)
    (right : Sorted second) : Sorted (rangesMerge first second) := by
  rw [sorted_iff] at left right ⊢
  refine List.pairwise_merge ?_ ?_ first second left right
  · intro a b c before after
    simp only [Bool.not_eq_true'] at before after ⊢
    exact CacheItem.not_less_trans before after
  · intro a b
    rcases CacheItem.less_or_eq_or_less a b with less | same | less
    · simp [CacheItem.less_asymm less]
    · simp [same, CacheItem.less_irrefl]
    · simp [CacheItem.less_asymm less]

end Wallchanger
