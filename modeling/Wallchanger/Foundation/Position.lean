import Mathlib.Data.List.Basic
import Wallchanger.Foundation.Keyed

/-! Where an item of a list stands once another is erased or the list is merged. -/

namespace Wallchanger.Foundation

universe u
variable {α : Type u}

/-- The position of an item after the one at `pos` is erased, if it is not that one. -/
def afterErase (pos i : Nat) : Option Nat :=
  if i = pos then none else if pos < i then some (i - 1) else some i

theorem afterErase_of_lt {pos i : Nat} (before : i < pos) : afterErase pos i = some i := by
  rw [afterErase, if_neg (Nat.ne_of_lt before), if_neg (Nat.not_lt.mpr (Nat.le_of_lt before))]

/-- Positions are followed rightly. -/
theorem getElem?_afterErase {pos i j : Nat} (moved : afterErase pos i = some j) (items : List α) :
    (items.eraseIdx pos)[j]? = items[i]? := by
  rw [List.getElem?_eraseIdx]
  unfold afterErase at moved
  split at moved
  · cases moved
  · rename_i other
    split at moved
    · cases moved
      rw [if_neg (by omega)]
      congr 1
      omega
    · cases moved
      rw [if_pos (by omega)]

/-- The first `a` is followed rightly when the first of other items is erased. -/
theorem afterErase_idxOf [DecidableEq α] {names : List α} {a b : α} (other : a ≠ b) (member : a ∈ names) :
    afterErase (names.idxOf b) (names.idxOf a) = some ((names.erase b).idxOf a) := by
  have shifted := idxOf_erase_ne names other
  have apart : names.idxOf a ≠ names.idxOf b := fun same => other ((List.idxOf_inj member).mp same)
  rw [afterErase, if_neg apart]
  split
  · rename_i behind
    rw [if_pos behind] at shifted
    exact congrArg some (by omega)
  · rename_i before
    rw [if_neg before] at shifted
    exact congrArg some shifted.symm

/-- The items of a list with where they are from. -/
def tagged (side : Bool) (items : List α) : List (α × Bool × Nat) :=
  items.zipIdx.map (fun entry => (entry.1, side, entry.2))

/-- The position in the merged list of an item of the first list (`false`) or the second. -/
def mergedPosition (le : α → α → Bool) (first second : List α) (side : Bool) (i : Nat) : Nat :=
  ((tagged false first).merge (tagged true second) (fun left right => le left.1 right.1)).findIdx
    (fun entry => entry.2 == (side, i))

private theorem mem_tagged {side other : Bool} {items : List α} {a : α} {i : Nat} :
    (a, other, i) ∈ tagged side items ↔ other = side ∧ items[i]? = some a := by
  unfold tagged
  constructor
  · intro member
    obtain ⟨entry, inside, same⟩ := List.mem_map.mp member
    cases same
    exact ⟨rfl, List.mem_zipIdx_iff_getElem?.mp inside⟩
  · intro ⟨same, found⟩
    exact List.mem_map.mpr ⟨(a, i), List.mk_mem_zipIdx_iff_getElem?.mpr found, same ▸ rfl⟩

private theorem map_tagged (side : Bool) (items : List α) : (tagged side items).map Prod.fst = items := by
  rw [tagged, List.map_map]
  exact List.zipIdx_map_fst 0 items

/-- So are positions in merged lists: where the item of one side is from tells it apart. -/
theorem getElem?_mergedPosition (le : α → α → Bool) {first second : List α} {side : Bool} {i : Nat} {a : α}
    (found : (if side then second else first)[i]? = some a) :
    (first.merge second le)[mergedPosition le first second side i]? = some a := by
  let both := (tagged false first).merge (tagged true second) (fun left right => le left.1 right.1)
  have plain : both.map Prod.fst = first.merge second le := by
    have fields : both.map Prod.fst =
        ((tagged false first).map Prod.fst).merge ((tagged true second).map Prod.fst) le :=
      List.map_merge (fun left _ right _ => (rfl : le left.1 right.1 = le left.1 right.1))
    rw [fields, map_tagged, map_tagged]
  have member : (a, side, i) ∈ both := by
    refine List.mem_merge.mpr ?_
    cases side with
    | false => exact .inl (mem_tagged.mpr ⟨rfl, found⟩)
    | true => exact .inr (mem_tagged.mpr ⟨rfl, found⟩)
  have inside : both.findIdx (fun entry => entry.2 == (side, i)) < both.length :=
    List.findIdx_lt_length_of_exists ⟨_, member, beq_self_eq_true _⟩
  have tag := List.findIdx_getElem (p := fun entry : α × Bool × Nat => entry.2 == (side, i)) (w := inside)
  have from_ : ∀ entry ∈ both, entry.2 = (side, i) → entry.1 = a := by
    intro entry there origin
    obtain ⟨value, other, j⟩ := entry
    cases origin
    rcases List.mem_merge.mp there with left | right
    · obtain ⟨rfl, here⟩ := mem_tagged.mp left
      exact Option.some.inj (here.symm.trans found)
    · obtain ⟨rfl, here⟩ := mem_tagged.mp right
      exact Option.some.inj (here.symm.trans found)
  change (first.merge second le)[both.findIdx (fun entry => entry.2 == (side, i))]? = some a
  rw [← plain, List.getElem?_map, List.getElem?_eq_getElem inside]
  exact congrArg some (from_ _ (List.getElem_mem inside) (beq_iff_eq.mp tag))

end Wallchanger.Foundation
