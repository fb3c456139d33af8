import Mathlib.Algebra.Group.Nat.Defs
import Mathlib.Data.List.Basic
import Mathlib.Data.List.InsertIdx
import Mathlib.Data.List.Nodup

/-! Lists searched from the front: the position of the first occurrence under
erasing and overwriting, and lists of entries found by their first match. -/

namespace Wallchanger.Foundation

universe u v

section Positions
variable {κ : Type u} [DecidableEq κ]

/-- Erasing the first `b` moves the first `a` one place up exactly when it stood behind. -/
theorem idxOf_erase_ne (names : List κ) {a b : κ} (other : a ≠ b) :
    (names.erase b).idxOf a + (if names.idxOf b < names.idxOf a then 1 else 0) = names.idxOf a := by
  induction names with
  | nil => simp
  | cons head rest ih =>
    by_cases isA : head = a
    · subst head
      rw [List.erase_cons_tail (by simpa using other)]
      simp
    · by_cases isB : head = b
      · subst head
        rw [List.erase_cons_head, List.idxOf_cons_ne _ isA, List.idxOf_cons_self, if_pos (Nat.succ_pos _)]
      · rw [List.erase_cons_tail (by simpa using isB), List.idxOf_cons_ne _ isA,
          List.idxOf_cons_ne _ isA, List.idxOf_cons_ne _ isB]
        simp only [Nat.succ_eq_add_one, Nat.add_lt_add_iff_right]
        omega

theorem idxOf_set_other {names : List κ} {a b : κ} (spot : names[i]? ≠ some a) (other : b ≠ a) :
    (names.set i b).idxOf a = names.idxOf a := by
  induction names generalizing i with
  | nil => rfl
  | cons head rest ih =>
    cases i with
    | zero =>
      have notA : head ≠ a := by simpa using spot
      rw [List.set_cons_zero, List.idxOf_cons_ne _ other, List.idxOf_cons_ne _ notA]
    | succ i =>
      rw [List.set_cons_succ]
      by_cases isA : head = a
      · subst head
        rw [List.idxOf_cons_self, List.idxOf_cons_self]
      · rw [List.idxOf_cons_ne _ isA, List.idxOf_cons_ne _ isA, ih (by simpa using spot)]

/-- Overwriting the first occurrence leaves a further one exactly if erasing it does. -/
theorem mem_set_idxOf_iff {names : List κ} {a b : κ} (member : a ∈ names) (other : a ≠ b) :
    a ∈ names.set (names.idxOf a) b ↔ a ∈ names.erase a := by
  induction names with
  | nil => cases member
  | cons head rest ih =>
    by_cases isA : head = a
    · subst head
      rw [List.idxOf_cons_self, List.set_cons_zero, List.erase_cons_head, List.mem_cons]
      exact ⟨fun either => either.resolve_left other, .inr⟩
    · have later : a ∈ rest := List.mem_of_ne_of_mem (Ne.symm isA) member
      rw [List.idxOf_cons_ne _ isA, List.set_cons_succ, List.erase_cons_tail (by simpa using isA),
        List.mem_cons, List.mem_cons, ih later]

theorem idxOf_set_fresh {names : List κ} {a : κ} (fresh : a ∉ names) (inside : i < names.length) :
    (names.set i a).idxOf a = i := by
  induction names generalizing i with
  | nil => simp at inside
  | cons head rest ih =>
    have ⟨notHead, notRest⟩ : a ≠ head ∧ a ∉ rest := by simpa using fresh
    cases i with
    | zero => rw [List.set_cons_zero, List.idxOf_cons_self]
    | succ i =>
      rw [List.set_cons_succ, List.idxOf_cons_ne _ (Ne.symm notHead), ih notRest (by simpa using inside)]

theorem mem_set_other {names : List κ} {a b : κ} (spot : names[i]? ≠ some a) (other : b ≠ a) :
    a ∈ names.set i b ↔ a ∈ names := by
  rw [← List.idxOf_lt_length_iff, ← List.idxOf_lt_length_iff, idxOf_set_other spot other,
    List.length_set]

end Positions

section Distinct
variable {α : Type u} [DecidableEq α]

/-- Append an item unless an equal one is there already. -/
def insertAbsent (items : List α) (item : α) : List α := if item ∈ items then items else items ++ [item]

theorem nodup_insertAbsent {items : List α} (distinct : items.Nodup) (item : α) :
    (insertAbsent items item).Nodup := by
  unfold insertAbsent
  split
  · exact distinct
  · rename_i fresh
    rw [← List.concat_eq_append]
    exact distinct.concat fresh

theorem mem_insertAbsent {items : List α} {item other : α} :
    other ∈ insertAbsent items item ↔ other ∈ items ∨ other = item := by
  unfold insertAbsent
  split
  · rename_i present
    exact ⟨.inl, fun either => either.elim id (fun same => same ▸ present)⟩
  · simp

theorem nodup_foldl_insertAbsent {start : List α} (distinct : start.Nodup) (items : List α) :
    (items.foldl insertAbsent start).Nodup := by
  induction items generalizing start with
  | nil => exact distinct
  | cons item rest ih => exact ih (nodup_insertAbsent distinct item)

theorem mem_foldl_insertAbsent {start items : List α} {other : α} :
    other ∈ items.foldl insertAbsent start ↔ other ∈ start ∨ other ∈ items := by
  induction items generalizing start with
  | nil => simp
  | cons item rest ih => rw [List.foldl_cons, ih, mem_insertAbsent, List.mem_cons, or_assoc]

theorem foldl_insertAbsent_of_nodup {start items : List α} (distinct : (start ++ items).Nodup) :
    items.foldl insertAbsent start = start ++ items := by
  induction items generalizing start with
  | nil => simp
  | cons item rest ih =>
    have fresh : item ∉ start := fun member =>
      (List.nodup_append.mp distinct).2.2 item member item (by simp) rfl
    rw [List.foldl_cons, insertAbsent, if_neg fresh, ih (by simpa using distinct)]
    simp

/-- Replacing one of several distinct items leaves them distinct exactly if the new
one is not among them, the old one apart. -/
theorem nodup_set_iff {items : List α} {old new : α} {i : Nat} (distinct : items.Nodup)
    (found : items[i]? = some old) : (items.set i new).Nodup ↔ (old ≠ new → new ∉ items) := by
  obtain ⟨inside, here⟩ := List.getElem?_eq_some_iff.mp found
  constructor
  · intro after different member
    obtain ⟨j, there⟩ := List.mem_iff_getElem?.mp member
    have apart : i ≠ j := by
      rintro rfl
      exact different (Option.some.inj (found.symm.trans there))
    have kept : (items.set i new)[j]? = some new := (List.getElem?_set_ne apart).trans there
    have placed : (items.set i new)[i]? = some new := List.getElem?_set_self inside
    have bound : i < (items.set i new).length := by rwa [List.length_set]
    exact apart ((List.getElem?_inj bound after).mp (placed.trans kept.symm))
  · intro fresh
    by_cases same : old = new
    · subst same
      rw [← here, List.set_getElem_self]
      exact distinct
    · exact distinct.set (fresh same)

/-- Rebuilding a list item by item gives it back exactly when nothing repeats. -/
theorem foldl_insertAbsent_eq_iff {items : List α} :
    items.foldl insertAbsent [] = items ↔ items.Nodup :=
  ⟨fun same => same ▸ nodup_foldl_insertAbsent List.nodup_nil items,
    fun distinct => by simpa using @foldl_insertAbsent_of_nodup α _ [] items (by simpa using distinct)⟩

end Distinct

section Entries
variable {α : Type u}

/-- Overwriting one item keeps an order among the items exactly if the new one stands
right to all others. -/
theorem pairwise_set_iff {items : List α} {i : Nat} {ordered : α → α → Prop}
    (inside : i < items.length) (before : items.Pairwise ordered) (new : α) :
    (items.set i new).Pairwise ordered ↔ ∀ j other, items[j]? = some other →
      (j < i → ordered other new) ∧ (i < j → ordered new other) := by
  rw [List.pairwise_iff_getElem] at before ⊢
  constructor
  · intro after j other found
    obtain ⟨bound, rfl⟩ := List.getElem?_eq_some_iff.mp found
    constructor
    · intro less
      have placed := after j i (by simpa using bound) (by simpa using inside) less
      rwa [List.getElem_set_ne (Nat.ne_of_gt less), List.getElem_set_self] at placed
    · intro less
      have placed := after i j (by simpa using inside) (by simpa using bound) less
      rwa [List.getElem_set_ne (Nat.ne_of_lt less), List.getElem_set_self] at placed
  · intro stands j k left right less
    rw [List.length_set] at left right
    rw [List.getElem_set, List.getElem_set]
    split
    · rename_i here
      subst here
      rw [if_neg (Nat.ne_of_lt less)]
      exact (stands k _ (List.getElem?_eq_getElem right)).2 less
    · split
      · rename_i here
        subst here
        exact (stands j _ (List.getElem?_eq_getElem left)).1 less
      · exact before j k left right less

/-- A change that leaves a field of every entry alone. -/
theorem map_modify_same {field : α → β} {change : α → α} (same : ∀ entry, field (change entry) = field entry)
    (entries : List α) (i : Nat) : (entries.modify i change).map field = entries.map field := by
  induction entries generalizing i with
  | nil => simp
  | cons head rest ih =>
    cases i with
    | zero => simp [same]
    | succ i => simpa using ih i

/-- What all entries satisfy once one of them is changed. -/
theorem forall_mem_modify {entries : List α} {holds : α → Prop} {change : α → α} {i : Nat} :
    (∀ entry ∈ entries.modify i change, holds entry) ↔
      (∀ entry, entries[i]? = some entry → holds (change entry)) ∧
        ∀ j entry, j ≠ i → entries[j]? = some entry → holds entry := by
  constructor
  · intro all
    constructor
    · intro entry found
      exact all _ (List.mem_of_getElem? (by rw [List.getElem?_modify_eq, found]; rfl))
    · intro j entry apart found
      exact all _ (List.mem_of_getElem? ((List.getElem?_modify_ne _ _ (Ne.symm apart)).trans found))
  · rintro ⟨changed, others⟩ entry member
    obtain ⟨j, found⟩ := List.mem_iff_getElem?.mp member
    by_cases same : i = j
    · subst same
      rw [List.getElem?_modify_eq] at found
      obtain ⟨before, located, rfl⟩ := Option.map_eq_some_iff.mp found
      exact changed before located
    · rw [List.getElem?_modify_ne _ _ same] at found
      exact others j entry (Ne.symm same) found

/-- A change of an entry changes nothing exactly if it leaves the entry as it is. -/
theorem modify_eq_self_iff {entries : List α} {entry : α} {i : Nat} (found : entries[i]? = some entry)
    (change : α → α) : entries.modify i change = entries ↔ change entry = entry := by
  constructor
  · intro same
    have here := congrArg (·[i]?) same
    simpa [found] using here
  · intro same
    apply List.ext_getElem?
    intro j
    by_cases here : i = j
    · subst here
      rw [List.getElem?_modify_eq, found]
      exact congrArg some same
    · rw [List.getElem?_modify_ne _ _ here]

/-- An entry stays when another is changed, and otherwise it is the changed one. -/
theorem mem_modify_or {entries : List α} {entry : α} (member : entry ∈ entries) (i : Nat)
    (change : α → α) : entry ∈ entries.modify i change ∨
      (entries[i]? = some entry ∧ change entry ∈ entries.modify i change) := by
  obtain ⟨j, found⟩ := List.mem_iff_getElem?.mp member
  by_cases same : i = j
  · subst same
    refine .inr ⟨found, List.mem_iff_getElem?.mpr ⟨i, ?_⟩⟩
    rw [List.getElem?_modify_eq, found]
    rfl
  · exact .inl (List.mem_iff_getElem?.mpr ⟨j, (List.getElem?_modify_ne _ _ same).trans found⟩)

/-- An entry stays when another is erased. -/
theorem mem_eraseIdx_or {entries : List α} {entry : α} (member : entry ∈ entries) (i : Nat) :
    entry ∈ entries.eraseIdx i ∨ entries[i]? = some entry := by
  obtain ⟨j, found⟩ := List.mem_iff_getElem?.mp member
  by_cases same : j = i
  · exact .inr (same ▸ found)
  · exact .inl (List.mem_eraseIdx_iff_getElem?.mpr ⟨j, same, found⟩)

end Entries

section Keyed
variable {κ : Type u} {α : Type v}

/-- The keys of a list of entries, in order. -/
def keys (entries : List (κ × α)) : List κ := entries.map Prod.fst

@[simp] theorem keys_nil : keys ([] : List (κ × α)) = [] := rfl

@[simp] theorem keys_append (front back : List (κ × α)) : keys (front ++ back) = keys front ++ keys back :=
  List.map_append

@[simp] theorem length_keys (entries : List (κ × α)) : (keys entries).length = entries.length :=
  List.length_map _

theorem keys_getElem? (entries : List (κ × α)) (i : Nat) :
    (keys entries)[i]? = entries[i]?.map Prod.fst := List.getElem?_map ..

theorem keys_modify_value (entries : List (κ × α)) (i : Nat) (change : κ × α → κ × α)
    (same : ∀ entry, (change entry).1 = entry.1) : keys (entries.modify i change) = keys entries :=
  map_modify_same same entries i

theorem keys_modify_key (entries : List (κ × α)) (i : Nat) (key : κ) :
    keys (entries.modify i (fun entry => (key, entry.2))) = (keys entries).set i key := by
  induction entries generalizing i with
  | nil => simp
  | cons head rest ih =>
    cases i with
    | zero => simp [keys]
    | succ i => simpa [keys] using ih i

theorem keys_eraseIdx (entries : List (κ × α)) (i : Nat) :
    keys (entries.eraseIdx i) = (keys entries).eraseIdx i := (List.eraseIdx_map ..).symm

theorem mem_keys_of_getElem? {entries : List (κ × α)} {entry : κ × α} {i : Nat}
    (found : entries[i]? = some entry) : entry.1 ∈ keys entries :=
  List.mem_map.mpr ⟨entry, List.mem_of_getElem? found, rfl⟩

theorem key_ne_of_mem {entries : List (κ × α)} {entry : κ × α} {key : κ} (fresh : key ∉ keys entries)
    (member : entry ∈ entries) : entry.1 ≠ key :=
  fun same => fresh (same ▸ List.mem_map.mpr ⟨entry, member, rfl⟩)

variable [DecidableEq κ]

/-- The position of the first entry with a key, the length when there is none. -/
def find (entries : List (κ × α)) (key : κ) : Nat := entries.findIdx (fun entry => entry.1 == key)

theorem find_eq_idxOf (entries : List (κ × α)) (key : κ) :
    find entries key = (keys entries).idxOf key := by
  simp only [find, keys, List.idxOf, List.findIdx_map]
  rfl

/-- Erasing the first match erases the first occurrence of its key. -/
theorem keys_erase_find (entries : List (κ × α)) (key : κ) :
    keys (entries.eraseIdx (find entries key)) = (keys entries).erase key := by
  rw [keys_eraseIdx, find_eq_idxOf, List.eraseIdx_idxOf_eq_erase]

theorem entry_at_find {entries : List (κ × α)} {key : κ} (member : key ∈ keys entries) :
    ∃ value, entries[find entries key]? = some (key, value) := by
  have inside := List.idxOf_lt_length_of_mem member
  rw [length_keys] at inside
  have named : (keys entries)[(keys entries).idxOf key]? = some key := List.getElem?_idxOf member
  rw [keys_getElem?, List.getElem?_eq_getElem inside] at named
  refine ⟨entries[(keys entries).idxOf key].2, ?_⟩
  rw [find_eq_idxOf, List.getElem?_eq_getElem inside]
  have first := Option.some.inj named
  exact congrArg some (Prod.ext first rfl)

theorem key_at_find {entries : List (κ × α)} {key : κ} {entry : κ × α}
    (found : entries[find entries key]? = some entry) : entry.1 = key := by
  obtain ⟨inside, same⟩ := List.getElem?_eq_some_iff.mp found
  have match_ := List.findIdx_getElem (p := fun entry : κ × α => entry.1 == key) (w := inside)
  rw [← same]
  exact beq_iff_eq.mp match_

theorem find_cons (head : κ × α) (rest : List (κ × α)) (key : κ) :
    find (head :: rest) key = if head.1 = key then 0 else find rest key + 1 := by
  rw [find, List.findIdx_cons, Bool.cond_eq_ite]
  simp only [beq_iff_eq]
  rfl

/-- Erasing the first match of one key leaves the first match of another. -/
theorem entry_erase_find (entries : List (κ × α)) {a b : κ} (other : a ≠ b) :
    (entries.eraseIdx (find entries a))[find (entries.eraseIdx (find entries a)) b]? =
      entries[find entries b]? := by
  induction entries with
  | nil => rfl
  | cons head rest ih =>
    by_cases isA : head.1 = a
    · have notB : head.1 ≠ b := fun same => other (isA.symm.trans same)
      rw [find_cons head rest a, if_pos isA, List.eraseIdx_cons_zero, find_cons head rest b,
        if_neg notB, List.getElem?_cons_succ]
    · rw [find_cons head rest a, if_neg isA, List.eraseIdx_cons_succ, find_cons, find_cons]
      by_cases isB : head.1 = b
      · rw [if_pos isB, if_pos isB]
        rfl
      · rw [if_neg isB, if_neg isB, List.getElem?_cons_succ, List.getElem?_cons_succ]
        exact ih

/-- Among distinct keys, erasing the first match of a key takes out all entries with it. -/
theorem eraseIdx_find_of_nodup {entries : List (κ × α)} (distinct : (keys entries).Nodup) (key : κ) :
    entries.eraseIdx (find entries key) = entries.filter (fun entry => entry.1 ≠ key) := by
  induction entries with
  | nil => rfl
  | cons head rest ih =>
    obtain ⟨fresh, distinct⟩ := List.nodup_cons.mp distinct
    by_cases named : head.1 = key
    · subst named
      have others : ∀ entry ∈ rest, decide (entry.1 ≠ head.1) = true :=
        fun entry member => decide_eq_true (key_ne_of_mem fresh member)
      rw [find_cons, if_pos rfl, List.eraseIdx_cons_zero, List.filter_cons_of_neg (by simp),
        List.filter_eq_self.mpr others]
    · rw [find_cons, if_neg named, List.eraseIdx_cons_succ, List.filter_cons_of_pos (by simpa using named),
        ih distinct]

/-- Among distinct keys, changing the first match of a key changes all entries with it. -/
theorem modify_find_of_nodup {entries : List (κ × α)} (distinct : (keys entries).Nodup) (key : κ)
    (change : α → α) : entries.modify (find entries key) (Prod.map id change) =
      entries.map (fun entry => (entry.1, if entry.1 = key then change entry.2 else entry.2)) := by
  induction entries with
  | nil => rfl
  | cons head rest ih =>
    obtain ⟨fresh, distinct⟩ := List.nodup_cons.mp distinct
    by_cases named : head.1 = key
    · subst named
      have others : rest.map (fun entry => (entry.1, if entry.1 = head.1 then change entry.2 else entry.2)) =
          rest := by
        refine (List.map_congr_left (fun entry member => ?_)).trans (List.map_id rest)
        rw [if_neg (key_ne_of_mem fresh member)]
        rfl
      rw [find_cons, if_pos rfl, List.modify_zero_cons, List.map_cons, others, if_pos rfl]
      rfl
    · rw [find_cons, if_neg named, List.modify_succ_cons, ih distinct, List.map_cons, if_neg named]

/-- Among distinct keys, every entry is the one that is found. -/
theorem entry_at_find_of_nodup {entries : List (κ × α)} {entry : κ × α} (distinct : (keys entries).Nodup)
    (member : entry ∈ entries) : entries[find entries entry.1]? = some entry := by
  induction entries with
  | nil => cases member
  | cons head rest ih =>
    obtain ⟨fresh, distinct⟩ := List.nodup_cons.mp distinct
    rcases List.mem_cons.mp member with rfl | later
    · rw [find_cons, if_pos rfl, List.getElem?_cons_zero]
    · rw [find_cons, if_neg (key_ne_of_mem fresh later).symm, List.getElem?_cons_succ, ih distinct later]

end Keyed

end Wallchanger.Foundation
