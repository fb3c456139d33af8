import Wallchanger.ChangeLib.ItemInvariant
import Wallchanger.ChangeLib.ItemOrder

/-! `std::ranges::merge` takes two sorted ranges. Which calls leave the collections in
order, so that `merge_cache` gives it such. -/

namespace Wallchanger

open Foundation

theorem sorted_concat_iff {items : List (CacheItem Bytes)} (sorted : Sorted items) (item : CacheItem Bytes) :
    Sorted (items ++ [item]) ↔ ∀ other ∈ items, item.less other = false := by
  constructor
  · intro after other member
    exact (List.pairwise_append.mp after).2.2 other member item (List.mem_singleton.mpr rfl)
  · intro behind
    refine List.pairwise_append.mpr ⟨sorted, List.pairwise_singleton _ _, fun other member last single => ?_⟩
    rw [List.mem_singleton.mp single]
    exact behind other member

/-- The items are in order. A new wallpaper or a moved item has to come behind all others,
and an item of another state where it stands. -/
def ItemRule.sortedItems : ItemRule where
  holds cache := Sorted cache.list
  accepts cache value loc := value ∉ cache.values →
    ∀ other ∈ cache.list, CacheItem.less { cacheValue := value, cacheState := .unused, loc } other = false
  apart _ _ := True
  admits cache item := item ∉ cache.list → ∀ other ∈ cache.list, item.less other = false
  allows cache idx state := ∀ item, cache.list[idx]? = some item → ∀ j other, cache.list[j]? = some other →
    (j < idx → CacheItem.less { item with cacheState := state } other = false) ∧
      (idx < j → other.less { item with cacheState := state } = false)
  start := List.Pairwise.nil
  begin sorted := sorted
  insert {cache value loc} sorted := by
    by_cases present : value ∈ cache.values
    · rw [Cache.insert_present present]
      exact ⟨fun _ fresh => absurd present fresh, fun _ => sorted⟩
    · rw [Cache.insert_absent present]
      refine (sorted_concat_iff sorted _).trans ?_
      exact ⟨fun behind _ => behind, fun behind => behind present⟩
  erase sorted := List.Pairwise.sublist (List.eraseIdx_sublist _ _) sorted
  merge left right := ⟨fun _ => trivial, fun _ => sorted_rangesMerge left right⟩
  insertElem {cache item} sorted := by
    rw [Cache.insertElem_list, insertAbsent]
    by_cases present : item ∈ cache.list
    · rw [if_pos present]
      exact ⟨fun _ fresh => absurd present fresh, fun _ => sorted⟩
    · rw [if_neg present]
      refine (sorted_concat_iff sorted item).trans ?_
      exact ⟨fun behind _ => behind, fun behind => behind present⟩
  setState {cache idx state} sorted inside := by
    have found := List.getElem?_eq_getElem inside
    have written : (cache.setState idx state).list =
        cache.list.set idx { cache.list[idx] with cacheState := state } :=
      List.modify_eq_set_get _ inside
    rw [written]
    refine (pairwise_set_iff inside sorted _).trans ?_
    constructor
    · intro stands item same
      cases Option.some.inj (found.symm.trans same)
      exact stands
    · intro stands
      exact stands _ found

namespace CacheLib

/-- Whenever `merge_cache` gets to `std::ranges::merge`, both of its ranges are sorted. -/
def MergesSorted (lib : CacheLib) : Prop :=
  ∀ col1 col2 first second, lib.Mergeable col1 col2 → lib.Collection col1.chars first →
    lib.Collection col2.chars second → Sorted first.list ∧ Sorted second.list

/-- Every collection is in order, or there is nothing to merge it with. -/
def InOrder (lib : CacheLib) : Prop := lib.cacheVec.length ≤ 1 ∨ lib.Everywhere ItemRule.sortedItems

/-- The condition on a step: it leaves all collections in order, or a single one. -/
def KeepsInOrder (lib : CacheLib) : LibOp → Prop
  | .insert name value => name ∉ lib.names → lib.cacheVec = [] ∨
      (lib.Everywhere ItemRule.sortedItems ∧ Sorted value.list)
  | op => lib.cacheVec.length ≤ 1 ∨ lib.Keeps ItemRule.sortedItems op

theorem mergesSorted_of_inOrder {lib : CacheLib} (inOrder : lib.InOrder) : lib.MergesSorted := by
  intro col1 col2 first second mergeable found1 found2
  rcases inOrder with short | every
  · have apart := found1.apart mergeable.1
    have inside1 := (List.getElem?_eq_some_iff.mp found1).1
    have inside2 := (List.getElem?_eq_some_iff.mp found2).1
    omega
  · exact ⟨every _ found1.mem, every _ found2.mem⟩

/-- Among several collections with distinct names, each can be merged with another. -/
private theorem exists_other {lib : CacheLib} (distinct : lib.NamesDistinct)
    (several : ¬ lib.cacheVec.length ≤ 1) (store : CacheStore) :
    ∃ other ∈ lib.cacheVec, store.1 ≠ other.1 := by
  unfold NamesDistinct names at distinct
  cases entries : lib.cacheVec with
  | nil => simp [entries] at several
  | cons first rest =>
    cases rest with
    | nil => simp [entries] at several
    | cons second more =>
      rw [entries] at distinct
      have different : first.1 ≠ second.1 := by
        intro same
        exact (List.nodup_cons.mp distinct).1 (same ▸ List.mem_cons_self)
      by_cases here : store.1 = first.1
      · exact ⟨second, by simp, here ▸ different⟩
      · exact ⟨first, by simp, here⟩

theorem inOrder_of_mergesSorted {lib : CacheLib} (distinct : lib.NamesDistinct)
    (sorted : lib.MergesSorted) : lib.InOrder := by
  by_cases several : lib.cacheVec.length ≤ 1
  · exact .inl several
  · refine .inr (fun store member => ?_)
    obtain ⟨other, there, different⟩ := exists_other distinct several store
    have found1 : lib.Collection (StringView.chars ⟨store.1, []⟩) store.2 :=
      collection_of_distinct distinct member
    have found2 : lib.Collection (StringView.chars ⟨other.1, []⟩) other.2 :=
      collection_of_distinct distinct there
    have mergeable : lib.Mergeable ⟨store.1, []⟩ ⟨other.1, []⟩ := ⟨different, found1.listed, found2.listed⟩
    exact (sorted _ _ _ _ mergeable found1 found2).1

/-! ### Steps and runs -/

theorem length_of_kept {lib next : CacheLib} {op : LibOp} (kept : op.change = .keep)
    (taken : lib.step op = some next) : next.cacheVec.length = lib.cacheVec.length := by
  have same : next.directory = lib.directory := by
    rw [directory_step taken, kept]
    rfl
  have names : next.names = lib.names := congrArg Directory.names same
  rw [← length_keys, ← length_keys]
  exact congrArg List.length names

/-- Only `insert` adds a collection. -/
theorem length_step_le {lib next : CacheLib} {op : LibOp} (other : ∀ name value, op ≠ .insert name value)
    (taken : lib.step op = some next) : next.cacheVec.length ≤ lib.cacheVec.length := by
  have kind : ∀ name, op.change ≠ .append name := by
    intro name appends
    cases op with
    | insert name value => exact other name value rfl
    | _ => cases appends
  have bound := Directory.length_apply_le lib.directory kind
  rw [← directory_step taken] at bound
  rw [← length_keys, ← length_keys]
  exact bound

/-- A call that adds no collection, from collections in order. -/
private theorem inOrder_of_keeps {lib next : CacheLib} {op : LibOp}
    (other : ∀ name value, op ≠ .insert name value) (inOrder : lib.InOrder)
    (keeps : lib.cacheVec.length ≤ 1 ∨ lib.Keeps ItemRule.sortedItems op)
    (taken : lib.step op = some next) : next.InOrder := by
  have bound := length_step_le other taken
  rcases inOrder with short | every
  · exact .inl (Nat.le_trans bound short)
  · rcases keeps with short | keeps
    · exact .inl (Nat.le_trans bound short)
    · exact .inr ((everywhere_step_iff every taken).mpr keeps)

/-- A call that leaves the names alone has to keep the order of several collections. -/
private theorem keeps_of_inOrder {lib next : CacheLib} {op : LibOp} (kept : op.change = .keep)
    (inOrder : lib.InOrder) (after : next.InOrder) (taken : lib.step op = some next) :
    lib.cacheVec.length ≤ 1 ∨ lib.Keeps ItemRule.sortedItems op := by
  have length := length_of_kept kept taken
  rcases inOrder with short | every
  · exact .inl short
  · rcases after with short | after
    · exact .inl (length ▸ short)
    · exact .inr ((everywhere_step_iff every taken).mp after)

private theorem inOrder_insert_iff {lib : CacheLib} {name : Bytes} {value : Cache Bytes}
    (inOrder : lib.InOrder) :
    (lib.insert name value).1.InOrder ↔ lib.KeepsInOrder (.insert name value) := by
  rw [insert_eq]
  by_cases listed : name ∈ lib.names
  · rw [if_pos listed]
    exact ⟨fun _ fresh => absurd listed fresh, fun _ => inOrder⟩
  · rw [if_neg listed]
    constructor
    · intro after _
      rcases after with short | every
      · have empty : lib.cacheVec.length = 0 := by simpa using short
        exact .inl (List.eq_nil_of_length_eq_zero empty)
      · refine .inr ⟨fun store member => every store (List.mem_append_left _ member), ?_⟩
        exact every (name, value) (List.mem_append_right _ (List.mem_singleton.mpr rfl))
    · intro keeps
      rcases keeps listed with empty | ⟨every, sorted⟩
      · exact .inl (by simp [empty])
      · refine .inr (fun store member => ?_)
        rcases List.mem_append.mp member with old | new
        · exact every store old
        · rw [List.mem_singleton.mp new]
          exact sorted

/-- One step, whatever its arguments. -/
theorem inOrder_step_iff {lib next : CacheLib} {op : LibOp} (inOrder : lib.InOrder)
    (taken : lib.step op = some next) : next.InOrder ↔ lib.KeepsInOrder op := by
  obtain ⟨result, performed⟩ := step_eq_some.mp taken
  cases op with
  | insert name value =>
    have same : (lib.insert name value).1 = next := next_of_performed performed
    exact same ▸ inOrder_insert_iff inOrder
  | changeActive _ | renameStore _ _ | remove _ | removeCacheItem _ _ =>
    exact ⟨fun _ => .inr trivial, fun keeps => inOrder_of_keeps (by simp) inOrder keeps taken⟩
  | mergeCache col1 col2 =>
    refine ⟨fun _ => .inr (fun _ _ _ _ _ => trivial), fun keeps => ?_⟩
    exact inOrder_of_keeps (by simp) inOrder keeps taken
  | moveCacheItem _ _ _ | insertItem _ _ _ | setState _ _ _ =>
    exact ⟨fun after => keeps_of_inOrder rfl inOrder after taken,
      fun keeps => inOrder_of_keeps (by simp) inOrder keeps taken⟩

end CacheLib

end Wallchanger
