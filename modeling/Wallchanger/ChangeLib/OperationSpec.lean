import Wallchanger.ChangeLib.ItemOrder
import Wallchanger.ChangeLib.LibraryFile
import Wallchanger.ChangeLib.LibraryStep

/-! What single operations of the library do to it, with all that they leave alone. -/

namespace Wallchanger

open Foundation

namespace CacheLib

/-! ### Failures -/

/-- The names, their order, the items, the active name and its index, so all but the flags. -/
def SameData (next lib : CacheLib) : Prop :=
  next.collections = lib.collections ∧ next.activeName = lib.activeName ∧ next.current = lib.current

theorem SameData.refl (lib : CacheLib) : lib.SameData lib := ⟨rfl, rfl, rfl⟩

theorem SameData.trans {lib next last : CacheLib} (later : last.SameData next) (first : next.SameData lib) :
    last.SameData lib :=
  ⟨later.1.trans first.1, later.2.1.trans first.2.1, later.2.2.trans first.2.2⟩

theorem sameData_modify (lib : CacheLib) (i : Nat) {change : Cache Bytes → Cache Bytes}
    (same : ∀ cache, (change cache).list = cache.list) :
    { lib with cacheVec := lib.cacheVec.modify i (Prod.map id change) }.SameData lib := by
  refine ⟨map_modify_same (fun store => ?_) lib.cacheVec i, rfl, rfl⟩
  exact congrArg (Prod.mk store.1) (same store.2)

theorem sameData_updateAt (lib : CacheLib) (name : Bytes) {change : Cache Bytes → Cache Bytes}
    (same : ∀ cache, (change cache).list = cache.list) : (lib.updateAt name change).SameData lib :=
  lib.sameData_modify (find lib.cacheVec name) same

/-- A mutable iterator leaves the library as it was exactly if the flag it sets is set. -/
theorem modify_begin_eq_iff {lib : CacheLib} {i : Nat} {store : CacheStore}
    (found : lib.cacheVec[i]? = some store) :
    { lib with cacheVec := lib.cacheVec.modify i (Prod.map id Cache.begin) } = lib ↔
      store.2.modified = true := by
  have entry : Prod.map id Cache.begin store = store ↔ store.2.modified = true := by
    obtain ⟨name, list, modified⟩ := store
    simp [Cache.begin, eq_comm]
  rw [← entry, ← modify_eq_self_iff found]
  exact ⟨congrArg cacheVec, fun same => congrArg (fun entries => { lib with cacheVec := entries }) same⟩

theorem changeActive_of_error {lib next : CacheLib} {newActive : StringView}
    (failed : lib.changeActive newActive = (next, .error error)) : next = lib := by
  unfold changeActive at failed
  split at failed
  · dsimp only at failed
    split at failed
    · cases failed
    · cases failed
  · exact (congrArg Prod.fst failed).symm

theorem renameStore_of_error {lib next : CacheLib} {fromName toName : StringView}
    (failed : lib.renameStore fromName toName = (next, .error error)) : next = lib := by
  rw [renameStore_eq] at failed
  split at failed
  · exact (congrArg Prod.fst failed).symm
  · split at failed
    · cases failed
    · exact (congrArg Prod.fst failed).symm

/-- Only a miss in `remove_cache_item` comes after a change, and that is to a flag. -/
theorem removeCacheItem_of_error {lib next : CacheLib} {cacheName itemName : StringView}
    (failed : lib.removeCacheItem cacheName itemName = (next, .error error)) : next.SameData lib := by
  rcases lib.removeCacheItem_cases cacheName itemName with
    ⟨kept, _⟩ | ⟨cache, _, ⟨_, outcome⟩ | ⟨_, outcome⟩⟩
  · have same : next = lib := (congrArg Prod.fst failed).symm.trans kept
    exact same ▸ .refl lib
  · cases outcome.symm.trans failed
    exact lib.sameData_updateAt cacheName.chars (fun _ => rfl)
  · cases outcome.symm.trans failed

theorem mergeCache_of_error {lib next : CacheLib} {col1 col2 : StringView}
    (failed : lib.mergeCache col1 col2 = some (next, .error error)) : next = lib := by
  by_cases mergeable : lib.Mergeable col1 col2
  · obtain ⟨_, _, _, _, outcome⟩ := mergeCache_of_mergeable mergeable
    cases outcome.symm.trans failed
  · obtain ⟨_, outcome⟩ := mergeCache_of_not_mergeable mergeable
    cases outcome.symm.trans failed
    rfl

theorem moveCacheItem_of_error {lib next : CacheLib} {source dest itemName : StringView}
    (failed : lib.moveCacheItem source dest itemName = some (next, .error error)) : next = lib := by
  rcases moveCacheItem_cases failed with ⟨kept, _⟩ | ⟨different, other, listed, _, _, found, contained, located⟩
  · exact kept
  · cases (moveCacheItem_of different other found listed contained located).symm.trans failed

/-- The error exits of every other operation come before all changes. -/
theorem eq_of_error {lib next : CacheLib} {op : LibOp}
    (failed : lib.perform op = some (next, .error error))
    (other : ∀ cacheName itemName, op ≠ .removeCacheItem cacheName itemName) : next = lib := by
  cases op with
  | insert name value =>
    have same := Option.some.inj failed
    rw [insert_eq] at same
    split at same
    · exact (congrArg Prod.fst same).symm
    · cases same
  | changeActive newActive => exact changeActive_of_error (Option.some.inj failed)
  | renameStore fromName toName => exact renameStore_of_error (Option.some.inj failed)
  | remove name =>
    have same := Option.some.inj failed
    rw [remove_eq] at same
    split at same
    · cases same
    · exact (congrArg Prod.fst same).symm
  | removeCacheItem cacheName itemName => exact absurd rfl (other cacheName itemName)
  | mergeCache col1 col2 => exact mergeCache_of_error failed
  | moveCacheItem source dest itemName => exact moveCacheItem_of_error failed
  | insertItem name value loc =>
    have same := Option.some.inj failed
    unfold insertItem at same
    split at same
    · cases same
    · exact (congrArg Prod.fst same).symm
  | setState pos idx state =>
    obtain ⟨store, _, performed⟩ := Option.bind_eq_some_iff.mp failed
    split at performed
    · cases performed
    · cases performed

/-- The error exits of every operation come before the changes to the data. -/
theorem sameData_of_error {lib next : CacheLib} {op : LibOp}
    (failed : lib.perform op = some (next, .error error)) : next.SameData lib := by
  by_cases search : ∃ cacheName itemName, op = .removeCacheItem cacheName itemName
  · obtain ⟨cacheName, itemName, rfl⟩ := search
    exact removeCacheItem_of_error (Option.some.inj failed)
  · have other : ∀ cacheName itemName, op ≠ .removeCacheItem cacheName itemName :=
      fun cacheName itemName same => search ⟨cacheName, itemName, same⟩
    exact eq_of_error failed other ▸ .refl lib

/-- A call that reports an error has changed no name, no item and no trace of the active
collection, whatever its arguments. -/
theorem failed_operation_changes_no_data {lib next : CacheLib} {op : LibOp}
    (failed : lib.perform op = some (next, .error error)) : next.SameData lib := sameData_of_error failed

/-- A miss sets the flag of a loaded collection and changes nothing else. -/
theorem failed_operation_changes_no_data_miss :
    ∃ next : CacheLib, next ≠ { cacheVec := [(ascii "nature", {})] } ∧
      next.SameData { cacheVec := [(ascii "nature", {})] } := by
  have failed : perform { cacheVec := [(ascii "nature", {})] }
      (.removeCacheItem ⟨ascii "nature", []⟩ ⟨ascii "lake.png", []⟩) =
        some ({ cacheVec := [(ascii "nature", { modified := true })] }, .error .cacheElemNotExists) := rfl
  exact ⟨_, by decide, failed_operation_changes_no_data failed⟩

/-! ### Merging -/

theorem without_of_distinct {lib : CacheLib} (distinct : lib.NamesDistinct) (name1 name2 : Bytes) :
    lib.without name1 name2 =
      lib.cacheVec.filter (fun store => store.1 ≠ name1 ∧ store.1 ≠ name2) := by
  have rest : (keys (lib.cacheVec.filter (fun store => store.1 ≠ name1))).Nodup :=
    List.Nodup.sublist (List.filter_sublist.map Prod.fst) distinct
  rw [without, eraseIdx_find_of_nodup distinct, eraseIdx_find_of_nodup rest, List.filter_filter]
  refine List.filter_congr (fun store _ => ?_)
  simp [Bool.and_comm]

theorem mergeCache_ok_iff (lib : CacheLib) (col1 col2 : StringView) :
    (∃ next, lib.mergeCache col1 col2 = some (next, .ok true)) ↔ lib.Mergeable col1 col2 := by
  constructor
  · intro ⟨next, succeeded⟩
    exact mergeable_of_ok succeeded
  · intro mergeable
    obtain ⟨_, _, _, _, outcome⟩ := mergeCache_of_mergeable mergeable
    exact ⟨_, outcome⟩

/-- `merge_cache` goes through for two different collections. It leaves the other ones in
their order and one more behind them, in which the two lists are run together, sorted if
both of them are. -/
theorem merge_cache_spec {lib : CacheLib} {col1 col2 : StringView} (distinct : lib.NamesDistinct)
    (terminated : col1.Terminated) :
    ((∃ next, lib.mergeCache col1 col2 = some (next, .ok true)) ↔
        col1.chars ≠ col2.chars ∧ col1.chars ∈ lib.names ∧ col2.chars ∈ lib.names) ∧
      ∀ next, lib.mergeCache col1 col2 = some (next, .ok true) → ∃ first second merged,
        lib.Collection col1.chars first ∧ lib.Collection col2.chars second ∧
        next = { lib with
          cacheVec := lib.cacheVec.filter (fun store => store.1 ≠ col1.chars ∧ store.1 ≠ col2.chars) ++
            [(col1.chars, merged)] } ∧
        Interleaves first.list second.list merged.list ∧
        (Sorted first.list → Sorted second.list → Sorted merged.list) := by
  refine ⟨lib.mergeCache_ok_iff col1 col2, fun next succeeded => ?_⟩
  have mergeable := (lib.mergeCache_ok_iff col1 col2).mp ⟨next, succeeded⟩
  obtain ⟨first, second, found1, found2, outcome⟩ := mergeCache_of_mergeable mergeable
  obtain ⟨same, _⟩ := Prod.mk.inj (Option.some.inj (outcome.symm.trans succeeded))
  rw [without_of_distinct distinct, StringView.data_of_terminated terminated] at same
  refine ⟨first, second, { list := rangesMerge first.list second.list, modified := true },
    found1, found2, same.symm, interleaves_rangesMerge _ _, ?_⟩
  intro left right
  exact sorted_rangesMerge left right

/-- The first and the last of three collections, whose items alternate in the order. -/
theorem merge_cache_spec_alternating :
    let hill : CacheItem Bytes := ⟨ascii "hill", .unused, 7⟩
    let lake : CacheItem Bytes := ⟨ascii "lake", .favorate, 7⟩
    let pine : CacheItem Bytes := ⟨ascii "pine", .used, 9⟩
    let wood : CacheItem Bytes := ⟨ascii "wood", .unused, 9⟩
    ∃ next merged, mergeCache { cacheVec := [(ascii "a", { list := [hill, pine] }), (ascii "b", {}),
          (ascii "c", { list := [lake, wood] })] } ⟨ascii "c", []⟩ ⟨ascii "a", []⟩ = some (next, .ok true) ∧
      next.cacheVec = [(ascii "b", {}), (ascii "c", merged)] ∧
      Interleaves [lake, wood] [hill, pine] merged.list ∧ Sorted merged.list := by
  intro hill lake pine wood
  let lib : CacheLib := { cacheVec := [(ascii "a", { list := [hill, pine] }), (ascii "b", {}),
    (ascii "c", { list := [lake, wood] })] }
  have distinct : lib.NamesDistinct := by
    unfold NamesDistinct
    decide
  have terminated : StringView.Terminated ⟨ascii "c", []⟩ := by decide
  obtain ⟨succeeds, result⟩ := @merge_cache_spec lib ⟨ascii "c", []⟩ ⟨ascii "a", []⟩ distinct terminated
  obtain ⟨next, succeeded⟩ := succeeds.mpr ⟨by decide, by decide, by decide⟩
  obtain ⟨first, second, merged, found1, found2, same, interleaved, sorted⟩ := result next succeeded
  cases found1
  cases found2
  exact ⟨next, merged, succeeded, congrArg CacheLib.cacheVec same, interleaved, sorted (by decide) (by decide)⟩

/-! ### Moving -/

/-- The first item of a value, with what stands before and behind it. -/
theorem split_at_findValue {cache : Cache Bytes} {value : Bytes} (member : value ∈ cache.values) :
    ∃ before item after, cache.list = before ++ item :: after ∧ item.cacheValue = value ∧
      (∀ earlier ∈ before, earlier.cacheValue ≠ value) ∧ cache.findValue value = before.length := by
  obtain ⟨front, back, split, fresh⟩ := List.eq_append_cons_of_mem member
  obtain ⟨before, rest, list, rfl, values⟩ := List.map_eq_append_iff.mp split
  obtain ⟨item, after, rfl, named, _⟩ := List.map_eq_cons_iff.mp values
  refine ⟨before, item, after, list, named, ?_, ?_⟩
  · intro earlier inside same
    exact fresh (same ▸ List.mem_map.mpr ⟨earlier, inside, rfl⟩)
  · rw [Cache.findValue_eq_idxOf, split, List.idxOf_append_of_notMem fresh,
      List.idxOf_cons_self, List.length_map, Nat.add_zero]

/-- The condition under which `move_cache_item` goes through. -/
def Movable (lib : CacheLib) (source dest value : Bytes) : Prop :=
  source ≠ dest ∧ dest ≠ value ∧ dest ∈ lib.names ∧
    ∃ cache, lib.Collection source cache ∧ value ∈ cache.values

/-- The library with the items of two collections replaced. -/
def replaced (lib : CacheLib) (name1 name2 : Bytes) (items1 items2 : Cache Bytes) : CacheLib :=
  { lib with cacheVec := lib.cacheVec.map (fun store =>
      (store.1, if store.1 = name1 then items1 else if store.1 = name2 then items2 else store.2)) }

theorem names_updateAt (lib : CacheLib) (name : Bytes) (change : Cache Bytes → Cache Bytes) :
    (lib.updateAt name change).names = lib.names := keys_modify_value _ _ _ (fun _ => rfl)

theorem updateAt_of_distinct {lib : CacheLib} (distinct : lib.NamesDistinct) (name : Bytes)
    (change : Cache Bytes → Cache Bytes) : lib.updateAt name change =
      { lib with cacheVec := lib.cacheVec.map (fun store =>
          (store.1, if store.1 = name then change store.2 else store.2)) } := by
  rw [updateAt, modify_find_of_nodup distinct]

/-- Two collections changed one after the other, as one change of two entries. -/
theorem updateAt_updateAt_of_distinct {lib : CacheLib} {name1 name2 : Bytes} {cache1 cache2 : Cache Bytes}
    (distinct : lib.NamesDistinct) (different : name1 ≠ name2) (found1 : lib.Collection name1 cache1)
    (found2 : lib.Collection name2 cache2) (change1 change2 : Cache Bytes → Cache Bytes) :
    (lib.updateAt name2 change2).updateAt name1 change1 =
      lib.replaced name1 name2 (change1 cache1) (change2 cache2) := by
  have kept : (lib.updateAt name2 change2).NamesDistinct := by
    rw [NamesDistinct, names_updateAt]
    exact distinct
  rw [updateAt_of_distinct kept, updateAt_of_distinct distinct, replaced, List.map_map]
  congr 1
  refine List.map_congr_left (fun store member => ?_)
  have here := collection_of_distinct distinct member
  rw [Function.comp_apply]
  by_cases first : store.1 = name1
  · have same : store.2 = cache1 := (first ▸ here).unique found1
    simp only [if_pos first, if_neg (first ▸ different), same]
  · by_cases second : store.1 = name2
    · have same : store.2 = cache2 := (second ▸ here).unique found2
      simp only [if_neg first, if_pos second, same]
    · simp only [if_neg first, if_neg second]

/-- What moving does to a library with distinct names. -/
theorem moveCacheItem_replaces {lib : CacheLib} {source dest itemName : StringView}
    {src dst : Cache Bytes} {item : CacheItem Bytes} (distinct : lib.NamesDistinct)
    (different : source.chars ≠ dest.chars) (other : dest.chars ≠ itemName.chars)
    (found : lib.Collection source.chars src) (target : lib.Collection dest.chars dst)
    (contained : itemName.data ∈ src.values)
    (located : src.list[src.findValue itemName.chars]? = some item) :
    lib.moveCacheItem source dest itemName = some (lib.replaced source.chars dest.chars
      (src.erase (src.findValue itemName.chars)) (dst.insertElem item), .ok true) := by
  rw [moveCacheItem_updates different other found target.listed contained located,
    updateAt_updateAt_of_distinct distinct different found target]

theorem moveCacheItem_ok_iff {lib : CacheLib} {source dest itemName : StringView}
    (terminated : itemName.Terminated) :
    (∃ next, lib.moveCacheItem source dest itemName = some (next, .ok true)) ↔
      lib.Movable source.chars dest.chars itemName.chars := by
  have read := StringView.data_of_terminated terminated
  constructor
  · intro ⟨next, succeeded⟩
    rcases moveCacheItem_cases succeeded with
      ⟨_, _, failed⟩ | ⟨different, other, listed, src, _, found, contained, _⟩
    · cases failed
    · exact ⟨different, other, listed, src, found, read ▸ contained⟩
  · intro ⟨different, other, listed, src, found, member⟩
    obtain ⟨item, located, _⟩ := Cache.item_at_findValue member
    exact ⟨_, moveCacheItem_of different other found listed (read.symm ▸ member) located⟩

/-- `move_cache_item` goes through if the source has an item of that value. The first one
leaves the source and joins the end of the destination, unless an equal item is there;
nothing else changes, and no item does where it does not go through. -/
theorem move_cache_item_spec {lib : CacheLib} {source dest itemName : StringView}
    (distinct : lib.NamesDistinct) (terminated : itemName.Terminated) :
    ((∃ next, lib.moveCacheItem source dest itemName = some (next, .ok true)) ↔
        lib.Movable source.chars dest.chars itemName.chars) ∧
      (∀ next, lib.moveCacheItem source dest itemName = some (next, .ok true) →
        ∃ src dst item before after src' dst',
          lib.Collection source.chars src ∧ lib.Collection dest.chars dst ∧
          src.list = before ++ item :: after ∧ item.cacheValue = itemName.chars ∧
          (∀ earlier ∈ before, earlier.cacheValue ≠ itemName.chars) ∧
          src'.list = before ++ after ∧
          dst'.list = (if item ∈ dst.list then dst.list else dst.list ++ [item]) ∧
          next = lib.replaced source.chars dest.chars src' dst') ∧
      ∃ next result, lib.moveCacheItem source dest itemName = some (next, result) ∧
        (result ≠ .ok true → next.SameData lib) := by
  refine ⟨moveCacheItem_ok_iff terminated, fun next succeeded => ?_, ?_⟩
  · obtain ⟨different, other, listed, src, found, member⟩ :=
      (moveCacheItem_ok_iff terminated).mp ⟨next, succeeded⟩
    obtain ⟨dst, target⟩ := collection_of_mem listed
    obtain ⟨before, item, after, split, named, fresh, place⟩ := split_at_findValue member
    have located : src.list[src.findValue itemName.chars]? = some item := by
      simp [place, split]
    have contained := StringView.data_of_terminated terminated ▸ member
    have moved := moveCacheItem_replaces distinct different other found target contained located
    obtain ⟨same, _⟩ := Prod.mk.inj (Option.some.inj (moved.symm.trans succeeded))
    refine ⟨src, dst, item, before, after, _, _, found, target, split, named, fresh, ?_, ?_, same.symm⟩
    · rw [Cache.erase, place, split, List.eraseIdx_append_of_length_le (Nat.le_refl _), Nat.sub_self,
        List.eraseIdx_cons_zero]
    · exact Cache.insertElem_list ..
  · obtain ⟨next, result, outcome⟩ := moveCacheItem_defined lib source dest terminated
    refine ⟨next, result, outcome, fun unsuccessful => ?_⟩
    rcases moveCacheItem_cases outcome with
      ⟨kept, _⟩ | ⟨different, other, listed, _, _, found, contained, located⟩
    · exact kept ▸ .refl lib
    · have succeeded := moveCacheItem_of different other found listed contained located
      obtain ⟨_, ok⟩ := Prod.mk.inj (Option.some.inj (succeeded.symm.trans outcome))
      exact absurd ok.symm unsuccessful

/-- The destination has a wallpaper of that name already, from another directory. -/
theorem move_cache_item_spec_other_directory :
    ∃ lib : CacheLib, lib.Movable (ascii "nature") (ascii "city") (ascii "lake.png") ∧
      ∃ next, lib.moveCacheItem ⟨ascii "nature", []⟩ ⟨ascii "city", []⟩ ⟨ascii "lake.png", []⟩ =
        some (next, .ok true) := by
  let lib : CacheLib := { cacheVec := [(ascii "nature", { list := [⟨ascii "lake.png", .used, 7⟩] }),
    (ascii "city", { list := [⟨ascii "lake.png", .unused, 8⟩] })] }
  have distinct : lib.NamesDistinct := by
    unfold NamesDistinct
    decide
  have terminated : StringView.Terminated ⟨ascii "lake.png", []⟩ := by decide
  have movable : lib.Movable (ascii "nature") (ascii "city") (ascii "lake.png") :=
    ⟨by decide, by decide, by decide, _, rfl, by decide⟩
  have succeeds := (@move_cache_item_spec lib ⟨ascii "nature", []⟩ ⟨ascii "city", []⟩
    ⟨ascii "lake.png", []⟩ distinct terminated).1
  exact ⟨lib, movable, succeeds.mpr movable⟩

end CacheLib

end Wallchanger
