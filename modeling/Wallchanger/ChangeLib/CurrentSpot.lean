import Wallchanger.ChangeLib.ItemSpot
import Wallchanger.ChangeLib.OperationSpec

/-! A search for a name in the current collection, and which calls it outlasts: after
them it ends at the item at which it ended before. -/

namespace Wallchanger

open Foundation

namespace CacheLib

/-- Where the current collection has its first item of a name. -/
def currentSpot (lib : CacheLib) (value : Bytes) : Option Spot :=
  lib.cacheVec[lib.current.toNat]?.bind (fun store =>
    if store.2.contains value then some { pos := lib.current.toNat, idx := store.2.findValue value } else none)

/-- In a merged list the first item of a name comes from one side. -/
def FirstMerged (first second : Cache Bytes) (value : Bytes) (side : Bool) : Prop :=
  mergedPosition (fun left right => !right.less left) first.list second.list side
      ((if side then second else first).findValue value) =
    ({ list := rangesMerge first.list second.list } : Cache Bytes).findValue value

/-- A merge leaves the item of a search where it ends, if both collections are behind the
current one, or if that is one of them, the merged one takes its index and the item comes
first of its name there. -/
def MergeSpares (lib : CacheLib) (value : Bytes) (col1 col2 : StringView) : Prop :=
  lib.current.toNat < find lib.cacheVec col1.chars ∧ lib.current.toNat < find lib.cacheVec col2.chars ∨
  lib.current.toNat + 2 = lib.cacheVec.length ∧ ∃ first second side,
    lib.Collection col1.chars first ∧ lib.Collection col2.chars second ∧
    lib.current.toNat = find lib.cacheVec (if side then col2 else col1).chars ∧
    FirstMerged first second value side

/-- A call, if it goes through, leaves the item of a search where the search ends. -/
def Spares (lib : CacheLib) (value : Bytes) : LibOp → Prop
  | .changeActive newActive =>
    newActive.chars ∈ lib.names → UInt32.ofNat (find lib.cacheVec newActive.chars) = lib.current
  | .remove name => name.chars ∈ lib.names → lib.current.toNat < find lib.cacheVec name.chars
  | .removeCacheItem cacheName itemName => cacheName.chars ≠ itemName.chars →
    lib.current.toNat = find lib.cacheVec cacheName.chars → value ≠ itemName.chars
  | .moveCacheItem source dest itemName =>
    source.chars ≠ dest.chars → dest.chars ≠ itemName.chars → dest.chars ∈ lib.names →
      ∀ src, lib.Collection source.chars src → itemName.data ∈ src.values →
        lib.current.toNat = find lib.cacheVec source.chars → value ≠ itemName.chars
  | .mergeCache col1 col2 => lib.Mergeable col1 col2 → lib.MergeSpares value col1 col2
  | .insert _ _ | .renameStore _ _ | .insertItem _ _ _ | .setState _ _ _ => True

variable {lib next : CacheLib} {spot : Spot} {value : Bytes}

theorem currentSpot_eq_some : lib.currentSpot value = some spot ↔ ∃ store,
    lib.cacheVec[lib.current.toNat]? = some store ∧ value ∈ store.2.values ∧
      spot = { pos := lib.current.toNat, idx := store.2.findValue value } := by
  unfold currentSpot
  rw [Option.bind_eq_some_iff]
  constructor
  · rintro ⟨store, found, spotted⟩
    split at spotted
    · rename_i member
      exact ⟨store, found, (store.2.contains_iff value).mp member, (Option.some.inj spotted).symm⟩
    · cases spotted
  · rintro ⟨store, found, member, same⟩
    have contained := (store.2.contains_iff value).mpr member
    exact ⟨store, found, (if_pos contained).trans (congrArg some same.symm)⟩

theorem currentSpot_of {store : CacheStore} (found : lib.cacheVec[lib.current.toNat]? = some store)
    (member : value ∈ store.2.values) : lib.currentSpot value =
      some { pos := lib.current.toNat, idx := store.2.findValue value } :=
  currentSpot_eq_some.mpr ⟨store, found, member, rfl⟩

/-- The search looks at the items at one index and at nothing else. -/
theorem currentSpot_congr (index : next.current = lib.current)
    (items : next.cacheVec[lib.current.toNat]?.map (fun store => store.2.list) =
      lib.cacheVec[lib.current.toNat]?.map (fun store => store.2.list)) :
    next.currentSpot value = lib.currentSpot value := by
  have expand : ∀ other : CacheLib, other.currentSpot value =
      (other.cacheVec[other.current.toNat]?.map (fun store => store.2.list)).bind (fun list =>
        if ({ list } : Cache Bytes).contains value then
          some { pos := other.current.toNat, idx := ({ list } : Cache Bytes).findValue value }
        else none) := by
    intro other
    rw [Option.bind_map]
    rfl
  rw [expand, expand, index, items]

theorem currentSpot_of_sameData (same : next.SameData lib) :
    next.currentSpot value = lib.currentSpot value := by
  obtain ⟨collections, _, index⟩ := same
  refine currentSpot_congr index ?_
  have entries := congrArg (fun list => (list[lib.current.toNat]?).map Prod.snd) collections
  simp only [CacheLib.collections, List.getElem?_map, Option.map_map] at entries
  exact entries

theorem hasFile_of_sameData {loc : UInt32} (same : next.SameData lib) (there : lib.HasFile spot value loc) :
    next.HasFile spot value loc := by
  have expand : ∀ other : CacheLib, other.itemAt spot = other.collections[spot.pos]?.bind (·.2[spot.idx]?) := by
    intro other
    rw [collections, List.getElem?_map, Option.bind_map]
    rfl
  refine there.of_itemAt (fun item found => ?_)
  rw [expand, same.1, ← expand, found]

theorem currentSpot_updateAt_ne {name : Bytes} (other : lib.current.toNat ≠ find lib.cacheVec name)
    (change : Cache Bytes → Cache Bytes) :
    (lib.updateAt name change).currentSpot value = lib.currentSpot value :=
  currentSpot_congr rfl (congrArg _ (List.getElem?_modify_ne _ _ (Ne.symm other)))

theorem currentSpot_updateAt_eq {name : Bytes} {store : CacheStore} {change : Cache Bytes → Cache Bytes}
    (here : lib.current.toNat = find lib.cacheVec name)
    (found : lib.cacheVec[lib.current.toNat]? = some store)
    (member : value ∈ (change store.2).values) : (lib.updateAt name change).currentSpot value =
      some { pos := lib.current.toNat, idx := (change store.2).findValue value } := by
  have changed : (lib.updateAt name change).cacheVec[lib.current.toNat]? = some (store.1, change store.2) := by
    rw [updateAt, ← here, List.getElem?_modify_eq, found]
    rfl
  exact currentSpot_of changed member

theorem currentSpot_changeActive {newActive : StringView}
    (spares : lib.Spares value (.changeActive newActive)) :
    (lib.changeActive newActive).1.currentSpot value = lib.currentSpot value := by
  unfold changeActive
  split
  · rename_i listed
    have index := spares ((lib.existsCache_iff _).mp listed)
    dsimp only
    split
    · exact currentSpot_congr index rfl
    · rfl
  · rfl

theorem currentSpot_renameStore (fromName toName : StringView) :
    (lib.renameStore fromName toName).1.currentSpot value = lib.currentSpot value := by
  rw [renameStore_eq]
  split
  · rfl
  · split
    · refine currentSpot_congr rfl ?_
      dsimp only
      rw [List.getElem?_modify]
      cases lib.cacheVec[lib.current.toNat]? with
      | none => rfl
      | some store =>
        simp only [Option.map_eq_map, Option.map_some]
        split <;> rfl
    · rfl

theorem currentSpot_insert {name : Bytes} (found : lib.currentSpot value = some spot) (cache : Cache Bytes) :
    (lib.insert name cache).1.currentSpot value = some spot := by
  rw [insert_eq]
  split
  · exact found
  · obtain ⟨store, place, member, rfl⟩ := currentSpot_eq_some.mp found
    have bound := (List.getElem?_eq_some_iff.mp place).1
    exact currentSpot_of ((List.getElem?_append_left bound).trans place) member

/-- Items that are added at the end leave the first one of a name first. -/
theorem findValue_append {cache next : Cache Bytes} {more : List (CacheItem Bytes)}
    (member : value ∈ cache.values) (grown : next.list = cache.list ++ more) :
    value ∈ next.values ∧ next.findValue value = cache.findValue value := by
  have values : next.values = cache.values ++ more.map CacheItem.cacheValue := by
    rw [Cache.values, grown, List.map_append]
    rfl
  rw [Cache.findValue_eq_idxOf, Cache.findValue_eq_idxOf, values]
  exact ⟨List.mem_append_left _ member, List.idxOf_append_of_mem member⟩

theorem currentSpot_updateAt_append {name : Bytes} {change : Cache Bytes → Cache Bytes}
    (grows : ∀ cache, ∃ more, (change cache).list = cache.list ++ more)
    (found : lib.currentSpot value = some spot) : (lib.updateAt name change).currentSpot value = some spot := by
  by_cases here : lib.current.toNat = find lib.cacheVec name
  · obtain ⟨store, place, member, rfl⟩ := currentSpot_eq_some.mp found
    obtain ⟨more, grown⟩ := grows store.2
    obtain ⟨still, same⟩ := findValue_append member grown
    rw [currentSpot_updateAt_eq here place still, same]
  · rw [currentSpot_updateAt_ne here, found]

theorem currentSpot_insertItem {name : Bytes} (found : lib.currentSpot value = some spot) (other : Bytes)
    (loc : UInt32) : (lib.insertItem name other loc).1.currentSpot value = some spot := by
  unfold insertItem
  split
  · exact currentSpot_updateAt_append (insert_grows other loc) found
  · exact found

theorem values_setState (cache : Cache Bytes) (idx : Nat) (state : CacheState) :
    (cache.setState idx state).values = cache.values := by
  apply List.ext_getElem?
  intro other
  simp only [Cache.values, Cache.setState, List.getElem?_map, List.getElem?_modify]
  cases cache.list[other]? with
  | none => rfl
  | some item =>
    simp only [Option.map_eq_map, Option.map_some]
    split <;> rfl

theorem setState_of_inside {pos idx : Nat} {store : CacheStore} (place : lib.cacheVec[pos]? = some store)
    (inside : idx < store.2.list.length) (state : CacheState) : lib.setState pos idx state = some ({ lib with
      cacheVec := lib.cacheVec.modify pos (Prod.map id (·.setState idx state)) }, .ok true) := by
  rw [setState, place]
  exact if_pos inside

theorem currentSpot_setState {pos idx : Nat} {state : CacheState}
    (performed : lib.setState pos idx state = some (next, result)) :
    next.currentSpot value = lib.currentSpot value := by
  obtain ⟨_, _, _, rfl⟩ := setState_cases performed
  unfold currentSpot
  dsimp only
  by_cases here : pos = lib.current.toNat
  · rw [here, List.getElem?_modify_eq]
    cases lib.cacheVec[lib.current.toNat]? with
    | none => rfl
    | some store =>
      have contained : (store.2.setState idx state).contains value = store.2.contains value := by
        rw [Bool.eq_iff_iff, Cache.contains_iff, Cache.contains_iff, values_setState]
      simp only [Option.map_eq_map, Option.map_some, Option.bind_some, Prod.map_snd, contained,
        Cache.findValue_eq_idxOf, values_setState]
  · rw [List.getElem?_modify_ne _ _ here]

/-- A search is followed through the erasing of the first item of another name. -/
theorem currentSpot_erase {cacheName : Bytes} {cache : Cache Bytes} {itemName : Bytes}
    (here : lib.current.toNat = find lib.cacheVec cacheName) (found : lib.Collection cacheName cache)
    (member : value ∈ cache.values) (other : value ≠ itemName) :
    ∃ idx, afterErase (cache.findValue itemName) (cache.findValue value) = some idx ∧
      (lib.updateAt cacheName (·.erase (cache.findValue itemName))).currentSpot value =
        some { pos := lib.current.toNat, idx } := by
  have place : lib.cacheVec[lib.current.toNat]? = some (cacheName, cache) := here ▸ found
  have still : value ∈ (cache.erase (cache.findValue itemName)).values := by
    rw [Cache.values_erase]
    exact (List.mem_erase_of_ne other).mpr member
  have first : (cache.erase (cache.findValue itemName)).findValue value =
      (cache.values.erase itemName).idxOf value := by
    rw [Cache.findValue_eq_idxOf, Cache.values_erase]
  refine ⟨_, ?_, currentSpot_updateAt_eq here place still⟩
  dsimp only
  rw [first, cache.findValue_eq_idxOf itemName, cache.findValue_eq_idxOf value]
  exact afterErase_idxOf other member

theorem currentSpot_remove {name : StringView} (found : lib.currentSpot value = some spot)
    (listed : name.chars ∈ lib.names) (spares : lib.Spares value (.remove name)) :
    lib.carried spot (.remove name) = some spot ∧ (lib.remove name).1.currentSpot value = some spot := by
  obtain ⟨store, place, member, rfl⟩ := currentSpot_eq_some.mp found
  have before := afterErase_of_lt (spares listed)
  refine ⟨?_, ?_⟩
  · simp only [carried, before]
    rfl
  · rw [remove_eq, if_pos listed]
    exact currentSpot_of ((getElem?_afterErase before lib.cacheVec).trans place) member

theorem currentSpot_removeCacheItem {cacheName itemName : StringView}
    (found : lib.currentSpot value = some spot)
    (removed : lib.removeCacheItem cacheName itemName = (next, .ok done))
    (spares : lib.Spares value (.removeCacheItem cacheName itemName)) :
    ∃ after, lib.carriedByRemoval spot cacheName itemName = some after ∧
      next.currentSpot value = some after := by
  have different : cacheName.chars ≠ itemName.chars := by
    intro same
    rw [removeCacheItem, if_neg (not_not.mpr same)] at removed
    cases removed
  rcases lib.removeCacheItem_cases cacheName itemName with
    ⟨_, error, failed⟩ | ⟨cache, held, ⟨_, outcome⟩ | ⟨_, outcome⟩⟩
  · rw [removed] at failed
    cases failed
  · cases outcome.symm.trans removed
  · cases outcome.symm.trans removed
    obtain ⟨store, place, member, rfl⟩ := currentSpot_eq_some.mp found
    by_cases here : lib.current.toNat = find lib.cacheVec cacheName.chars
    · rw [here, held] at place
      cases place
      obtain ⟨idx, moved, ends⟩ := currentSpot_erase here held member (spares different here)
      refine ⟨_, ?_, ends⟩
      unfold carriedByRemoval
      rw [if_pos here]
      simp only [here, held, moved, Option.bind_eq_bind, Option.bind_some]
      rfl
    · refine ⟨_, if_neg here, ?_⟩
      rw [currentSpot_updateAt_ne here, found]

/-- Behind the source the search does not see where the item goes to. -/
theorem currentSpot_moveCacheItem {source dest itemName : StringView}
    (found : lib.currentSpot value = some spot)
    (moved : lib.moveCacheItem source dest itemName = some (next, .ok done))
    (spares : lib.Spares value (.moveCacheItem source dest itemName)) :
    ∃ after, lib.carriedByMove spot source dest itemName = some after ∧
      next.currentSpot value = some after := by
  rcases moveCacheItem_cases moved with
    ⟨_, _, failed⟩ | ⟨different, other, listed, src, moving, held, contained, located⟩
  · cases failed
  · cases (moveCacheItem_updates different other held listed contained located).symm.trans moved
    obtain ⟨dst, target⟩ := collection_of_mem listed
    have goal : lib.cacheVec[find lib.cacheVec dest.chars]? = some (dest.chars, dst) := target
    have sourcePlace := find_updateAt lib dest.chars source.chars (·.insertElem moving)
    have grown : (lib.updateAt dest.chars (·.insertElem moving)).currentSpot value = some spot :=
      currentSpot_updateAt_append (insertElem_grows moving) found
    obtain ⟨store, place, member, rfl⟩ := currentSpot_eq_some.mp found
    by_cases here : lib.current.toNat = find lib.cacheVec source.chars
    · rw [here, held] at place
      cases place
      have still := Collection.updateAt_ne held different (·.insertElem moving)
      have behind : (lib.updateAt dest.chars (·.insertElem moving)).current.toNat =
          find (lib.updateAt dest.chars (·.insertElem moving)).cacheVec source.chars :=
        here.trans sourcePlace.symm
      obtain ⟨idx, shifted, ends⟩ := currentSpot_erase behind still member
        (spares different other listed src held contained here)
      have apart : src.findValue value ≠ src.findValue itemName.chars := by
        intro same
        rw [same, afterErase, if_pos rfl] at shifted
        cases shifted
      obtain ⟨item, inside, _⟩ := Cache.item_at_findValue member
      refine ⟨_, ?_, ends⟩
      unfold carriedByMove
      rw [if_pos here]
      simp only [here, held, goal, inside, if_neg apart, shifted, Option.bind_eq_bind, Option.bind_some]
      exact congrArg (fun pos => some ({ pos, idx } : Spot)) here.symm
    · refine ⟨_, if_neg here, ?_⟩
      rw [currentSpot_updateAt_ne (sourcePlace.symm ▸ here), grown]

theorem length_without {col1 col2 : StringView} (mergeable : lib.Mergeable col1 col2) :
    (lib.without col1.chars col2.chars).length + 2 = lib.cacheVec.length := by
  obtain ⟨different, member1, member2⟩ := mergeable
  have still := (List.mem_erase_of_ne (Ne.symm different)).mpr member2
  have inner := List.length_erase_of_mem still
  have outer := List.length_erase_of_mem member1
  have positive := List.length_pos_of_mem still
  have length := congrArg List.length (lib.keys_without col1.chars col2.chars)
  have total : lib.names.length = lib.cacheVec.length := length_keys _
  rw [length_keys] at length
  omega

theorem mem_values_rangesMerge {first second : Cache Bytes} {modified : Bool} :
    value ∈ ({ list := rangesMerge first.list second.list, modified } : Cache Bytes).values ↔
      value ∈ first.values ∨ value ∈ second.values := by
  simp only [Cache.values, rangesMerge, List.mem_map, List.mem_merge, or_and_right, exists_or]

theorem currentSpot_mergeCache {col1 col2 : StringView} (found : lib.currentSpot value = some spot)
    (merged : lib.mergeCache col1 col2 = some (next, .ok done))
    (spares : lib.Spares value (.mergeCache col1 col2)) :
    ∃ after, lib.carriedByMerge spot col1 col2 = some after ∧ next.currentSpot value = some after := by
  have mergeable := mergeable_of_ok merged
  obtain ⟨first, second, found1, found2, outcome⟩ := mergeCache_of_mergeable mergeable
  cases outcome.symm.trans merged
  obtain ⟨store, place, member, rfl⟩ := currentSpot_eq_some.mp found
  simp only [carriedByMerge, found1, found2, Option.bind_eq_bind, Option.bind_some]
  rcases spares mergeable with
    ⟨before1, before2⟩ | ⟨last, first', second', side, held1, held2, here, ends⟩
  · have before : lib.current.toNat <
        find (lib.cacheVec.eraseIdx (find lib.cacheVec col1.chars)) col2.chars := by
      have shifted := idxOf_erase_ne (keys lib.cacheVec) (Ne.symm mergeable.1)
      rw [find_eq_idxOf, keys_erase_find]
      rw [find_eq_idxOf] at before1 before2
      split at shifted
      · omega
      · omega
    have moved1 := afterErase_of_lt before1
    have moved2 := afterErase_of_lt before
    have stays : (lib.without col1.chars col2.chars)[lib.current.toNat]? = some store := by
      rw [without, getElem?_afterErase moved2, getElem?_afterErase moved1, place]
    have bound := (List.getElem?_eq_some_iff.mp stays).1
    refine ⟨_, ?_, currentSpot_of ((List.getElem?_append_left bound).trans stays) member⟩
    rw [if_neg (Nat.ne_of_lt before1), if_neg (Nat.ne_of_lt before2), moved1, Option.bind_some, moved2]
    rfl
  · cases Collection.unique found1 held1
    cases Collection.unique found2 held2
    have index : (lib.without col1.chars col2.chars).length = lib.current.toNat := by
      have length := length_without mergeable
      omega
    have placed := List.getElem?_concat_length (l := lib.without col1.chars col2.chars)
      (a := (col1.data, ({ list := rangesMerge first.list second.list, modified := true } : Cache Bytes)))
    rw [index] at placed ⊢
    have ends_ := fun pos => congrArg (fun idx => some ({ pos, idx } : Spot)) (Eq.symm ends)
    have inside := @mem_values_rangesMerge value first second true
    cases side with
    | false =>
      cases found1.symm.trans (here ▸ place)
      exact ⟨_, if_pos here, Eq.trans (currentSpot_of placed (inside.mpr (.inl member))) (ends_ _)⟩
    | true =>
      have apart := Collection.apart found2 (Ne.symm mergeable.1)
      cases found2.symm.trans (here ▸ place)
      exact ⟨_, (if_neg (here ▸ apart)).trans (if_pos here),
        Eq.trans (currentSpot_of placed (inside.mpr (.inr member))) (ends_ _)⟩

/-- A search that a call spares ends after it at the item at which it ended before. -/
theorem currentSpot_carried {op : LibOp} (performed : lib.perform op = some (next, .ok done))
    (found : lib.currentSpot value = some spot) (spares : lib.Spares value op) :
    ∃ after, lib.carried spot op = some after ∧ next.currentSpot value = some after := by
  cases op with
  | insert name cache =>
    exact ⟨spot, rfl, next_of_performed performed ▸ currentSpot_insert found cache⟩
  | changeActive newActive =>
    refine ⟨spot, rfl, ?_⟩
    rw [← next_of_performed performed, currentSpot_changeActive spares, found]
  | renameStore fromName toName =>
    refine ⟨spot, rfl, ?_⟩
    rw [← next_of_performed performed, currentSpot_renameStore, found]
  | remove name =>
    have listed := listed_of_removed (Option.some.inj performed)
    have both := currentSpot_remove found listed spares
    exact ⟨spot, both.1, next_of_performed performed ▸ both.2⟩
  | removeCacheItem cacheName itemName =>
    exact currentSpot_removeCacheItem found (Option.some.inj performed) spares
  | mergeCache col1 col2 => exact currentSpot_mergeCache found performed spares
  | moveCacheItem source dest itemName => exact currentSpot_moveCacheItem found performed spares
  | insertItem name other loc =>
    exact ⟨spot, rfl, next_of_performed performed ▸ currentSpot_insertItem found other loc⟩
  | setState pos idx state =>
    refine ⟨spot, rfl, ?_⟩
    rw [currentSpot_setState performed, found]

end CacheLib

end Wallchanger
