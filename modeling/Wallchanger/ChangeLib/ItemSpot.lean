import Wallchanger.ChangeLib.LibraryStep
import Wallchanger.Foundation.Position

/-! Where an item of the library stands, and where it stands after a call. -/

namespace Wallchanger

open Foundation

/-- The position of a collection and that of an item in it. -/
structure Spot where
  pos : Nat
  idx : Nat
deriving DecidableEq

namespace CacheLib

def itemAt (lib : CacheLib) (spot : Spot) : Option (CacheItem Bytes) :=
  lib.cacheVec[spot.pos]?.bind (fun store => store.2.list[spot.idx]?)

/-- Where an item stands after a removal from its collection. -/
def carriedByRemoval (lib : CacheLib) (spot : Spot) (cacheName itemName : StringView) : Option Spot :=
  if spot.pos = find lib.cacheVec cacheName.chars then do
    let store ← lib.cacheVec[spot.pos]?
    let idx ← afterErase (store.2.findValue itemName.chars) spot.idx
    return { spot with idx }
  else some spot

/-- Where an item stands after a move. The moved one is behind the items of the
destination, or it is the equal one that was there. -/
def carriedByMove (lib : CacheLib) (spot : Spot) (source dest itemName : StringView) : Option Spot :=
  if spot.pos = find lib.cacheVec source.chars then do
    let src ← lib.cacheVec[spot.pos]?
    let dst ← lib.cacheVec[find lib.cacheVec dest.chars]?
    let item ← src.2.list[spot.idx]?
    if spot.idx = src.2.findValue itemName.chars then
      return { pos := find lib.cacheVec dest.chars, idx := dst.2.list.idxOf item }
    else
      let idx ← afterErase (src.2.findValue itemName.chars) spot.idx
      return { spot with idx }
  else some spot

/-- Where an item stands after a merge: in the merged collection at the end, or with its
own collection, which moves up. -/
def carriedByMerge (lib : CacheLib) (spot : Spot) (col1 col2 : StringView) : Option Spot := do
  let first ← lib.cacheVec[find lib.cacheVec col1.chars]?
  let second ← lib.cacheVec[find lib.cacheVec col2.chars]?
  let merged := mergedPosition (fun left right => !right.less left) first.2.list second.2.list
  if spot.pos = find lib.cacheVec col1.chars then
    return { pos := (lib.without col1.chars col2.chars).length, idx := merged false spot.idx }
  else if spot.pos = find lib.cacheVec col2.chars then
    return { pos := (lib.without col1.chars col2.chars).length, idx := merged true spot.idx }
  else
    let pos ← afterErase (find lib.cacheVec col1.chars) spot.pos
    let pos ← afterErase (find (lib.cacheVec.eraseIdx (find lib.cacheVec col1.chars)) col2.chars) pos
    return { spot with pos }

/-- Where a call that goes through leaves an item; `none` if it takes the item away. -/
def carried (lib : CacheLib) (spot : Spot) : LibOp → Option Spot
  | .remove name => do
    let pos ← afterErase (find lib.cacheVec name.chars) spot.pos
    return { spot with pos }
  | .removeCacheItem cacheName itemName => lib.carriedByRemoval spot cacheName itemName
  | .moveCacheItem source dest itemName => lib.carriedByMove spot source dest itemName
  | .mergeCache col1 col2 => lib.carriedByMerge spot col1 col2
  | .insert _ _ | .changeActive _ | .renameStore _ _ | .insertItem _ _ _ | .setState _ _ _ => some spot

/-- An item by its file, whatever its state. -/
def HasFile (lib : CacheLib) (spot : Spot) (value : Bytes) (loc : UInt32) : Prop :=
  ∃ item, lib.itemAt spot = some item ∧ item.cacheValue = value ∧ item.loc = loc

variable {lib next : CacheLib} {spot after : Spot}

theorem itemAt_eq_some {item : CacheItem Bytes} : lib.itemAt spot = some item ↔
    ∃ store, lib.cacheVec[spot.pos]? = some store ∧ store.2.list[spot.idx]? = some item :=
  Option.bind_eq_some_iff

theorem itemAt_updateAt_ne {name : Bytes} (other : spot.pos ≠ find lib.cacheVec name)
    (change : Cache Bytes → Cache Bytes) : (lib.updateAt name change).itemAt spot = lib.itemAt spot := by
  rw [itemAt, updateAt, List.getElem?_modify_ne _ _ (Ne.symm other)]
  rfl

theorem itemAt_updateAt_eq {name : Bytes} {pos : Nat} {store : CacheStore} (here : pos = find lib.cacheVec name)
    (found : lib.cacheVec[pos]? = some store) (change : Cache Bytes → Cache Bytes) (idx : Nat) :
    (lib.updateAt name change).itemAt { pos, idx } = (change store.2).list[idx]? := by
  rw [itemAt, updateAt, ← here, List.getElem?_modify_eq, found]
  rfl

theorem itemAt_changeActive (newActive : StringView) :
    (lib.changeActive newActive).1.itemAt spot = lib.itemAt spot := by
  unfold changeActive
  split
  · dsimp only
    split <;> rfl
  · rfl

theorem itemAt_renameStore (fromName toName : StringView) :
    (lib.renameStore fromName toName).1.itemAt spot = lib.itemAt spot := by
  rw [renameStore_eq]
  split
  · rfl
  · split
    · rw [itemAt, List.getElem?_modify, itemAt]
      cases lib.cacheVec[spot.pos]? with
      | none => rfl
      | some store =>
        by_cases here : find lib.cacheVec fromName.chars = spot.pos
        · simp [here]
        · simp [here]
    · rfl

theorem itemAt_remove {name : StringView} (listed : name.chars ∈ lib.names)
    (kept : lib.carried spot (.remove name) = some after) :
    (lib.remove name).1.itemAt after = lib.itemAt spot := by
  obtain ⟨pos, moved, same⟩ := Option.bind_eq_some_iff.mp kept
  cases same
  rw [remove_eq, if_pos listed, itemAt, itemAt, getElem?_afterErase moved]

theorem itemAt_removeCacheItem {cacheName itemName : StringView}
    (removed : lib.removeCacheItem cacheName itemName = (next, .ok done))
    (kept : lib.carriedByRemoval spot cacheName itemName = some after) :
    next.itemAt after = lib.itemAt spot := by
  rcases lib.removeCacheItem_cases cacheName itemName with
    ⟨_, error, failed⟩ | ⟨cache, found, ⟨_, outcome⟩ | ⟨_, outcome⟩⟩
  · rw [removed] at failed
    cases failed
  · cases outcome.symm.trans removed
  · cases outcome.symm.trans removed
    unfold carriedByRemoval at kept
    split at kept
    · rename_i here
      rw [← here] at found
      obtain ⟨store, there, kept⟩ := Option.bind_eq_some_iff.mp kept
      obtain ⟨idx, moved, same⟩ := Option.bind_eq_some_iff.mp kept
      cases same
      cases Option.some.inj (found.symm.trans there)
      rw [itemAt_updateAt_eq here found, itemAt, found]
      exact getElem?_afterErase moved _
    · rename_i other
      cases kept
      exact itemAt_updateAt_ne other _

theorem itemAt_mergeCache {col1 col2 : StringView} {item : CacheItem Bytes}
    (merged : lib.mergeCache col1 col2 = some (next, .ok done))
    (kept : lib.carriedByMerge spot col1 col2 = some after) (there : lib.itemAt spot = some item) :
    next.itemAt after = some item := by
  obtain ⟨first, second, found1, found2, outcome⟩ := mergeCache_of_mergeable (mergeable_of_ok merged)
  cases outcome.symm.trans merged
  obtain ⟨store, place, inside⟩ := itemAt_eq_some.mp there
  simp only [carriedByMerge, found1, found2, Option.bind_eq_bind, Option.bind_some] at kept
  split at kept
  · rename_i here
    cases kept
    cases found1.symm.trans (here ▸ place)
    rw [itemAt, List.getElem?_concat_length]
    exact getElem?_mergedPosition _ inside
  · split at kept
    · rename_i here
      cases kept
      cases found2.symm.trans (here ▸ place)
      rw [itemAt, List.getElem?_concat_length]
      exact getElem?_mergedPosition _ inside
    · obtain ⟨middle, moved1, kept⟩ := Option.bind_eq_some_iff.mp kept
      obtain ⟨pos, moved2, kept⟩ := Option.bind_eq_some_iff.mp kept
      cases kept
      have stays : (lib.without col1.chars col2.chars)[pos]? = some store := by
        rw [without, getElem?_afterErase moved2, getElem?_afterErase moved1, place]
      have bound := (List.getElem?_eq_some_iff.mp stays).1
      rw [itemAt, List.getElem?_append_left bound, stays]
      exact inside

theorem insert_grows (value : Bytes) (loc : UInt32) (cache : Cache Bytes) :
    ∃ more, (cache.insert value loc).list = cache.list ++ more := by
  unfold Cache.insert
  split
  · exact ⟨_, rfl⟩
  · exact ⟨[], (List.append_nil _).symm⟩

theorem insertElem_grows (item : CacheItem Bytes) (cache : Cache Bytes) :
    ∃ more, (cache.insertElem item).list = cache.list ++ more := by
  unfold Cache.insertElem
  split
  · exact ⟨_, rfl⟩
  · exact ⟨[], (List.append_nil _).symm⟩

/-- Both kinds of insertion leave the items that are there in their places. -/
theorem itemAt_updateAt_append {name : Bytes} {change : Cache Bytes → Cache Bytes} {item : CacheItem Bytes}
    (grows : ∀ cache, ∃ more, (change cache).list = cache.list ++ more)
    (there : lib.itemAt spot = some item) : (lib.updateAt name change).itemAt spot = some item := by
  by_cases here : spot.pos = find lib.cacheVec name
  · obtain ⟨store, found, inside⟩ := itemAt_eq_some.mp there
    obtain ⟨more, grown⟩ := grows store.2
    have bound := (List.getElem?_eq_some_iff.mp inside).1
    exact (itemAt_updateAt_eq here found _ _).trans
      (grown ▸ (List.getElem?_append_left bound).trans inside)
  · rw [itemAt_updateAt_ne here, there]

theorem getElem?_idxOf_insertElem (cache : Cache Bytes) (item : CacheItem Bytes) :
    (cache.insertElem item).list[cache.list.idxOf item]? = some item := by
  unfold Cache.insertElem
  split
  · rename_i absent
    rw [List.idxOf_eq_length absent]
    exact List.getElem?_concat_length
  · rename_i present
    exact List.getElem?_idxOf (not_not.mp present)

/-- In the source of a move the first item of the value is the one that goes. -/
theorem itemAt_moveCacheItem {source dest itemName : StringView} {item : CacheItem Bytes}
    (moved : lib.moveCacheItem source dest itemName = some (next, .ok done))
    (kept : lib.carriedByMove spot source dest itemName = some after) (there : lib.itemAt spot = some item) :
    next.itemAt after = some item := by
  rcases moveCacheItem_cases moved with
    ⟨_, _, failed⟩ | ⟨different, other, listed, src, moving, found, contained, located⟩
  · cases failed
  · cases (moveCacheItem_updates different other found listed contained located).symm.trans moved
    obtain ⟨dst, target⟩ := collection_of_mem listed
    have goal : lib.cacheVec[find lib.cacheVec dest.chars]? = some (dest.chars, dst) := target
    have places := Collection.apart found different
    have sourcePlace := find_updateAt lib dest.chars source.chars (·.insertElem moving)
    obtain ⟨store, place, inside⟩ := itemAt_eq_some.mp there
    unfold carriedByMove at kept
    split at kept
    · rename_i here
      rw [here, found] at place
      cases place
      simp only [here, found, goal, inside, Option.bind_eq_bind, Option.bind_some] at kept
      split at kept
      · rename_i first
        rw [first, located] at inside
        cases inside
        cases kept
        rw [itemAt_updateAt_ne (sourcePlace.symm ▸ Ne.symm places), itemAt_updateAt_eq rfl target]
        exact getElem?_idxOf_insertElem dst item
      · obtain ⟨idx, shifted, kept⟩ := Option.bind_eq_some_iff.mp kept
        cases kept
        have still : (lib.updateAt dest.chars (·.insertElem moving)).cacheVec[find lib.cacheVec source.chars]? =
            some (source.chars, src) := sourcePlace ▸ Collection.updateAt_ne found different _
        rw [itemAt_updateAt_eq sourcePlace.symm still]
        exact (getElem?_afterErase shifted src.list).trans inside
    · rename_i elsewhere
      cases kept
      rw [itemAt_updateAt_ne (sourcePlace.symm ▸ elsewhere)]
      exact itemAt_updateAt_append (insertElem_grows moving) there

theorem itemAt_insertItem {name : Bytes} {item : CacheItem Bytes} (there : lib.itemAt spot = some item)
    (value : Bytes) (loc : UInt32) : (lib.insertItem name value loc).1.itemAt spot = some item := by
  unfold insertItem
  split
  · exact itemAt_updateAt_append (insert_grows value loc) there
  · exact there

theorem itemAt_insert {name : Bytes} {item : CacheItem Bytes} (there : lib.itemAt spot = some item)
    (value : Cache Bytes) : (lib.insert name value).1.itemAt spot = some item := by
  rw [insert_eq]
  split
  · exact there
  · obtain ⟨store, found, inside⟩ := itemAt_eq_some.mp there
    have bound := (List.getElem?_eq_some_iff.mp found).1
    rw [itemAt, List.getElem?_append_left bound, found]
    exact inside

theorem HasFile.of_itemAt {value : Bytes} {loc : UInt32} (there : lib.HasFile spot value loc)
    (kept : ∀ item, lib.itemAt spot = some item → next.itemAt after = some item) :
    next.HasFile after value loc := by
  obtain ⟨item, found, file⟩ := there
  exact ⟨item, kept item found, file⟩

theorem hasFile_setState {value : Bytes} {loc : UInt32} {pos idx : Nat} {state : CacheState}
    (there : lib.HasFile spot value loc) (performed : lib.setState pos idx state = some (next, result)) :
    next.HasFile spot value loc := by
  obtain ⟨_, _, _, rfl⟩ := setState_cases performed
  obtain ⟨item, found, named, located⟩ := there
  obtain ⟨store, place, inside⟩ := itemAt_eq_some.mp found
  by_cases here : pos = spot.pos
  · subst here
    refine ⟨if idx = spot.idx then { item with cacheState := state } else item, ?_, ?_, ?_⟩
    · rw [itemAt, List.getElem?_modify_eq, place]
      change (store.2.list.modify idx _)[spot.idx]? = _
      rw [List.getElem?_modify, inside]
      rfl
    · split <;> exact named
    · split <;> exact located
  · refine ⟨item, ?_, named, located⟩
    simp only [itemAt, List.getElem?_modify_ne _ _ here, place, Option.bind_some]
    exact inside

/-- An item is followed rightly through every call that goes through. -/
theorem hasFile_carried {op : LibOp} {value : Bytes} {loc : UInt32}
    (performed : lib.perform op = some (next, .ok done)) (kept : lib.carried spot op = some after)
    (there : lib.HasFile spot value loc) : next.HasFile after value loc := by
  cases op with
  | insert name cache =>
    cases kept
    exact there.of_itemAt (fun item found => next_of_performed performed ▸ itemAt_insert found cache)
  | changeActive newActive =>
    cases kept
    refine there.of_itemAt (fun item found => ?_)
    rw [← next_of_performed performed, itemAt_changeActive, found]
  | renameStore fromName toName =>
    cases kept
    refine there.of_itemAt (fun item found => ?_)
    rw [← next_of_performed performed, itemAt_renameStore, found]
  | remove name =>
    refine there.of_itemAt (fun item found => ?_)
    have listed := listed_of_removed (Option.some.inj performed)
    rw [← next_of_performed performed, itemAt_remove listed kept, found]
  | removeCacheItem cacheName itemName =>
    refine there.of_itemAt (fun item found => ?_)
    rw [itemAt_removeCacheItem (Option.some.inj performed) kept, found]
  | mergeCache col1 col2 => exact there.of_itemAt (fun _ found => itemAt_mergeCache performed kept found)
  | moveCacheItem source dest itemName =>
    exact there.of_itemAt (fun _ found => itemAt_moveCacheItem performed kept found)
  | insertItem name other loc' =>
    cases kept
    exact there.of_itemAt (fun item found => next_of_performed performed ▸ itemAt_insertItem found other loc')
  | setState pos idx state =>
    cases kept
    exact hasFile_setState there performed

end CacheLib

end Wallchanger
