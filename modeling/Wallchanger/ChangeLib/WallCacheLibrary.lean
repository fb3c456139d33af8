import Wallchanger.ChangeLib.WallCache
import Wallchanger.Foundation.Keyed

/-! `wall_cache_library.cpp`: the collections, in the order they were made, and the
active one, kept as an index and as a name. An operation returns the library it
leaves, errors included, because a failed lookup may still set a flag. -/

namespace Wallchanger

open Foundation

/-- `wall_errc`, the codes of the errors. -/
inductive WallErrc where
  | success
  | cacheDoesNotExists
  | cacheExists
  | cacheFrmCacheToSame
  | cacheElemNotExists
  | cacheNameItemNameSame
deriving DecidableEq

abbrev CacheStore := Bytes × Cache Bytes

/-- `std::expected<bool, std::error_code>`. -/
abbrev Expected := Except WallErrc Bool

structure CacheLib where
  cacheVec : List CacheStore := []
  current : UInt32 := 0
  activeName : Bytes := []
deriving DecidableEq

/-- `std::ranges::merge` as its two-pointer loop: the second range supplies the
next item only where it is less than the first range's. -/
def rangesMerge (first second : List (CacheItem Bytes)) : List (CacheItem Bytes) :=
  first.merge second (fun left right => !right.less left)

namespace CacheLib

def activeCacheName (lib : CacheLib) : Bytes := lib.activeName

/-- `get_current() const`; `none` where the index is past the end. -/
def getCurrent (lib : CacheLib) : Option (List (CacheItem Bytes)) :=
  lib.cacheVec[lib.current.toNat]?.map (fun store => store.2.list)

/-- The mutable `get_current()`, which takes a mutable iterator to the items. -/
def getCurrentMut (lib : CacheLib) : Option (CacheLib × List (CacheItem Bytes)) :=
  lib.cacheVec[lib.current.toNat]?.map (fun store =>
    ({ lib with cacheVec := lib.cacheVec.modify lib.current.toNat (Prod.map id Cache.begin) },
      store.2.list))

def isEmpty (lib : CacheLib) : Bool := lib.cacheVec.isEmpty

/-- `exists`: looks the name up and compares the name found. -/
def existsCache (lib : CacheLib) (name : Bytes) : Bool :=
  if !lib.isEmpty then
    match lib.cacheVec[find lib.cacheVec name]? with
    | some store => store.1 == name
    | none => false
  else false

def insert (lib : CacheLib) (name : Bytes) (value : Cache Bytes) : CacheLib × Expected :=
  if !lib.existsCache name then
    ({ lib with cacheVec := lib.cacheVec ++ [(name, value)] }, .ok true)
  else (lib, .error .cacheDoesNotExists)

def getCache (lib : CacheLib) (name : StringView) : Except WallErrc (List (CacheItem Bytes)) :=
  if lib.existsCache name.chars then
    match lib.cacheVec[find lib.cacheVec name.chars]? with
    | some store => .ok store.2.list
    | none => .error .cacheDoesNotExists
  else .error .cacheDoesNotExists

/-- The mutable `get_cache`, which takes the mutable pointer to the items. -/
def getCacheMut (lib : CacheLib) (name : StringView) :
    Except WallErrc (CacheLib × List (CacheItem Bytes)) :=
  if lib.existsCache name.chars then
    let itr := find lib.cacheVec name.chars
    match lib.cacheVec[itr]? with
    | some store => .ok ({ lib with cacheVec := lib.cacheVec.modify itr (Prod.map id Cache.data) },
        store.2.list)
    | none => .error .cacheDoesNotExists
  else .error .cacheDoesNotExists

/-- `static_cast<u32>` of the distance truncates it, for the name as for the index. -/
def changeActive (lib : CacheLib) (newActive : StringView) : CacheLib × Expected :=
  if lib.existsCache newActive.chars then
    let pos := UInt32.ofNat (find lib.cacheVec newActive.chars)
    match lib.cacheVec[pos.toNat]? with
    | some store => ({ lib with activeName := store.1, current := pos }, .ok true)
    | none => (lib, .ok true)
  else (lib, .error .cacheDoesNotExists)

def renameStore (lib : CacheLib) (fromName toName : StringView) : CacheLib × Expected :=
  if fromName.chars ≠ toName.chars then
    if lib.existsCache fromName.chars && !lib.existsCache toName.chars then
      ({ lib with
          cacheVec := lib.cacheVec.modify (find lib.cacheVec fromName.chars)
            (fun store => (toName.chars, store.2))
          activeName := if fromName.chars = lib.activeName then toName.chars else lib.activeName },
        .ok true)
    else (lib, .error .cacheDoesNotExists)
  else (lib, .error .cacheFrmCacheToSame)

def remove (lib : CacheLib) (name : StringView) : CacheLib × Expected :=
  if lib.existsCache name.chars then
    ({ lib with cacheVec := lib.cacheVec.eraseIdx (find lib.cacheVec name.chars) }, .ok true)
  else (lib, .error .cacheDoesNotExists)

/-- Searching the items takes mutable iterators, so even a miss sets the flag. -/
def removeCacheItem (lib : CacheLib) (cacheName itemName : StringView) : CacheLib × Expected :=
  if cacheName.chars ≠ itemName.chars then
    if lib.existsCache cacheName.chars then
      let rngCache := find lib.cacheVec cacheName.chars
      match lib.cacheVec[rngCache]? with
      | some store =>
        let itm := store.2.findValue itemName.chars
        if itm ≠ store.2.size then
          ({ lib with cacheVec := lib.cacheVec.modify rngCache (Prod.map id (·.erase itm)) }, .ok true)
        else
          ({ lib with cacheVec := lib.cacheVec.modify rngCache (Prod.map id Cache.begin) },
            .error .cacheElemNotExists)
      | none => (lib, .error .cacheElemNotExists)
    else (lib, .error .cacheDoesNotExists)
  else (lib, .error .cacheNameItemNameSame)

/-- `modified`: the search result is dereferenced unchecked, `none` where no
collection is flagged and the end iterator would be read. -/
def modified (lib : CacheLib) : Option Bool :=
  if !lib.isEmpty then
    (lib.cacheVec.find? (fun store => store.2.modified)).map (fun store => store.2.modified)
  else some false

def cacheList (lib : CacheLib) : List Bytes := lib.cacheVec.map Prod.fst

/-- `merge_cache`: the new entry is named by `col1.data()` read as a C string. -/
def mergeCache (lib : CacheLib) (col1 col2 : StringView) : Option (CacheLib × Expected) :=
  if col1.chars ≠ col2.chars then
    if lib.existsCache col1.chars && lib.existsCache col2.chars then do
      let store1 ← lib.cacheVec[find lib.cacheVec col1.chars]?
      let store2 ← lib.cacheVec[find lib.cacheVec col2.chars]?
      let newStore : CacheStore := (col1.data,
        ((Cache.ofSize (store1.2.size + store2.2.size)).begin).overwrite
          (rangesMerge store1.2.list store2.2.list))
      let rest := ((lib.remove col1).1.remove col2).1
      return ({ rest with cacheVec := rest.cacheVec ++ [newStore] }, .ok true)
    else return (lib, .error .cacheDoesNotExists)
  else return (lib, .error .cacheFrmCacheToSame)

/-- `move_cache_item`: `contains` reads `item_name.data()` as a C string while the
search compares the view, so the iterator moved from may be the end (`none`). -/
def moveCacheItem (lib : CacheLib) (source dest itemName : StringView) :
    Option (CacheLib × Expected) :=
  if source.chars ≠ dest.chars ∧ dest.chars ≠ itemName.chars then
    if lib.existsCache source.chars && lib.existsCache dest.chars then do
      let src := find lib.cacheVec source.chars
      let dst := find lib.cacheVec dest.chars
      let store ← lib.cacheVec[src]?
      if store.2.contains itemName.data then
        let itm := store.2.findValue itemName.chars
        let item ← store.2.list[itm]?
        return ({ lib with
          cacheVec := (lib.cacheVec.modify dst (Prod.map id (·.insertElem item))).modify src
            (Prod.map id (·.erase itm)) }, .ok true)
      else return (lib, .error .cacheElemNotExists)
    else return (lib, .error .cacheDoesNotExists)
  else return (lib, .error .cacheFrmCacheToSame)

/-- A change made through `operator[]`, to the first entry with the name. -/
def updateAt (lib : CacheLib) (name : Bytes) (change : Cache Bytes → Cache Bytes) : CacheLib :=
  { lib with cacheVec := lib.cacheVec.modify (find lib.cacheVec name) (Prod.map id change) }

/-! ### What the operations compute -/

/-- The names of the collections, in order. -/
def names (lib : CacheLib) : List Bytes := keys lib.cacheVec

@[simp] theorem cacheList_eq (lib : CacheLib) : lib.cacheList = lib.names := rfl

@[simp] theorem existsCache_iff (lib : CacheLib) (name : Bytes) :
    lib.existsCache name = true ↔ name ∈ lib.names := by
  constructor
  · intro present
    unfold existsCache at present
    split at present
    · split at present
      · rename_i store found
        rw [← beq_iff_eq.mp present]
        exact mem_keys_of_getElem? found
      · simp at present
    · simp at present
  · intro member
    obtain ⟨cache, found⟩ := entry_at_find member
    have nonempty : lib.isEmpty = false := by
      unfold isEmpty
      cases entries : lib.cacheVec with
      | nil => simp [entries] at found
      | cons => rfl
    simp [existsCache, nonempty, found]

theorem existsCache_eq_false (lib : CacheLib) (name : Bytes) :
    lib.existsCache name = false ↔ name ∉ lib.names := by
  rw [← existsCache_iff, Bool.not_eq_true]

/-- The condition under which `merge_cache` goes through. -/
def Mergeable (lib : CacheLib) (col1 col2 : StringView) : Prop :=
  col1.chars ≠ col2.chars ∧ col1.chars ∈ lib.names ∧ col2.chars ∈ lib.names

theorem insert_eq (lib : CacheLib) (name : Bytes) (value : Cache Bytes) :
    lib.insert name value =
      if name ∈ lib.names then (lib, .error .cacheDoesNotExists)
      else ({ lib with cacheVec := lib.cacheVec ++ [(name, value)] }, .ok true) := by
  by_cases member : name ∈ lib.names
  · simp [insert, member]
  · simp [insert, member, (lib.existsCache_eq_false name).mpr member]

theorem renameStore_eq (lib : CacheLib) (fromName toName : StringView) :
    lib.renameStore fromName toName =
      if fromName.chars = toName.chars then (lib, .error .cacheFrmCacheToSame)
      else if fromName.chars ∈ lib.names ∧ toName.chars ∉ lib.names then
        ({ lib with
            cacheVec := lib.cacheVec.modify (find lib.cacheVec fromName.chars)
              (fun store => (toName.chars, store.2))
            activeName := if fromName.chars = lib.activeName then toName.chars else lib.activeName },
          .ok true)
      else (lib, .error .cacheDoesNotExists) := by
  by_cases same : fromName.chars = toName.chars
  · simp [renameStore, same]
  · by_cases guard : fromName.chars ∈ lib.names ∧ toName.chars ∉ lib.names
    · simp [renameStore, same, guard.1, guard.2, (lib.existsCache_eq_false _).mpr guard.2]
    · rw [if_neg same, if_neg guard, renameStore, if_pos same, if_neg]
      simpa [existsCache_eq_false] using guard

theorem remove_eq (lib : CacheLib) (name : StringView) :
    lib.remove name =
      if name.chars ∈ lib.names then
        ({ lib with cacheVec := lib.cacheVec.eraseIdx (find lib.cacheVec name.chars) }, .ok true)
      else (lib, .error .cacheDoesNotExists) := by
  by_cases member : name.chars ∈ lib.names <;> simp [remove, member]

theorem listed_of_removed {lib next : CacheLib} {name : StringView}
    (removed : lib.remove name = (next, .ok done)) : name.chars ∈ lib.names := by
  by_cases listed : name.chars ∈ lib.names
  · exact listed
  · rw [remove_eq, if_neg listed] at removed
    cases removed

/-- The merging loop fills the pre-sized list exactly: no default item is left. -/
theorem overwrite_merged (first second : Cache Bytes) :
    ((Cache.ofSize (first.size + second.size)).begin).overwrite
        (rangesMerge first.list second.list) =
      { list := rangesMerge first.list second.list, modified := true } := by
  have size : (rangesMerge first.list second.list).length = first.size + second.size :=
    List.length_merge ..
  simp [Cache.overwrite, Cache.begin, Cache.ofSize, size]

/-- The entries left when the first matches of two names are taken out. -/
def without (lib : CacheLib) (name1 name2 : Bytes) : List CacheStore :=
  (lib.cacheVec.eraseIdx (find lib.cacheVec name1)).eraseIdx
    (find (lib.cacheVec.eraseIdx (find lib.cacheVec name1)) name2)

theorem keys_without (lib : CacheLib) (name1 name2 : Bytes) :
    keys (lib.without name1 name2) = (lib.names.erase name1).erase name2 := by
  rw [without, keys_erase_find, keys_erase_find]
  rfl

/-- A successful merge: both lists run together at the end of the library. -/
theorem mergeCache_of_mergeable {lib : CacheLib} {col1 col2 : StringView}
    (mergeable : lib.Mergeable col1 col2) :
    ∃ first second,
      lib.cacheVec[find lib.cacheVec col1.chars]? = some (col1.chars, first) ∧
      lib.cacheVec[find lib.cacheVec col2.chars]? = some (col2.chars, second) ∧
      lib.mergeCache col1 col2 = some ({ lib with
        cacheVec := lib.without col1.chars col2.chars ++
          [(col1.data, { list := rangesMerge first.list second.list, modified := true })] },
        .ok true) := by
  have ⟨different, member1, member2⟩ := mergeable
  obtain ⟨first, found1⟩ := entry_at_find member1
  obtain ⟨second, found2⟩ := entry_at_find member2
  refine ⟨first, second, found1, found2, ?_⟩
  have left : (lib.remove col1).1 =
      { lib with cacheVec := lib.cacheVec.eraseIdx (find lib.cacheVec col1.chars) } := by
    rw [remove_eq, if_pos member1]
  have still : col2.chars ∈ (lib.remove col1).1.names := by
    rw [left, names, keys_erase_find]
    exact (List.mem_erase_of_ne (Ne.symm different)).mpr member2
  have both : ((lib.remove col1).1.remove col2).1 =
      { lib with cacheVec := lib.without col1.chars col2.chars } := by
    rw [remove_eq, if_pos still, left]
    rfl
  simp only [mergeCache, if_pos different, (lib.existsCache_iff _).mpr member1,
    (lib.existsCache_iff _).mpr member2, Bool.and_self, if_true, found1, found2,
    overwrite_merged, both]
  rfl

theorem mergeCache_of_not_mergeable {lib : CacheLib} {col1 col2 : StringView}
    (blocked : ¬ lib.Mergeable col1 col2) :
    ∃ error, lib.mergeCache col1 col2 = some (lib, .error error) := by
  by_cases same : col1.chars = col2.chars
  · exact ⟨.cacheFrmCacheToSame, by simp [mergeCache, same]⟩
  · refine ⟨.cacheDoesNotExists, ?_⟩
    have missing : ¬ (lib.existsCache col1.chars && lib.existsCache col2.chars) = true := by
      intro both
      have ⟨one, two⟩ := Bool.and_eq_true_iff.mp both
      exact blocked ⟨same, (lib.existsCache_iff _).mp one, (lib.existsCache_iff _).mp two⟩
    rw [mergeCache, if_pos same, if_neg missing]
    rfl

theorem mergeable_of_ok {lib next : CacheLib} {col1 col2 : StringView}
    (merged : lib.mergeCache col1 col2 = some (next, .ok done)) : lib.Mergeable col1 col2 := by
  by_cases mergeable : lib.Mergeable col1 col2
  · exact mergeable
  · obtain ⟨_, failed⟩ := mergeCache_of_not_mergeable mergeable
    cases failed.symm.trans merged

/-- A successful move: the first item of that value goes from the one collection to
the other, which may refuse it. -/
theorem moveCacheItem_of {lib : CacheLib} {source dest itemName : StringView} {cache : Cache Bytes}
    {item : CacheItem Bytes} (different : source.chars ≠ dest.chars)
    (other : dest.chars ≠ itemName.chars)
    (found : lib.cacheVec[find lib.cacheVec source.chars]? = some (source.chars, cache))
    (listed : dest.chars ∈ lib.names) (contained : itemName.data ∈ cache.values)
    (located : cache.list[cache.findValue itemName.chars]? = some item) :
    lib.moveCacheItem source dest itemName = some ({ lib with
      cacheVec := (lib.cacheVec.modify (find lib.cacheVec dest.chars)
        (Prod.map id (·.insertElem item))).modify (find lib.cacheVec source.chars)
        (Prod.map id (·.erase (cache.findValue itemName.chars))) }, .ok true) := by
  have one := (lib.existsCache_iff source.chars).mpr (mem_keys_of_getElem? found)
  have two := (lib.existsCache_iff dest.chars).mpr listed
  have three := (cache.contains_iff itemName.data).mpr contained
  rw [moveCacheItem, if_pos ⟨different, other⟩, one, two]
  simp only [Bool.and_self, if_true, found, Option.bind_eq_bind, Option.bind_some, three, located]
  rfl

/-- What a defined `move_cache_item` does: report an error and nothing else, or carry
an item over. -/
theorem moveCacheItem_cases {lib next : CacheLib} {source dest itemName : StringView}
    (moved : lib.moveCacheItem source dest itemName = some (next, result)) :
    (next = lib ∧ ∃ error, result = .error error) ∨
    (source.chars ≠ dest.chars ∧ dest.chars ≠ itemName.chars ∧ dest.chars ∈ lib.names ∧
      ∃ cache item, lib.cacheVec[find lib.cacheVec source.chars]? = some (source.chars, cache) ∧
        itemName.data ∈ cache.values ∧
        cache.list[cache.findValue itemName.chars]? = some item) := by
  unfold moveCacheItem at moved
  split at moved
  · rename_i guard
    split at moved
    · rename_i both
      have two := (Bool.and_eq_true_iff.mp both).2
      obtain ⟨store, found, moved⟩ := Option.bind_eq_some_iff.mp moved
      split at moved
      · rename_i contained
        obtain ⟨item, located, _⟩ := Option.bind_eq_some_iff.mp moved
        refine .inr ⟨guard.1, guard.2, (lib.existsCache_iff _).mp two, store.2, item, ?_,
          (store.2.contains_iff _).mp contained, located⟩
        exact found.trans (congrArg some (Prod.ext (key_at_find found) rfl))
      · obtain ⟨rfl, rfl⟩ := Prod.mk.inj (Option.some.inj moved)
        exact .inl ⟨rfl, _, rfl⟩
    · obtain ⟨rfl, rfl⟩ := Prod.mk.inj (Option.some.inj moved)
      exact .inl ⟨rfl, _, rfl⟩
  · obtain ⟨rfl, rfl⟩ := Prod.mk.inj (Option.some.inj moved)
    exact .inl ⟨rfl, _, rfl⟩

theorem removeCacheItem_of_same {lib : CacheLib} {cacheName itemName : StringView}
    (same : cacheName.chars = itemName.chars) :
    lib.removeCacheItem cacheName itemName = (lib, .error .cacheNameItemNameSame) := by
  rw [removeCacheItem, if_neg (not_not.mpr same)]

theorem removeCacheItem_of_missing {lib : CacheLib} {cacheName itemName : StringView}
    (different : cacheName.chars ≠ itemName.chars) (missing : cacheName.chars ∉ lib.names) :
    lib.removeCacheItem cacheName itemName = (lib, .error .cacheDoesNotExists) := by
  have absent : ¬ lib.existsCache cacheName.chars = true :=
    fun present => missing ((lib.existsCache_iff _).mp present)
  rw [removeCacheItem, if_pos different, if_neg absent]

/-- In a collection the first match is erased; a miss sets the flag. -/
theorem removeCacheItem_of_found {lib : CacheLib} {cacheName itemName : StringView} {cache : Cache Bytes}
    (different : cacheName.chars ≠ itemName.chars)
    (found : lib.cacheVec[find lib.cacheVec cacheName.chars]? = some (cacheName.chars, cache)) :
    lib.removeCacheItem cacheName itemName =
      if itemName.chars ∈ cache.values then
        (lib.updateAt cacheName.chars (·.erase (cache.findValue itemName.chars)), .ok true)
      else (lib.updateAt cacheName.chars Cache.begin, .error .cacheElemNotExists) := by
  have present := (lib.existsCache_iff cacheName.chars).mpr (mem_keys_of_getElem? found)
  rw [removeCacheItem, if_pos different, if_pos present]
  simp only [found]
  by_cases member : itemName.chars ∈ cache.values
  · have inside := (cache.contains_iff itemName.chars).mpr member
    simp only [Cache.contains, decide_eq_true_eq] at inside
    rw [if_pos inside, if_pos member]
    rfl
  · have outside := (cache.contains_eq_false itemName.chars).mpr member
    simp only [Cache.contains, decide_eq_false_iff_not] at outside
    rw [if_neg outside, if_neg member]
    rfl

/-- What `remove_cache_item` does: nothing, set a flag, or erase the first match. -/
theorem removeCacheItem_cases (lib : CacheLib) (cacheName itemName : StringView) :
    ((lib.removeCacheItem cacheName itemName).1 = lib ∧
      ∃ error, (lib.removeCacheItem cacheName itemName).2 = .error error) ∨
    (∃ cache, lib.cacheVec[find lib.cacheVec cacheName.chars]? = some (cacheName.chars, cache) ∧
      ((itemName.chars ∉ cache.values ∧ lib.removeCacheItem cacheName itemName =
          (lib.updateAt cacheName.chars Cache.begin, .error .cacheElemNotExists)) ∨
        (itemName.chars ∈ cache.values ∧ lib.removeCacheItem cacheName itemName =
          (lib.updateAt cacheName.chars (·.erase (cache.findValue itemName.chars)), .ok true)))) := by
  by_cases same : cacheName.chars = itemName.chars
  · rw [removeCacheItem_of_same same]
    exact .inl ⟨rfl, _, rfl⟩
  by_cases listed : cacheName.chars ∈ lib.names
  · obtain ⟨cache, found⟩ := entry_at_find listed
    refine .inr ⟨cache, found, ?_⟩
    rw [removeCacheItem_of_found same found]
    by_cases member : itemName.chars ∈ cache.values
    · exact .inr ⟨member, if_pos member⟩
    · exact .inl ⟨member, if_neg member⟩
  · rw [removeCacheItem_of_missing same listed]
    exact .inl ⟨rfl, _, rfl⟩

/-! ### Collections by name -/

/-- The collection a lookup by name finds. -/
def Collection (lib : CacheLib) (name : Bytes) (cache : Cache Bytes) : Prop :=
  lib.cacheVec[find lib.cacheVec name]? = some (name, cache)

theorem collection_of_mem {lib : CacheLib} {name : Bytes} (member : name ∈ lib.names) :
    ∃ cache, lib.Collection name cache := entry_at_find member

theorem Collection.mem {lib : CacheLib} {name : Bytes} {cache : Cache Bytes}
    (found : lib.Collection name cache) : (name, cache) ∈ lib.cacheVec := List.mem_of_getElem? found

theorem Collection.unique {lib : CacheLib} {name : Bytes} {cache other : Cache Bytes}
    (found : lib.Collection name cache) (again : lib.Collection name other) : cache = other :=
  congrArg Prod.snd (Option.some.inj (found.symm.trans again))

theorem Collection.listed {lib : CacheLib} {name : Bytes} {cache : Cache Bytes}
    (found : lib.Collection name cache) : name ∈ lib.names := mem_keys_of_getElem? found

/-- Different names are found at different places. -/
theorem Collection.apart {lib : CacheLib} {name other : Bytes} {cache : Cache Bytes}
    (found : lib.Collection name cache) (different : name ≠ other) :
    find lib.cacheVec name ≠ find lib.cacheVec other := by
  intro same
  unfold Collection at found
  rw [same] at found
  exact different (key_at_find found)

theorem find_updateAt (lib : CacheLib) (name other : Bytes) (change : Cache Bytes → Cache Bytes) :
    find (lib.updateAt name change).cacheVec other = find lib.cacheVec other := by
  have same : keys (lib.updateAt name change).cacheVec = keys lib.cacheVec :=
    keys_modify_value _ _ _ (fun _ => rfl)
  rw [find_eq_idxOf, find_eq_idxOf, same]

theorem collection_updateAt {lib : CacheLib} {name : Bytes} {cache : Cache Bytes}
    (found : lib.Collection name cache) (change : Cache Bytes → Cache Bytes) :
    (lib.updateAt name change).Collection name (change cache) := by
  unfold Collection at found ⊢
  rw [find_updateAt]
  simp [updateAt, found]

/-- A change to one collection leaves the others. -/
theorem Collection.updateAt_ne {lib : CacheLib} {name other : Bytes} {cache : Cache Bytes}
    (found : lib.Collection name cache) (different : name ≠ other) (change : Cache Bytes → Cache Bytes) :
    (lib.updateAt other change).Collection name cache := by
  rw [Collection, find_updateAt]
  exact (List.getElem?_modify_ne _ _ (Ne.symm (found.apart different))).trans found

theorem updateAt_updateAt (lib : CacheLib) (name : Bytes) (first second : Cache Bytes → Cache Bytes) :
    (lib.updateAt name first).updateAt name second = lib.updateAt name (fun cache => second (first cache)) := by
  have place := find_updateAt lib name name first
  unfold updateAt at place ⊢
  dsimp only at place ⊢
  rw [place, List.modify_modify_eq]
  rfl

/-- A successful move, as two changes by name. -/
theorem moveCacheItem_updates {lib : CacheLib} {source dest itemName : StringView} {cache : Cache Bytes}
    {item : CacheItem Bytes} (different : source.chars ≠ dest.chars)
    (other : dest.chars ≠ itemName.chars) (found : lib.Collection source.chars cache)
    (listed : dest.chars ∈ lib.names) (contained : itemName.data ∈ cache.values)
    (located : cache.list[cache.findValue itemName.chars]? = some item) :
    lib.moveCacheItem source dest itemName = some ((lib.updateAt dest.chars (·.insertElem item)).updateAt
      source.chars (·.erase (cache.findValue itemName.chars)), .ok true) := by
  have place := find_updateAt lib dest.chars source.chars (·.insertElem item)
  rw [moveCacheItem_of different other found listed contained located, updateAt.eq_1 (updateAt _ _ _), place]
  rfl

/-- What `get_cache` gives of a collection; the pointer it takes flags the collection. -/
theorem getCacheMut_of_collection {lib : CacheLib} {cache : Cache Bytes} (name : StringView)
    (found : lib.Collection name.chars cache) :
    lib.getCacheMut name = .ok (lib.updateAt name.chars Cache.data, cache.list) := by
  have listed := (lib.existsCache_iff name.chars).mpr found.listed
  unfold Collection at found
  simp only [getCacheMut, if_pos listed, found]
  rfl

theorem getCacheMut_of_not_mem {lib : CacheLib} (name : StringView) (absent : name.chars ∉ lib.names) :
    lib.getCacheMut name = .error .cacheDoesNotExists := by
  have missing : ¬ lib.existsCache name.chars = true := fun listed => absent ((lib.existsCache_iff _).mp listed)
  rw [getCacheMut, if_neg missing]

/-- Merging always has an outcome. -/
theorem mergeCache_defined (lib : CacheLib) (col1 col2 : StringView) :
    ∃ merged, lib.mergeCache col1 col2 = some merged := by
  by_cases mergeable : lib.Mergeable col1 col2
  · obtain ⟨_, _, _, _, merged⟩ := mergeCache_of_mergeable mergeable
    exact ⟨_, merged⟩
  · obtain ⟨_, merged⟩ := mergeCache_of_not_mergeable mergeable
    exact ⟨_, merged⟩

/-- Moving has an outcome exactly if the item that is there by its C string is there by its
view, wherever both are looked up. -/
theorem moveCacheItem_defined_iff (lib : CacheLib) (source dest itemName : StringView) :
    (∃ moved, lib.moveCacheItem source dest itemName = some moved) ↔
      (source.chars ≠ dest.chars → dest.chars ≠ itemName.chars → dest.chars ∈ lib.names →
        ∀ cache, lib.Collection source.chars cache → itemName.data ∈ cache.values →
          itemName.chars ∈ cache.values) := by
  constructor
  · intro ⟨moved, outcome⟩ different other listed cache found contained
    have one := (lib.existsCache_iff source.chars).mpr found.listed
    have two := (lib.existsCache_iff dest.chars).mpr listed
    have three := (cache.contains_iff itemName.data).mpr contained
    unfold Collection at found
    rw [moveCacheItem, if_pos ⟨different, other⟩, one, two] at outcome
    simp only [Bool.and_self, if_true, found, Option.bind_eq_bind, Option.bind_some, three] at outcome
    obtain ⟨item, located, _⟩ := Option.bind_eq_some_iff.mp outcome
    exact List.mem_map.mpr ⟨item, List.mem_of_getElem? located, Cache.value_at_findValue located⟩
  · intro readable
    unfold moveCacheItem
    split
    · rename_i guard
      split
      · rename_i both
        obtain ⟨one, two⟩ := Bool.and_eq_true_iff.mp both
        obtain ⟨cache, found⟩ := entry_at_find ((lib.existsCache_iff _).mp one)
        simp only [found, Option.bind_eq_bind, Option.bind_some]
        split
        · rename_i present
          have inside := readable guard.1 guard.2 ((lib.existsCache_iff _).mp two) cache found
            ((cache.contains_iff _).mp present)
          obtain ⟨item, located, _⟩ := Cache.item_at_findValue inside
          rw [located]
          exact ⟨_, rfl⟩
        · exact ⟨_, rfl⟩
      · exact ⟨_, rfl⟩
    · exact ⟨_, rfl⟩

/-- With a terminated item name both lookups agree, so the call has an outcome. -/
theorem moveCacheItem_defined (lib : CacheLib) (source dest : StringView) {itemName : StringView}
    (terminated : itemName.Terminated) :
    ∃ next result, lib.moveCacheItem source dest itemName = some (next, result) := by
  obtain ⟨moved, outcome⟩ := (lib.moveCacheItem_defined_iff source dest itemName).mpr
    (fun _ _ _ _ _ contained => StringView.data_of_terminated terminated ▸ contained)
  exact ⟨moved.1, moved.2, outcome⟩

end CacheLib

end Wallchanger
