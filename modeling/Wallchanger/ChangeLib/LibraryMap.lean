import Wallchanger.ChangeLib.ItemInvariant
import Wallchanger.ChangeLib.LibraryStep
import Wallchanger.Foundation.Lookup

/-! The library to its callers, who know the collections by name alone: a partial function
from names to lists of wallpapers. The order of the collections, the flags and the index of
the active one are not part of it. -/

namespace Wallchanger

open Foundation

/-- A call that finds its collections by name. -/
def LibOp.ByName : LibOp → Prop
  | .setState _ _ _ => False
  | _ => True

/-- The names of the collections a call may read or change. -/
def LibOp.touches : LibOp → List Bytes
  | .insert name _ | .insertItem name _ _ => [name]
  | .changeActive name | .remove name | .removeCacheItem name _ => [name.chars]
  | .renameStore first second | .mergeCache first second | .moveCacheItem first second _ =>
    [first.chars, second.chars]
  | .setState _ _ _ => []

/-- A call on the library by name: one that may change it, or a look at a collection. -/
inductive LibraryCall where
  | perform (op : LibOp) (byName : op.ByName)
  | getCache (name : StringView)

/-- What a call answers. -/
inductive Reply where
  | done (result : Expected)
  | items (result : Except WallErrc (List (CacheItem Bytes)))
deriving DecidableEq

namespace LibraryCall

def Terminated : LibraryCall → Prop
  | .perform op _ => op.Terminated
  | .getCache _ => True

def touches : LibraryCall → List Bytes
  | .perform op _ => op.touches
  | .getCache name => [name.chars]

end LibraryCall

/-- The wallpapers under each name that is taken. -/
abbrev LibraryMap := Bytes → Option (List (CacheItem Bytes))

namespace LibraryMap

/-- The first wallpaper of a name. -/
def first (items : List (CacheItem Bytes)) (value : Bytes) : Option (CacheItem Bytes) :=
  items.find? (fun item => item.cacheValue == value)

/-- The wallpapers without the first one of a name. -/
def drop (items : List (CacheItem Bytes)) (value : Bytes) : List (CacheItem Bytes) :=
  items.eraseP (fun item => item.cacheValue == value)

/-- A wallpaper goes to the end, as unused, unless one of its name is there. -/
def add (items : List (CacheItem Bytes)) (value : Bytes) (loc : UInt32) : List (CacheItem Bytes) :=
  if (first items value).isSome then items
  else items ++ [{ cacheValue := value, cacheState := .unused, loc }]

/-- What a call is to do: the collections under the names it touches decide on what is there
afterwards, and on the answer. -/
def perform (map : LibraryMap) : (op : LibOp) → op.ByName → LibraryMap × Expected
  | .insert name value, _ => changeAt map name (fun found => match found with
    | none => (some value.list, .ok true)
    | some items => (some items, .error .cacheDoesNotExists))
  | .changeActive newActive, _ => changeAt map newActive.chars (fun found => match found with
    | none => (none, .error .cacheDoesNotExists)
    | some items => (some items, .ok true))
  | .renameStore fromName toName, _ =>
    if fromName.chars = toName.chars then (map, .error .cacheFrmCacheToSame)
    else changeBoth map fromName.chars toName.chars (fun source target => match source, target with
      | some items, none => ((none, some items), .ok true)
      | _, _ => ((source, target), .error .cacheDoesNotExists))
  | .remove name, _ => changeAt map name.chars (fun found => match found with
    | none => (none, .error .cacheDoesNotExists)
    | some _ => (none, .ok true))
  | .removeCacheItem cacheName itemName, _ =>
    if cacheName.chars = itemName.chars then (map, .error .cacheNameItemNameSame)
    else changeAt map cacheName.chars (fun found => match found with
      | none => (none, .error .cacheDoesNotExists)
      | some items =>
        if (first items itemName.chars).isSome then (some (drop items itemName.chars), .ok true)
        else (some items, .error .cacheElemNotExists))
  | .mergeCache col1 col2, _ =>
    if col1.chars = col2.chars then (map, .error .cacheFrmCacheToSame)
    else changeBoth map col1.chars col2.chars (fun left right => match left, right with
      | some items, some others => ((some (rangesMerge items others), none), .ok true)
      | _, _ => ((left, right), .error .cacheDoesNotExists))
  | .moveCacheItem source dest itemName, _ =>
    if source.chars = dest.chars ∨ dest.chars = itemName.chars then (map, .error .cacheFrmCacheToSame)
    else changeBoth map source.chars dest.chars (fun left right => match left, right with
      | some items, some others => match first items itemName.chars with
        | some item => ((some (drop items itemName.chars), some (insertAbsent others item)), .ok true)
        | none => ((left, right), .error .cacheElemNotExists)
      | _, _ => ((left, right), .error .cacheDoesNotExists))
  | .insertItem name value loc, _ => changeAt map name (fun found => match found with
    | none => (none, .error .cacheDoesNotExists)
    | some items => (some (add items value loc), .ok true))
  | .setState _ _ _, byName => byName.elim

/-- What a call by name is to do and to answer. -/
def answer (map : LibraryMap) : LibraryCall → LibraryMap × Reply
  | .perform op byName => Prod.map id .done (map.perform op byName)
  | .getCache name => (map, .items (match map name.chars with
    | some items => .ok items
    | none => .error .cacheDoesNotExists))

end LibraryMap

namespace CacheLib

/-- A call by name; a look at a collection takes the mutable pointer. -/
def reply (lib : CacheLib) : LibraryCall → Option (CacheLib × Reply)
  | .perform op _ => (lib.perform op).map (Prod.map id .done)
  | .getCache name => some (match lib.getCacheMut name with
    | .ok (next, items) => (next, .items (.ok items))
    | .error error => (lib, .items (.error error)))

/-- The library as its callers see it. -/
def contents (lib : CacheLib) : LibraryMap := fun name => (lookup lib.cacheVec name).map Cache.list

theorem contents_eq_some_iff {lib : CacheLib} {name : Bytes} {items : List (CacheItem Bytes)} :
    lib.contents name = some items ↔ ∃ cache, lib.Collection name cache ∧ cache.list = items := by
  rw [contents, Option.map_eq_some_iff]
  simp only [lookup_eq_some_iff]
  rfl

theorem contents_of_collection {lib : CacheLib} {name : Bytes} {cache : Cache Bytes}
    (found : lib.Collection name cache) : lib.contents name = some cache.list :=
  contents_eq_some_iff.mpr ⟨cache, found, rfl⟩

theorem contents_eq_none_iff (lib : CacheLib) (name : Bytes) : lib.contents name = none ↔ name ∉ lib.names := by
  rw [contents, Option.map_eq_none_iff, lookup_eq_none_iff]
  rfl

/-- A change to what is looked up is a change to what the callers see. -/
theorem contents_of_lookup {lib next : CacheLib} {name : Bytes} {found : Option (Cache Bytes)}
    (changed : lookup next.cacheVec = Function.update (lookup lib.cacheVec) name found) :
    next.contents = Function.update lib.contents name (found.map Cache.list) := by
  funext other
  rw [contents, changed]
  by_cases same : other = name
  · rw [same, Function.update_self, Function.update_self]
  · rw [Function.update_of_ne same, Function.update_of_ne same]
    rfl

theorem contents_updateAt {lib : CacheLib} {name : Bytes} {cache : Cache Bytes}
    (found : lib.Collection name cache) (change : Cache Bytes → Cache Bytes) :
    (lib.updateAt name change).contents = Function.update lib.contents name (some (change cache).list) := by
  have changed := lookup_modify lib.cacheVec name change
  rw [lookup_eq_some_iff.mpr found] at changed
  exact @contents_of_lookup lib (lib.updateAt name change) name _ changed

/-! ### Each call does what is specified -/

/-- The item a lookup by value stops at is the first of that value. -/
theorem first_eq (cache : Cache Bytes) (value : Bytes) :
    LibraryMap.first cache.list value = cache.list[cache.findValue value]? :=
  List.find?_eq_getElem?_findIdx ..

theorem first_isSome_iff (cache : Cache Bytes) (value : Bytes) :
    (LibraryMap.first cache.list value).isSome = true ↔ value ∈ cache.values := by
  simp [LibraryMap.first, Cache.values, List.find?_isSome]

theorem drop_eq (cache : Cache Bytes) (value : Bytes) :
    LibraryMap.drop cache.list value = (cache.erase (cache.findValue value)).list := by
  simp only [LibraryMap.drop, Cache.erase, Cache.findValue]
  induction cache.list with
  | nil => rfl
  | cons head rest ih =>
    by_cases named : head.cacheValue = value
    · simp [List.findIdx_cons, named]
    · simp [List.findIdx_cons, beq_eq_false_iff_ne.mpr named, ih]

theorem add_eq (cache : Cache Bytes) (value : Bytes) (loc : UInt32) :
    LibraryMap.add cache.list value loc = (cache.insert value loc).list := by
  unfold LibraryMap.add
  by_cases present : value ∈ cache.values
  · rw [if_pos ((first_isSome_iff cache value).mpr present), Cache.insert_present present]
  · rw [if_neg (fun found => present ((first_isSome_iff cache value).mp found)),
      Cache.insert_absent present]

/-- The outcome of a call is the one that is specified for what the callers see. -/
def Refines (outcome : Option (CacheLib × Expected)) (specified : LibraryMap × Expected) : Prop :=
  ∃ next, outcome = some (next, specified.2) ∧ next.contents = specified.1

theorem refines_of {next : CacheLib} {outcome : Option (CacheLib × Expected)}
    {specified : LibraryMap × Expected} {map : LibraryMap} (performed : outcome = some (next, result))
    (required : specified = (map, result)) (shown : next.contents = map) : Refines outcome specified := by
  subst required
  exact ⟨next, performed, shown⟩

private theorem refines_insert (lib : CacheLib) (name : Bytes) (value : Cache Bytes)
    (byName : LibOp.ByName (.insert name value)) :
    Refines (some (lib.insert name value)) (lib.contents.perform (.insert name value) byName) := by
  rw [insert_eq, LibraryMap.perform]
  by_cases listed : name ∈ lib.names
  · obtain ⟨cache, found⟩ := collection_of_mem listed
    rw [if_pos listed]
    refine refines_of rfl (changeAt_keep ?_) rfl
    rw [contents_of_collection found]
  · rw [if_neg listed]
    refine refines_of rfl (changeAt_eq ?_) (contents_of_lookup (lookup_append listed value))
    rw [(lib.contents_eq_none_iff name).mpr listed]
    rfl

private theorem refines_changeActive (lib : CacheLib) (newActive : StringView)
    (byName : LibOp.ByName (.changeActive newActive)) :
    Refines (some (lib.changeActive newActive))
      (lib.contents.perform (.changeActive newActive) byName) := by
  rw [LibraryMap.perform]
  by_cases listed : newActive.chars ∈ lib.names
  · obtain ⟨cache, found⟩ := collection_of_mem listed
    obtain ⟨next, outcome, kept⟩ : ∃ next, lib.changeActive newActive = (next, .ok true) ∧
        next.cacheVec = lib.cacheVec := by
      rw [changeActive, if_pos ((lib.existsCache_iff _).mpr listed)]
      dsimp only
      split
      · exact ⟨_, rfl, rfl⟩
      · exact ⟨lib, rfl, rfl⟩
    refine refines_of (congrArg some outcome) (changeAt_keep ?_) ?_
    · rw [contents_of_collection found]
    · funext name
      rw [contents, contents, kept]
  · rw [changeActive, if_neg (fun present => listed ((lib.existsCache_iff _).mp present))]
    refine refines_of rfl (changeAt_keep ?_) rfl
    rw [(lib.contents_eq_none_iff _).mpr listed]

private theorem refines_remove {lib : CacheLib} (distinct : lib.NamesDistinct) (name : StringView)
    (byName : LibOp.ByName (.remove name)) :
    Refines (some (lib.remove name)) (lib.contents.perform (.remove name) byName) := by
  rw [remove_eq, LibraryMap.perform]
  by_cases listed : name.chars ∈ lib.names
  · obtain ⟨cache, found⟩ := collection_of_mem listed
    rw [if_pos listed]
    refine refines_of rfl (changeAt_eq ?_) (contents_of_lookup (lookup_erase distinct name.chars))
    rw [contents_of_collection found]
    rfl
  · rw [if_neg listed]
    refine refines_of rfl (changeAt_keep ?_) rfl
    rw [(lib.contents_eq_none_iff _).mpr listed]

/-- What callers see where an entry has got a new name. -/
private theorem contents_renamed {lib next : CacheLib} {name new : Bytes} {cache : Cache Bytes}
    (distinct : lib.NamesDistinct) (found : lib.Collection name cache) (fresh : new ∉ lib.names)
    (renamed : next.cacheVec = lib.cacheVec.modify (find lib.cacheVec name) (fun store => (new, store.2))) :
    next.contents = Function.update (Function.update lib.contents name none) new (some cache.list) := by
  funext sought
  rw [contents, renamed, lookup_rename distinct found.listed fresh, lookup_eq_some_iff.mpr found]
  by_cases isNew : sought = new
  · rw [isNew, Function.update_self, Function.update_self]
    rfl
  · rw [Function.update_of_ne isNew, Function.update_of_ne isNew]
    by_cases isOld : sought = name
    · rw [isOld, Function.update_self, Function.update_self]
      rfl
    · rw [Function.update_of_ne isOld, Function.update_of_ne isOld]
      rfl

private theorem refines_renameStore {lib : CacheLib} (distinct : lib.NamesDistinct)
    (fromName toName : StringView) (byName : LibOp.ByName (.renameStore fromName toName)) :
    Refines (some (lib.renameStore fromName toName))
      (lib.contents.perform (.renameStore fromName toName) byName) := by
  rw [renameStore_eq, LibraryMap.perform]
  by_cases same : fromName.chars = toName.chars
  · rw [if_pos same, if_pos same]
    exact refines_of rfl rfl rfl
  rw [if_neg same, if_neg same]
  by_cases listed : fromName.chars ∈ lib.names
  · obtain ⟨cache, found⟩ := collection_of_mem listed
    have here := contents_of_collection found
    by_cases taken : toName.chars ∈ lib.names
    · obtain ⟨other, there⟩ := collection_of_mem taken
      rw [if_neg (fun guard => guard.2 taken)]
      refine refines_of rfl (changeBoth_keep ?_) rfl
      rw [here, contents_of_collection there]
    · rw [if_pos ⟨listed, taken⟩]
      refine refines_of rfl (changeBoth_eq ?_) (contents_renamed distinct found taken rfl)
      rw [here, (lib.contents_eq_none_iff _).mpr taken]
  · rw [if_neg (fun guard => listed guard.1)]
    refine refines_of rfl (changeBoth_keep ?_) rfl
    rw [(lib.contents_eq_none_iff _).mpr listed]

private theorem refines_removeCacheItem (lib : CacheLib) (cacheName itemName : StringView)
    (byName : LibOp.ByName (.removeCacheItem cacheName itemName)) :
    Refines (some (lib.removeCacheItem cacheName itemName))
      (lib.contents.perform (.removeCacheItem cacheName itemName) byName) := by
  rw [LibraryMap.perform]
  by_cases same : cacheName.chars = itemName.chars
  · rw [removeCacheItem_of_same same, if_pos same]
    exact refines_of rfl rfl rfl
  rw [if_neg same]
  by_cases listed : cacheName.chars ∈ lib.names
  · obtain ⟨cache, found⟩ := collection_of_mem listed
    have here := contents_of_collection found
    rw [removeCacheItem_of_found same found]
    by_cases member : itemName.chars ∈ cache.values
    · rw [if_pos member]
      refine refines_of rfl (changeAt_eq ?_) (contents_updateAt found _)
      rw [here]
      simp only [if_pos ((first_isSome_iff cache itemName.chars).mpr member), drop_eq]
    · rw [if_neg member]
      have missing : ¬ (LibraryMap.first cache.list itemName.chars).isSome = true :=
        fun present => member ((first_isSome_iff cache itemName.chars).mp present)
      refine refines_of rfl (changeAt_eq ?_) (contents_updateAt found _)
      rw [here]
      simp only [if_neg missing]
      rfl
  · rw [removeCacheItem_of_missing same listed]
    refine refines_of rfl (changeAt_keep ?_) rfl
    rw [(lib.contents_eq_none_iff _).mpr listed]

private theorem refines_insertItem (lib : CacheLib) (name value : Bytes) (loc : UInt32)
    (byName : LibOp.ByName (.insertItem name value loc)) :
    Refines (some (lib.insertItem name value loc))
      (lib.contents.perform (.insertItem name value loc) byName) := by
  rw [LibraryMap.perform, insertItem]
  by_cases listed : name ∈ lib.names
  · obtain ⟨cache, found⟩ := collection_of_mem listed
    rw [if_pos ((lib.existsCache_iff name).mpr listed)]
    refine refines_of rfl (changeAt_eq ?_) (contents_updateAt found _)
    rw [contents_of_collection found]
    simp only [add_eq]
  · rw [if_neg (fun present => listed ((lib.existsCache_iff name).mp present))]
    refine refines_of rfl (changeAt_keep ?_) rfl
    rw [(lib.contents_eq_none_iff _).mpr listed]

/-- What callers see where two names are taken out and one entry is appended. -/
private theorem contents_merged {lib : CacheLib} (distinct : lib.NamesDistinct) {name other : Bytes}
    (different : name ≠ other) (merged : Cache Bytes) :
    { lib with cacheVec := lib.without name other ++ [(name, merged)] }.contents =
      Function.update (Function.update lib.contents name (some merged.list)) other none := by
  have once := lookup_erase distinct name
  have kept : (keys (lib.cacheVec.eraseIdx (find lib.cacheVec name))).Nodup := by
    rw [keys_erase_find]
    exact distinct.erase name
  have twice := lookup_erase kept other
  have fresh : name ∉ keys (lib.without name other) := by
    rw [keys_without]
    exact fun member => distinct.not_mem_erase (List.mem_of_mem_erase member)
  funext sought
  rw [contents, lookup_append fresh, without, twice, once]
  by_cases isName : sought = name
  · rw [isName, Function.update_self, Function.update_of_ne different, Function.update_self]
    rfl
  · rw [Function.update_of_ne isName]
    by_cases isOther : sought = other
    · rw [isOther, Function.update_self, Function.update_self]
      rfl
    · rw [Function.update_of_ne isOther, Function.update_of_ne isName, Function.update_of_ne isOther,
        Function.update_of_ne isName]
      rfl

private theorem refines_mergeCache {lib : CacheLib} (distinct : lib.NamesDistinct) {col1 : StringView}
    (terminated : col1.Terminated) (col2 : StringView) (byName : LibOp.ByName (.mergeCache col1 col2)) :
    Refines (lib.mergeCache col1 col2) (lib.contents.perform (.mergeCache col1 col2) byName) := by
  rw [LibraryMap.perform]
  by_cases same : col1.chars = col2.chars
  · have outcome : lib.mergeCache col1 col2 = some (lib, .error .cacheFrmCacheToSame) := by
      rw [mergeCache, if_neg (not_not.mpr same)]
      rfl
    rw [if_pos same]
    exact refines_of outcome rfl rfl
  rw [if_neg same]
  by_cases mergeable : lib.Mergeable col1 col2
  · obtain ⟨first, second, found, other, outcome⟩ := mergeCache_of_mergeable mergeable
    rw [StringView.data_of_terminated terminated] at outcome
    refine refines_of outcome (changeBoth_eq ?_) (contents_merged distinct same _)
    rw [contents_of_collection found, contents_of_collection other]
  · have missing : ¬ (lib.existsCache col1.chars && lib.existsCache col2.chars) = true := by
      intro both
      obtain ⟨one, two⟩ := Bool.and_eq_true_iff.mp both
      exact mergeable ⟨same, (lib.existsCache_iff _).mp one, (lib.existsCache_iff _).mp two⟩
    have outcome : lib.mergeCache col1 col2 = some (lib, .error .cacheDoesNotExists) := by
      rw [mergeCache, if_pos same, if_neg missing]
      rfl
    refine refines_of outcome (changeBoth_keep ?_) rfl
    split
    · rename_i items others left right
      obtain ⟨_, found, _⟩ := contents_eq_some_iff.mp left
      obtain ⟨_, other, _⟩ := contents_eq_some_iff.mp right
      exact absurd ⟨same, found.listed, other.listed⟩ mergeable
    · rfl

/-- What callers see once an item has gone from one collection to another. -/
private theorem contents_moved {lib : CacheLib} {source dest : Bytes} {cache other : Cache Bytes}
    (different : source ≠ dest) (found : lib.Collection source cache) (there : lib.Collection dest other)
    (arrive leave : Cache Bytes → Cache Bytes) :
    ((lib.updateAt dest arrive).updateAt source leave).contents =
      Function.update (Function.update lib.contents source (some (leave cache).list)) dest
        (some (arrive other).list) := by
  rw [contents_updateAt (found.updateAt_ne different arrive) leave, contents_updateAt there arrive,
    Function.update_comm different]

private theorem refines_moveCacheItem (lib : CacheLib) (source dest : StringView) {itemName : StringView}
    (terminated : itemName.Terminated) (byName : LibOp.ByName (.moveCacheItem source dest itemName)) :
    Refines (lib.moveCacheItem source dest itemName)
      (lib.contents.perform (.moveCacheItem source dest itemName) byName) := by
  rw [LibraryMap.perform]
  by_cases refused : source.chars = dest.chars ∨ dest.chars = itemName.chars
  · have outcome : lib.moveCacheItem source dest itemName = some (lib, .error .cacheFrmCacheToSame) := by
      rw [moveCacheItem, if_neg (fun guard => refused.elim guard.1 guard.2)]
      rfl
    rw [if_pos refused]
    exact refines_of outcome rfl rfl
  obtain ⟨different, apart⟩ := not_or.mp refused
  rw [if_neg refused]
  by_cases both : source.chars ∈ lib.names ∧ dest.chars ∈ lib.names
  · obtain ⟨cache, found⟩ := collection_of_mem both.1
    obtain ⟨other, there⟩ := collection_of_mem both.2
    have here := contents_of_collection found
    have target := contents_of_collection there
    by_cases member : itemName.chars ∈ cache.values
    · obtain ⟨item, located, _⟩ := Cache.item_at_findValue member
      have contained : itemName.data ∈ cache.values :=
        (StringView.data_of_terminated terminated).symm ▸ member
      refine refines_of (moveCacheItem_updates different apart found both.2 contained located)
        (changeBoth_eq ?_) (contents_moved different found there _ _)
      rw [here, target, ← drop_eq, Cache.insertElem_list]
      simp only [first_eq, located]
    · have absent : cache.contains itemName.data = false := by
        rw [StringView.data_of_terminated terminated]
        exact (cache.contains_eq_false _).mpr member
      have none_ : LibraryMap.first cache.list itemName.chars = none := by
        rw [← Option.not_isSome_iff_eq_none, first_isSome_iff]
        exact member
      have outcome : lib.moveCacheItem source dest itemName = some (lib, .error .cacheElemNotExists) := by
        have spot := found
        unfold Collection at spot
        rw [moveCacheItem, if_pos ⟨different, apart⟩, (lib.existsCache_iff _).mpr both.1,
          (lib.existsCache_iff _).mpr both.2]
        simp only [Bool.and_self, if_true, spot, Option.bind_eq_bind, Option.bind_some, absent]
        rfl
      refine refines_of outcome (changeBoth_keep ?_) rfl
      rw [here, target]
      simp only [none_]
  · have missing : ¬ (lib.existsCache source.chars && lib.existsCache dest.chars) = true := by
      intro present
      obtain ⟨one, two⟩ := Bool.and_eq_true_iff.mp present
      exact both ⟨(lib.existsCache_iff _).mp one, (lib.existsCache_iff _).mp two⟩
    have outcome : lib.moveCacheItem source dest itemName = some (lib, .error .cacheDoesNotExists) := by
      rw [moveCacheItem, if_pos ⟨different, apart⟩, if_neg missing]
      rfl
    refine refines_of outcome (changeBoth_keep ?_) rfl
    split
    · rename_i items others left right
      obtain ⟨_, found, _⟩ := contents_eq_some_iff.mp left
      obtain ⟨_, there, _⟩ := contents_eq_some_iff.mp right
      exact absurd ⟨found.listed, there.listed⟩ both
    · rfl

/-- Among distinct names, every call by name with terminated arguments has the outcome that is
specified for what the callers see. -/
theorem refines_perform {lib : CacheLib} (distinct : lib.NamesDistinct) {op : LibOp}
    (terminated : op.Terminated) (byName : op.ByName) :
    Refines (lib.perform op) (lib.contents.perform op byName) := by
  cases op with
  | insert name value => exact lib.refines_insert name value byName
  | changeActive newActive => exact lib.refines_changeActive newActive byName
  | renameStore fromName toName => exact refines_renameStore distinct fromName toName byName
  | remove name => exact refines_remove distinct name byName
  | removeCacheItem cacheName itemName => exact lib.refines_removeCacheItem cacheName itemName byName
  | mergeCache col1 col2 => exact refines_mergeCache distinct terminated.1 col2 byName
  | moveCacheItem source dest itemName =>
    exact lib.refines_moveCacheItem source dest terminated.2.2 byName
  | insertItem name value loc => exact lib.refines_insertItem name value loc byName
  | setState pos idx state => exact byName.elim

/-- What a library shows its callers: distinct names, and what is found under each. -/
def Shows (lib : CacheLib) (map : LibraryMap) : Prop := lib.NamesDistinct ∧ lib.contents = map

theorem shows_updateAt {lib : CacheLib} {map : LibraryMap} (shown : lib.Shows map) {name : Bytes}
    {cache : Cache Bytes} (found : lib.Collection name cache) : (lib.updateAt name Cache.data).Shows map := by
  obtain ⟨distinct, rfl⟩ := shown
  constructor
  · have named : (lib.updateAt name Cache.data).names = lib.names :=
      congrArg Directory.names (lib.directory_updateAt name Cache.data)
    rw [NamesDistinct, named]
    exact distinct
  · have same : some (Cache.data cache).list = lib.contents name := (contents_of_collection found).symm
    rw [contents_updateAt found, same, Function.update_eq_self]

/-- One call: the answer is the specified one, and the names stay distinct. -/
theorem shows_reply {lib : CacheLib} {map : LibraryMap} (shown : lib.Shows map) {call : LibraryCall}
    (terminated : call.Terminated) :
    ∃ next, lib.reply call = some (next, (map.answer call).2) ∧ next.Shows (map.answer call).1 := by
  obtain ⟨distinct, rfl⟩ := id shown
  cases call with
  | perform op byName =>
    obtain ⟨next, performed, seen⟩ := refines_perform distinct terminated byName
    refine ⟨next, ?_, namesDistinct_step distinct terminated (step_eq_some.mpr ⟨_, performed⟩), seen⟩
    rw [reply, performed]
    rfl
  | getCache name =>
    by_cases listed : name.chars ∈ lib.names
    · obtain ⟨cache, found⟩ := collection_of_mem listed
      refine ⟨lib.updateAt name.chars Cache.data, ?_, shows_updateAt shown found⟩
      simp only [reply, getCacheMut_of_collection name found, LibraryMap.answer, contents_of_collection found]
    · refine ⟨lib, ?_, shown⟩
      simp only [reply, getCacheMut_of_not_mem name listed, LibraryMap.answer,
        (lib.contents_eq_none_iff _).mpr listed]

/-- Every sequence of calls has an outcome, every answer is the one the map of names gives,
and the library that is left shows the map that is left. -/
theorem calls_answered_as_specified {lib : CacheLib} (distinct : lib.NamesDistinct)
    {calls : List LibraryCall} (terminated : ∀ call ∈ calls, call.Terminated) :
    ∃ final, answered always reply lib calls =
        some (final, (carriedOut always LibraryMap.answer lib.contents calls).2) ∧
      final.contents = (carriedOut always LibraryMap.answer lib.contents calls).1 ∧
      final.NamesDistinct := by
  obtain ⟨final, answers, distinct, shown⟩ :=
    answered_simulates
      (fun lib map (call : LibraryCall) (shown : lib.Shows map) (allowed : call.Terminated) =>
        @shows_reply lib map shown call allowed)
      (⟨distinct, rfl⟩ : lib.Shows lib.contents) terminated
  exact ⟨final, answers, shown, distinct⟩

/-- The collections `a` and `b`, one wallpaper in the first. -/
private def twoCollections : CacheLib where
  cacheVec := [([0x61], { list := [{ cacheValue := [0x78], cacheState := .unused, loc := 7 }] }), ([0x62], {})]

private theorem twoCollections_distinct : twoCollections.NamesDistinct := by
  unfold NamesDistinct
  decide

/-- The wallpaper `x` from `a` to `b`, and the same again, which misses it. -/
private def moveTwice : List LibraryCall :=
  [.perform (.moveCacheItem ⟨[0x61], []⟩ ⟨[0x62], []⟩ ⟨[0x78], []⟩) trivial,
    .perform (.moveCacheItem ⟨[0x61], []⟩ ⟨[0x62], []⟩ ⟨[0x78], []⟩) trivial]

private theorem moveTwice_terminated : ∀ call ∈ moveTwice, call.Terminated := by
  have terminated : LibOp.Terminated (.moveCacheItem ⟨[0x61], []⟩ ⟨[0x62], []⟩ ⟨[0x78], []⟩) := by decide
  intro call member
  simp only [moveTwice, List.mem_cons, List.not_mem_nil, or_false, or_self] at member
  subst member
  exact terminated

theorem calls_answered_as_specified_moveTwice : ∃ final,
    answered always reply twoCollections moveTwice =
        some (final, (carriedOut always LibraryMap.answer twoCollections.contents moveTwice).2) ∧
      final.contents = (carriedOut always LibraryMap.answer twoCollections.contents moveTwice).1 ∧
      final.NamesDistinct :=
  calls_answered_as_specified twoCollections_distinct moveTwice_terminated

end CacheLib

/-! ### Callers with collections of their own -/

namespace LibraryMap

/-- A specified call keeps to the names it touches. -/
theorem within_perform (op : LibOp) (byName : op.ByName) {territory : Set Bytes}
    (touches : ∀ name ∈ op.touches, name ∈ territory) :
    Within territory (fun map => perform map op byName) := by
  cases op with
  | insert name _ | insertItem name _ _ =>
    simp only [perform]
    exact within_changeAt (touches name (by simp [LibOp.touches])) _
  | changeActive name | remove name =>
    simp only [perform]
    exact within_changeAt (touches name.chars (by simp [LibOp.touches])) _
  | removeCacheItem cacheName itemName =>
    simp only [perform]
    split
    · exact within_const territory _
    · exact within_changeAt (touches cacheName.chars (by simp [LibOp.touches])) _
  | renameStore first second | mergeCache first second | moveCacheItem first second _ =>
    have left := touches first.chars (by simp [LibOp.touches])
    have right := touches second.chars (by simp [LibOp.touches])
    simp only [perform]
    split
    · exact within_const territory _
    · exact within_changeBoth left right _
  | setState _ _ _ => exact byName.elim

theorem within_answer {call : LibraryCall} {territory : Set Bytes}
    (touches : ∀ name ∈ call.touches, name ∈ territory) :
    Within territory (fun map => answer map call) := by
  cases call with
  | perform op byName =>
    have within := within_perform op byName touches
    exact ⟨within.frame, fun map other same => congrArg Reply.done (within.answer map other same),
      within.effect⟩
  | getCache name =>
    have inside := touches name.chars (by simp [LibraryCall.touches])
    refine ⟨fun _ _ _ => rfl, fun map other same => ?_, fun _ _ same => same⟩
    simp only [answer, same inside]

end LibraryMap

namespace CacheLib
variable {Caller : Type}

/-- A call in the name of a caller, answered under that name. -/
def replyTo (lib : CacheLib) (entry : Caller × LibraryCall) : Option (CacheLib × (Caller × Reply)) :=
  (lib.reply entry.2).map (Prod.map id (Prod.mk entry.1))

theorem shows_replyTo {lib : CacheLib} {map : LibraryMap} (shown : lib.Shows map)
    {entry : Caller × LibraryCall} (terminated : entry.2.Terminated) :
    ∃ next, lib.replyTo entry = some (next, (byCaller LibraryMap.answer map entry).2) ∧
      next.Shows (byCaller LibraryMap.answer map entry).1 := by
  obtain ⟨next, answered, kept⟩ := shows_reply shown terminated
  refine ⟨next, ?_, kept⟩
  rw [replyTo, answered]
  rfl

variable [DecidableEq Caller]

/-- Callers that keep to collections of their own do not notice each other: in whatever order
their calls arrive, each is answered as it would be alone, and its collections end as they
would end alone. -/
theorem callers_served_as_if_alone {lib : CacheLib} (distinct : lib.NamesDistinct)
    {territory : Caller → Set Bytes}
    (apart : ∀ caller other, caller ≠ other → ∀ name ∈ territory caller, name ∉ territory other)
    {entries : List (Caller × LibraryCall)} (terminated : ∀ entry ∈ entries, entry.2.Terminated)
    (keeps : ∀ entry ∈ entries, ∀ name ∈ entry.2.touches, name ∈ territory entry.1) :
    ∃ final answers, answered always replyTo lib entries = some (final, answers) ∧ ∀ caller,
      ∃ alone, answered always reply lib (ownPart caller entries) = some (alone, ownPart caller answers) ∧
        ∀ name ∈ territory caller, final.contents name = alone.contents name := by
  obtain ⟨final, together, _, shown⟩ :=
    answered_simulates
      (fun lib map (entry : Caller × LibraryCall) (shown : lib.Shows map) (allowed : entry.2.Terminated) =>
        shows_replyTo shown allowed)
      (⟨distinct, rfl⟩ : lib.Shows lib.contents) terminated
  refine ⟨final, _, together, fun caller => ?_⟩
  obtain ⟨answers, agree⟩ := carriedOut_alone apart caller
    (fun entry member => LibraryMap.within_answer (keeps entry member)) (Set.eqOn_refl lib.contents _)
  have own : ∀ call ∈ ownPart caller entries, call.Terminated := by
    intro call member
    obtain ⟨entry, listed, taken⟩ := List.mem_filterMap.mp member
    split at taken
    · exact Option.some.inj taken ▸ terminated entry listed
    · cases taken
  obtain ⟨alone, separate, shows, _⟩ := calls_answered_as_specified distinct own
  refine ⟨alone, answers ▸ separate, fun name member => ?_⟩
  rw [shown, shows]
  exact agree member

/-- The one caller adds to `a` and looks at it, the other removes `b` in between. -/
private def addLookAndRemove : List (Bool × LibraryCall) :=
  [(true, .perform (.insertItem [0x61] [0x79] 7) trivial), (false, .perform (.remove ⟨[0x62], []⟩) trivial),
    (true, .getCache ⟨[0x61], []⟩)]

private def ownName (caller : Bool) : Set Bytes := if caller then {[0x61]} else {[0x62]}

theorem callers_served_as_if_alone_of_two : ∃ final answers,
    answered always replyTo twoCollections addLookAndRemove = some (final, answers) ∧ ∀ caller,
      ∃ alone, answered always reply twoCollections (ownPart caller addLookAndRemove) =
          some (alone, ownPart caller answers) ∧
        ∀ name ∈ ownName caller, final.contents name = alone.contents name := by
  refine callers_served_as_if_alone twoCollections_distinct ?_ ?_ ?_
  · intro caller other different
    cases caller with
    | false =>
      cases other with
      | false => exact absurd rfl different
      | true => simp [ownName]
    | true =>
      cases other with
      | false => simp [ownName]
      | true => exact absurd rfl different
  · intro entry member
    simp only [addLookAndRemove, List.mem_cons, List.not_mem_nil, or_false] at member
    rcases member with rfl | rfl | rfl
    · exact (by decide : LibOp.Terminated (.insertItem [0x61] [0x79] 7))
    · exact (by decide : LibOp.Terminated (.remove ⟨[0x62], []⟩))
    · trivial
  · intro entry member
    simp only [addLookAndRemove, List.mem_cons, List.not_mem_nil, or_false] at member
    rcases member with rfl | rfl | rfl <;>
      simp [LibraryCall.touches, LibOp.touches, ownName]

end CacheLib

end Wallchanger
