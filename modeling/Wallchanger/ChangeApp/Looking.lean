import Wallchanger.ChangeApp.WallManager
import Wallchanger.ChangeLib.OperationSpec

/-! Calls that change no item and no name. Those that look at a collection by a mutable
pointer or iterator set its flag, and the flag counts when libraries are compared. -/

namespace Wallchanger

open Foundation

namespace Manager

/-- A call that only looks; iterating over a view that was returned is one of its own. The
last is any operation of the library, where it answers with an error. -/
inductive LookOp where
  | getCache (name : StringView)
  | getCurrent
  | iterate
  | validateCollection (collection : StringView) (existsAt : Bytes → Bool)
  | failing (op : LibOp)

/-- `none` for undefined behaviour, for `validate_collection` where it throws, and for an
operation that answers without an error. -/
def look (manager : Manager) : LookOp → Option Manager
  | .getCache name =>
    match manager.cache.getCacheMut name with
    | .ok (cache, _) => some { manager with cache }
    | .error _ => some manager
  | .getCurrent => manager.cache.getCurrentMut.map (fun got => { manager with cache := got.1 })
  | .iterate => some manager
  | .validateCollection collection existsAt =>
    (manager.validateCollection collection existsAt).map Prod.fst
  | .failing op =>
    match manager.cache.perform op with
    | some (cache, .error _) => some { manager with cache }
    | _ => none

/-- The library compares equal to a copy, and every flag is as there. -/
structure Unchanged (copy : CacheLib) (manager : Manager) : Prop where
  equal : manager.cache = copy
  flags : manager.cache.cacheVec.map (·.2.modified) = copy.cacheVec.map (·.2.modified)

/-- The collection that a call takes a mutable pointer or iterator to. -/
def Touches (manager : Manager) : LookOp → Cache Bytes → Prop
  | .getCache name, cache => manager.cache.Collection name.chars cache
  | .getCurrent, cache => ∃ name, manager.cache.cacheVec[manager.cache.current.toNat]? = some (name, cache)
  | .validateCollection collection _, cache => manager.cache.Collection collection.chars cache
  | .failing (.removeCacheItem cacheName itemName), cache =>
    cacheName.chars ≠ itemName.chars ∧ manager.cache.Collection cacheName.chars cache
  | .iterate, _ | .failing _, _ => False

/-- The flag that a call sets is set already. -/
def FlagsSet (manager : Manager) (op : LookOp) : Prop := ∀ cache, manager.Touches op cache → cache.modified = true

theorem unchanged_iff {copy : CacheLib} {manager : Manager} : Unchanged copy manager ↔ manager.cache = copy :=
  ⟨Unchanged.equal, fun equal => ⟨equal, congrArg (·.cacheVec.map (·.2.modified)) equal⟩⟩

/-- A call that flags one entry, and touches no other. -/
theorem modify_eq_iff {manager : Manager} {op : LookOp} {i : Nat} {store : CacheStore}
    (found : manager.cache.cacheVec[i]? = some store)
    (touches : ∀ cache, manager.Touches op cache ↔ cache = store.2) :
    { manager.cache with cacheVec := manager.cache.cacheVec.modify i (Prod.map id Cache.begin) } =
      manager.cache ↔ manager.FlagsSet op := by
  have flagged : manager.FlagsSet op ↔ store.2.modified = true := by
    simp only [FlagsSet, touches, forall_eq]
  rw [flagged]
  exact CacheLib.modify_begin_eq_iff found

/-- A call that flags the collection of a name, and touches no other. -/
theorem updateAt_eq_iff {manager : Manager} {op : LookOp} {name : Bytes} {cache : Cache Bytes}
    (found : manager.cache.Collection name cache)
    (touches : ∀ other, manager.Touches op other ↔ manager.cache.Collection name other) :
    manager.cache.updateAt name Cache.begin = manager.cache ↔ manager.FlagsSet op := by
  refine modify_eq_iff found (fun other => (touches other).trans ⟨fun others => others.unique found, ?_⟩)
  intro same
  exact same ▸ found

/-- An error comes with a change only where an item was searched for in vain. -/
theorem failing_eq_iff {manager : Manager} {next : CacheLib} {op : LibOp}
    (failed : manager.cache.perform op = some (next, .error error)) :
    next = manager.cache ↔ manager.FlagsSet (.failing op) := by
  by_cases search : ∃ cacheName itemName, op = .removeCacheItem cacheName itemName
  · obtain ⟨cacheName, itemName, rfl⟩ := search
    have outcome : manager.cache.removeCacheItem cacheName itemName = (next, .error error) :=
      Option.some.inj failed
    by_cases same : cacheName.chars = itemName.chars
    · cases (CacheLib.removeCacheItem_of_same same).symm.trans outcome
      exact iff_of_true rfl (fun _ touched => absurd same touched.1)
    by_cases listed : cacheName.chars ∈ manager.cache.names
    · obtain ⟨cache, found⟩ := CacheLib.collection_of_mem listed
      rw [CacheLib.removeCacheItem_of_found same found] at outcome
      split at outcome
      · cases outcome
      · cases outcome
        exact updateAt_eq_iff found (fun other => and_iff_right same)
    · cases (CacheLib.removeCacheItem_of_missing same listed).symm.trans outcome
      exact iff_of_true rfl (fun _ touched => absurd touched.2.listed listed)
  · have other : ∀ cacheName itemName, op ≠ .removeCacheItem cacheName itemName :=
      fun cacheName itemName same => search ⟨cacheName, itemName, same⟩
    refine iff_of_true (CacheLib.eq_of_error failed other) (fun cache touched => ?_)
    cases op with
    | removeCacheItem cacheName itemName => exact absurd rfl (other cacheName itemName)
    | _ => exact touched.elim

theorem getCache_eq_iff {manager : Manager} {next : CacheLib} {name : StringView}
    {items : List (CacheItem Bytes)} {op : LookOp} (got : manager.cache.getCacheMut name = .ok (next, items))
    (touches : ∀ cache, manager.Touches op cache ↔ manager.cache.Collection name.chars cache) :
    next = manager.cache ↔ manager.FlagsSet op := by
  by_cases listed : name.chars ∈ manager.cache.names
  · obtain ⟨cache, found⟩ := CacheLib.collection_of_mem listed
    cases (CacheLib.getCacheMut_of_collection name found).symm.trans got
    exact updateAt_eq_iff found touches
  · cases (CacheLib.getCacheMut_of_not_mem name listed).symm.trans got

theorem validateCollection_eq_iff {manager next : Manager} {collection : StringView}
    {existsAt : Bytes → Bool} {count : Option (Nat × List Bytes)}
    (validated : manager.validateCollection collection existsAt = some (next, count)) :
    next.cache = manager.cache ↔ manager.FlagsSet (.validateCollection collection existsAt) := by
  unfold validateCollection at validated
  split at validated
  · split at validated
    · rename_i cache items got
      obtain ⟨paths, _, validated⟩ := Option.bind_eq_some_iff.mp validated
      cases validated
      exact getCache_eq_iff got (fun _ => Iff.rfl)
    · cases validated
  · rename_i absent
    cases validated
    refine iff_of_true rfl (fun cache found => absurd ?_ absent)
    exact (manager.cache.existsCache_iff _).mpr (CacheLib.Collection.listed found)

/-- A look leaves the library as it was exactly if every flag that it sets is set. -/
theorem look_eq_iff {manager next : Manager} {op : LookOp} (looked : manager.look op = some next) :
    next.cache = manager.cache ↔ manager.FlagsSet op := by
  cases op with
  | getCache name =>
    rw [look] at looked
    split at looked
    · rename_i got
      cases looked
      exact getCache_eq_iff got (fun _ => Iff.rfl)
    · rename_i refused
      cases looked
      refine iff_of_true rfl (fun cache found => ?_)
      cases (CacheLib.getCacheMut_of_collection name found).symm.trans refused
  | getCurrent =>
    obtain ⟨got, current, rfl⟩ := Option.map_eq_some_iff.mp looked
    obtain ⟨store, found, rfl⟩ := Option.map_eq_some_iff.mp current
    refine modify_eq_iff found (fun cache => ⟨fun ⟨name, here⟩ => ?_, fun same => ⟨store.1, same ▸ found⟩⟩)
    exact (congrArg Prod.snd (Option.some.inj (found.symm.trans here))).symm
  | iterate =>
    cases looked
    exact iff_of_true rfl (fun _ touched => touched.elim)
  | validateCollection collection existsAt =>
    obtain ⟨result, validated, rfl⟩ := Option.map_eq_some_iff.mp looked
    exact validateCollection_eq_iff validated
  | failing op =>
    rw [look] at looked
    split at looked
    · rename_i failed
      cases looked
      exact failing_eq_iff failed
    · cases looked

/-- Looking leaves the library as it was, throughout, exactly if each look sets only flags
that are set. -/
theorem looks_unchanged_iff (manager : Manager) (ops : List LookOp) :
    Throughout look (Unchanged manager.cache) manager ops ↔ Meets look FlagsSet manager ops := by
  refine throughout_iff_of_exact ?_ (unchanged_iff.mpr rfl)
  intro state op next unchanged looked
  rw [unchanged_iff, ← look_eq_iff looked, unchanged_iff.mp unchanged]

/-- A manager with a loaded collection, as no flag is set after a load. -/
def loadedNature : Manager := { cache := { cacheVec := [(ascii "nature", {})] } }

/-- A look at the collection makes the library another one. -/
theorem getCache_flags : loadedNature.look (.getCache ⟨ascii "nature", []⟩) =
      some { cache := { cacheVec := [(ascii "nature", { modified := true })] } } ∧
    ¬ Throughout look (Unchanged loadedNature.cache) loadedNature [.getCache ⟨ascii "nature", []⟩] := by
  have looked : loadedNature.look (.getCache ⟨ascii "nature", []⟩) =
      some { cache := { cacheVec := [(ascii "nature", { modified := true })] } } := rfl
  refine ⟨looked, fun all => ?_⟩
  have flags := (all.2 _ looked).first.flags
  cases flags

end Manager

end Wallchanger
