import Wallchanger.ChangeApp.WallManager
import Wallchanger.ChangeLib.PathLookup

/-! The paths that items resolve to, after `add_to_collection` and `create_collection`.
A collection knows an item by its file name alone, whatever directory it is from. -/

namespace Wallchanger

open Foundation

namespace Manager

/-- An item stands for a file name in a directory. -/
def Resolves (manager : Manager) (item : CacheItem Bytes) (directory name : Bytes) : Prop :=
  manager.pathBuf.get item.loc = some directory ∧ item.cacheValue = name

/-- The table has no other directory under the checksum of this one. -/
def Uncollided (manager : Manager) (directory : Bytes) : Prop :=
  ∀ stored, manager.pathBuf.get (crc32 directory) = some stored → stored = directory

/-- Once such a directory is inserted, it is found under its checksum and where it was. -/
theorem get_insert_iff {manager : Manager} {directory : Bytes} (uncollided : manager.Uncollided directory)
    (loc : UInt32) : (manager.pathBuf.insert directory).get loc = some directory ↔
      loc = crc32 directory ∨ manager.pathBuf.get loc = some directory := by
  rw [PathTable.get_insert]
  by_cases here : crc32 directory = loc
  · subst here
    rw [if_pos rfl]
    refine ⟨fun _ => .inl rfl, fun _ => ?_⟩
    cases known : manager.pathBuf.get (crc32 directory) with
    | none => rfl
    | some stored => rw [uncollided stored known, Option.some_or]
  · rw [if_neg here, Option.or_none]
    exact ⟨.inr, fun either => either.resolve_left (Ne.symm here)⟩

/-! ### Adding a wallpaper -/

/-- What a true answer of `add_to_collection` says. -/
structure Added (manager next : Manager) (name wall : Bytes) (cache : Cache Bytes) : Prop where
  present : ∃ after, next.cache.Collection name after ∧ cache.list <+: after.list ∧
    ∃ item ∈ after.list, next.Resolves item (parentPath wall) (filename wall)
  others : ∀ pos, pos ≠ find manager.cache.cacheVec name →
    next.cache.cacheVec[pos]? = manager.cache.cacheVec[pos]?

/-- A true answer is right exactly if no wallpaper of that file name was there, or one that
is in the same directory. -/
theorem add_to_collection_iff {manager next : Manager} {collectionName : StringView} {wall : Bytes}
    {cache : Cache Bytes} (found : manager.cache.Collection collectionName.chars cache)
    (uncollided : manager.Uncollided (parentPath wall))
    (reported : manager.addToCollection collectionName wall = (next, true)) :
    manager.Added next collectionName.chars wall cache ↔
      (filename wall ∈ cache.values → ∃ item ∈ cache.list, item.cacheValue = filename wall ∧
        (item.loc = crc32 (parentPath wall) ∨ manager.pathBuf.get item.loc = some (parentPath wall))) := by
  have listed := (manager.cache.existsCache_iff _).mpr found.listed
  unfold addToCollection at reported
  simp only [if_pos listed] at reported
  cases reported
  have grown := CacheLib.collection_updateAt found (·.insert (filename wall) (crc32 (parentPath wall)))
  constructor
  · intro ⟨⟨after, there, _, item, member, known, named⟩, _⟩ present
    cases there.unique grown
    rw [Cache.insert_present present] at member
    exact ⟨item, member, named, (get_insert_iff uncollided item.loc).mp known⟩
  · intro same
    refine ⟨⟨_, grown, ?_⟩, fun pos other => List.getElem?_modify_ne _ _ (Ne.symm other)⟩
    by_cases present : filename wall ∈ cache.values
    · obtain ⟨item, member, named, place⟩ := same present
      rw [Cache.insert_present present]
      exact ⟨List.prefix_refl _, item, member, (get_insert_iff uncollided item.loc).mpr place, named⟩
    · rw [Cache.insert_absent present]
      refine ⟨List.prefix_append _ _, _, List.mem_append_right _ (List.mem_singleton.mpr rfl), ?_, rfl⟩
      exact (get_insert_iff uncollided _).mpr (.inl rfl)

/-- Adding a wallpaper a second time. -/
theorem add_to_collection_iff_again : ∃ manager next : Manager, ∃ cache : Cache Bytes,
    manager.addToCollection ⟨ascii "nature", []⟩ (ascii "/wall/lake.png") = (next, true) ∧
      ascii "lake.png" ∈ cache.values ∧
      manager.Added next (ascii "nature") (ascii "/wall/lake.png") cache := by
  let wall := ascii "/wall/lake.png"
  let cache : Cache Bytes := { list := [⟨ascii "lake.png", .used, crc32 (parentPath wall)⟩] }
  let manager : Manager := { cache := { cacheVec := [(ascii "nature", cache)] } }
  have reported : ∃ next, manager.addToCollection ⟨ascii "nature", []⟩ wall = (next, true) := ⟨_, rfl⟩
  obtain ⟨next, reported⟩ := reported
  have uncollided : manager.Uncollided (parentPath wall) := fun _ known => nomatch known
  have added := (@add_to_collection_iff manager next ⟨ascii "nature", []⟩ wall cache rfl uncollided
    reported).mpr (fun _ => ⟨_, List.mem_singleton.mpr rfl, rfl, .inl rfl⟩)
  exact ⟨manager, next, cache, reported, by decide, added⟩

/-- A wallpaper of that file name from another directory keeps the new one out, and the
answer is true all the same. -/
theorem same_name_not_added : ∃ manager next : Manager, ∃ cache : Cache Bytes,
    manager.cache.Collection (ascii "nature") cache ∧ manager.Uncollided (ascii "/new") ∧
      manager.addToCollection ⟨ascii "nature", []⟩ (ascii "/new/lake.png") = (next, true) ∧
      ¬ manager.Added next (ascii "nature") (ascii "/new/lake.png") cache := by
  let cache : Cache Bytes := Cache.insert {} (ascii "lake.png") (crc32 (ascii "/old"))
  let manager : Manager :=
    { cache := { cacheVec := [(ascii "nature", cache)] }, pathBuf := PathTable.insert {} (ascii "/old") }
  have unknown : manager.pathBuf.get (crc32 (ascii "/new")) = none := by decide
  have old : manager.pathBuf.get (crc32 (ascii "/old")) ≠ some (ascii "/new") := by decide
  have different : crc32 (ascii "/old") ≠ crc32 (ascii "/new") := by decide
  have uncollided : manager.Uncollided (ascii "/new") := fun _ known => nomatch unknown.symm.trans known
  refine ⟨manager, _, cache, rfl, uncollided, rfl, ?_⟩
  intro ⟨⟨after, found, _, item, member, known, named⟩, _⟩
  have same : after = cache := found.unique rfl
  subst same
  cases List.mem_singleton.mp member
  exact ((get_insert_iff uncollided _).mp known).elim different old

end Manager

end Wallchanger
