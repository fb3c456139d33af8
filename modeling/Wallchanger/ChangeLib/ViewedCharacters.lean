import Wallchanger.ChangeLib.ErrorCodes
import Wallchanger.ChangeLib.LibraryStep

/-! Two calls that view the same characters in different buffers. Some lookups compare the
views, others go through `data()` and read what the buffer holds up to a NUL. -/

namespace Wallchanger

open Foundation

/-- Calls of one operation whose arguments view equal characters. -/
inductive SameViews : LibOp → LibOp → Prop where
  | renameStore (fromName : fromName₁.chars = fromName₂.chars) (toName : toName₁.chars = toName₂.chars) :
      SameViews (.renameStore fromName₁ toName₁) (.renameStore fromName₂ toName₂)
  | removeCacheItem (cacheName : cacheName₁.chars = cacheName₂.chars)
      (itemName : itemName₁.chars = itemName₂.chars) :
      SameViews (.removeCacheItem cacheName₁ itemName₁) (.removeCacheItem cacheName₂ itemName₂)
  | mergeCache (col1 : col1₁.chars = col1₂.chars) (col2 : col2₁.chars = col2₂.chars) :
      SameViews (.mergeCache col1₁ col2₁) (.mergeCache col1₂ col2₂)
  | moveCacheItem (source : source₁.chars = source₂.chars) (dest : dest₁.chars = dest₂.chars)
      (itemName : itemName₁.chars = itemName₂.chars) :
      SameViews (.moveCacheItem source₁ dest₁ itemName₁) (.moveCacheItem source₂ dest₂ itemName₂)

namespace CacheLib

/-- Two calls leave one library with one answer, and neither reads past the items. -/
def Agree (lib : CacheLib) (op other : LibOp) : Prop :=
  ∃ outcome, lib.perform op = some outcome ∧ lib.perform other = some outcome

/-- What two calls read by `data()` makes no difference: the name of a merged collection, and
whether the item to move is found, by its C string as by its view. -/
def ReadsAlike (lib : CacheLib) : LibOp → LibOp → Prop
  | .mergeCache col1 col2, .mergeCache other _ => lib.Mergeable col1 col2 → col1.data = other.data
  | .moveCacheItem source dest itemName, .moveCacheItem _ _ other =>
    source.chars ≠ dest.chars → dest.chars ≠ itemName.chars → dest.chars ∈ lib.names →
      ∀ cache, lib.Collection source.chars cache →
        (itemName.data ∈ cache.values ↔ other.data ∈ cache.values) ∧
          (itemName.data ∈ cache.values → itemName.chars ∈ cache.values)
  | _, _ => True

/-! ### One operation at a time -/

theorem renameStore_congr (lib : CacheLib) (fromName : fromName₁.chars = fromName₂.chars)
    (toName : toName₁.chars = toName₂.chars) :
    lib.renameStore fromName₁ toName₁ = lib.renameStore fromName₂ toName₂ := by
  simp only [renameStore, fromName, toName]

theorem removeCacheItem_congr (lib : CacheLib) (cacheName : cacheName₁.chars = cacheName₂.chars)
    (itemName : itemName₁.chars = itemName₂.chars) :
    lib.removeCacheItem cacheName₁ itemName₁ = lib.removeCacheItem cacheName₂ itemName₂ := by
  simp only [removeCacheItem, cacheName, itemName]

theorem remove_congr (lib : CacheLib) (name : name₁.chars = name₂.chars) :
    lib.remove name₁ = lib.remove name₂ := by
  simp only [remove, name]

theorem mergeCache_congr (lib : CacheLib) (col1 : col1₁.chars = col1₂.chars)
    (col2 : col2₁.chars = col2₂.chars) (data : lib.Mergeable col1₁ col2₁ → col1₁.data = col1₂.data) :
    lib.mergeCache col1₁ col2₁ = lib.mergeCache col1₂ col2₂ := by
  unfold mergeCache
  rw [lib.remove_congr col1, remove_congr _ col2]
  unfold Mergeable at data
  rw [col1, col2] at data ⊢
  split
  · rename_i different
    split
    · rename_i both
      obtain ⟨one, two⟩ := Bool.and_eq_true_iff.mp both
      rw [data ⟨different, (lib.existsCache_iff _).mp one, (lib.existsCache_iff _).mp two⟩]
    · rfl
  · rfl

theorem moveCacheItem_congr (lib : CacheLib) (source : source₁.chars = source₂.chars)
    (dest : dest₁.chars = dest₂.chars) (itemName : itemName₁.chars = itemName₂.chars)
    (data : source₁.chars ≠ dest₁.chars → dest₁.chars ≠ itemName₁.chars → dest₁.chars ∈ lib.names →
      ∀ cache, lib.Collection source₁.chars cache →
        (itemName₁.data ∈ cache.values ↔ itemName₂.data ∈ cache.values)) :
    lib.moveCacheItem source₁ dest₁ itemName₁ = lib.moveCacheItem source₂ dest₂ itemName₂ := by
  unfold moveCacheItem
  rw [source, dest, itemName] at data ⊢
  split
  · rename_i guard
    split
    · rename_i both
      obtain ⟨one, two⟩ := Bool.and_eq_true_iff.mp both
      obtain ⟨cache, found⟩ := collection_of_mem ((lib.existsCache_iff _).mp one)
      have alike : cache.contains itemName₁.data = cache.contains itemName₂.data := by
        rw [Bool.eq_iff_iff, Cache.contains_iff, Cache.contains_iff]
        exact data guard.1 guard.2 ((lib.existsCache_iff _).mp two) cache found
      unfold Collection at found
      simp only [found, Option.bind_eq_bind, Option.bind_some, alike]
    · rfl
  · rfl

/-- A merge that goes through tells what it read for the name. -/
theorem data_eq_of_merged {lib : CacheLib}
    (same : lib.mergeCache col1₁ col2₁ = lib.mergeCache col1₂ col2₂) (col1 : col1₁.chars = col1₂.chars)
    (col2 : col2₁.chars = col2₂.chars) (mergeable : lib.Mergeable col1₁ col2₁) :
    col1₁.data = col1₂.data := by
  obtain ⟨_, _, _, _, merged⟩ := mergeCache_of_mergeable mergeable
  unfold Mergeable at mergeable
  rw [col1, col2] at mergeable
  obtain ⟨_, _, _, _, merged'⟩ := mergeCache_of_mergeable mergeable
  rw [merged, merged'] at same
  have last := congrArg (Option.map (fun merged => merged.1.cacheVec.getLast?.map Prod.fst)) same
  simpa using last

/-- A move that agrees with another found as much as that one. -/
theorem found_iff_of_moved {lib : CacheLib} (source : source₁.chars = source₂.chars)
    (dest : dest₁.chars = dest₂.chars) (itemName : itemName₁.chars = itemName₂.chars)
    (different : source₁.chars ≠ dest₁.chars) (other : dest₁.chars ≠ itemName₁.chars)
    (listed : dest₁.chars ∈ lib.names) (found : lib.Collection source₁.chars cache)
    (same : lib.moveCacheItem source₁ dest₁ itemName₁ = lib.moveCacheItem source₂ dest₂ itemName₂) :
    itemName₁.data ∈ cache.values ↔ itemName₂.data ∈ cache.values := by
  have codes : lib.code (.moveCacheItem source₁ dest₁ itemName₁) =
      lib.code (.moveCacheItem source₂ dest₂ itemName₂) := by
    rw [code, code, same]
  rw [code_moveCacheItem_found different other found listed] at codes
  rw [source, dest] at different
  rw [dest, itemName] at other
  rw [dest] at listed
  rw [source] at found
  rw [code_moveCacheItem_found different other found listed] at codes
  constructor
  · intro contained
    by_contra hidden
    rw [if_pos contained, if_neg hidden] at codes
    cases codes
  · intro contained
    by_contra hidden
    rw [if_pos contained, if_neg hidden] at codes
    cases codes

/-- Two calls that view the same characters agree exactly if they read alike. -/
theorem agree_iff {lib : CacheLib} {op other : LibOp} (views : SameViews op other) :
    lib.Agree op other ↔ lib.ReadsAlike op other := by
  cases views with
  | renameStore fromName toName =>
    refine iff_of_true ⟨_, rfl, ?_⟩ trivial
    exact congrArg some (lib.renameStore_congr fromName.symm toName.symm)
  | removeCacheItem cacheName itemName =>
    refine iff_of_true ⟨_, rfl, ?_⟩ trivial
    exact congrArg some (lib.removeCacheItem_congr cacheName.symm itemName.symm)
  | mergeCache col1 col2 =>
    constructor
    · intro ⟨outcome, one, two⟩ mergeable
      exact data_eq_of_merged (one.trans two.symm) col1 col2 mergeable
    · intro data
      obtain ⟨outcome, merged⟩ := lib.mergeCache_defined _ _
      exact ⟨outcome, merged, (lib.mergeCache_congr col1 col2 data).symm.trans merged⟩
  | moveCacheItem source dest itemName =>
    constructor
    · intro ⟨outcome, one, two⟩ different other listed cache found
      refine ⟨found_iff_of_moved source dest itemName different other listed found (one.trans two.symm), ?_⟩
      exact (lib.moveCacheItem_defined_iff _ _ _).mp ⟨outcome, one⟩ different other listed cache found
    · intro alike
      obtain ⟨outcome, moved⟩ := (lib.moveCacheItem_defined_iff _ _ _).mpr
        (fun different other listed cache found => (alike different other listed cache found).2)
      refine ⟨outcome, moved, (lib.moveCacheItem_congr source dest itemName ?_).symm.trans moved⟩
      exact fun different other listed cache found => (alike different other listed cache found).1

/-- Two empty collections. -/
def natureAndCity : CacheLib := { cacheVec := [(ascii "nature", {}), (ascii "city", {})] }

/-- The merged collection is named by all that the buffer holds. -/
theorem merged_name_from_buffer :
    SameViews (.mergeCache ⟨ascii "nature", []⟩ ⟨ascii "city", []⟩)
        (.mergeCache ⟨ascii "nature", ascii "-2"⟩ ⟨ascii "city", []⟩) ∧
      ¬ natureAndCity.Agree (.mergeCache ⟨ascii "nature", []⟩ ⟨ascii "city", []⟩)
        (.mergeCache ⟨ascii "nature", ascii "-2"⟩ ⟨ascii "city", []⟩) := by
  refine ⟨.mergeCache rfl rfl, fun ⟨outcome, one, two⟩ => ?_⟩
  have mergeable : natureAndCity.Mergeable ⟨ascii "nature", []⟩ ⟨ascii "city", []⟩ :=
    ⟨by decide, .head _, .tail _ (.head _)⟩
  have same : natureAndCity.mergeCache ⟨ascii "nature", []⟩ ⟨ascii "city", []⟩ =
      natureAndCity.mergeCache ⟨ascii "nature", ascii "-2"⟩ ⟨ascii "city", []⟩ := one.trans two.symm
  have data := data_eq_of_merged same rfl rfl mergeable
  exact absurd data (by decide)

/-- Behind a NUL the buffers may differ. -/
theorem agree_before_nul :
    natureAndCity.Agree (.mergeCache ⟨ascii "nature", []⟩ ⟨ascii "city", []⟩)
      (.mergeCache ⟨ascii "nature", 0 :: ascii "-2"⟩ ⟨ascii "city", ascii "-2"⟩) :=
  (agree_iff (.mergeCache rfl rfl)).mpr (fun _ => by decide)

end CacheLib

end Wallchanger
