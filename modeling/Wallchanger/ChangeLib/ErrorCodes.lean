import Wallchanger.ChangeLib.Json
import Wallchanger.ChangeLib.WallCacheLibrary

/-! The errors that the operations of the library report, and what holds when they do. -/

namespace Wallchanger

open Foundation

/-- A call that may answer with an error. -/
inductive Request where
  | insert (name : Bytes) (value : Cache Bytes)
  | getCache (name : StringView)
  | getCacheMut (name : StringView)
  | changeActive (newActive : StringView)
  | renameStore (fromName toName : StringView)
  | remove (name : StringView)
  | removeCacheItem (cacheName itemName : StringView)
  | mergeCache (col1 col2 : StringView)
  | moveCacheItem (source dest itemName : StringView)

def errorOf {α : Type u} (result : Except WallErrc α) : Option WallErrc :=
  match result with
  | .ok _ => none
  | .error code => some code

/-- The code that a call answers with, if it answers with one. -/
def CacheLib.code (lib : CacheLib) : Request → Option WallErrc
  | .insert name value => errorOf (lib.insert name value).2
  | .getCache name => errorOf (lib.getCache name)
  | .getCacheMut name => errorOf (lib.getCacheMut name)
  | .changeActive newActive => errorOf (lib.changeActive newActive).2
  | .renameStore fromName toName => errorOf (lib.renameStore fromName toName).2
  | .remove name => errorOf (lib.remove name).2
  | .removeCacheItem cacheName itemName => errorOf (lib.removeCacheItem cacheName itemName).2
  | .mergeCache col1 col2 => (lib.mergeCache col1 col2).bind (fun merged => errorOf merged.2)
  | .moveCacheItem source dest itemName =>
    (lib.moveCacheItem source dest itemName).bind (fun moved => errorOf moved.2)

namespace Request

/-- The collections that a call needs. -/
def required : Request → List Bytes
  | .insert _ _ => []
  | .getCache name | .getCacheMut name | .changeActive name | .remove name => [name.chars]
  | .renameStore fromName _ => [fromName.chars]
  | .removeCacheItem cacheName _ => [cacheName.chars]
  | .mergeCache col1 col2 => [col1.chars, col2.chars]
  | .moveCacheItem source dest _ => [source.chars, dest.chars]

/-- The name that no collection may have yet. -/
def free : Request → Option Bytes
  | .insert name _ => some name
  | .renameStore _ toName => some toName.chars
  | _ => none

/-- The two names of collections that must not be one. -/
def collections : Request → Option (Bytes × Bytes)
  | .renameStore fromName toName => some (fromName.chars, toName.chars)
  | .mergeCache col1 col2 => some (col1.chars, col2.chars)
  | .moveCacheItem source dest _ => some (source.chars, dest.chars)
  | _ => none

/-- The item that is looked for, and the collection where. -/
def item : Request → Option (Bytes × Bytes)
  | .removeCacheItem cacheName itemName => some (cacheName.chars, itemName.chars)
  | .moveCacheItem source _ itemName => some (source.chars, itemName.chars)
  | _ => none

end Request

/-- What the codes say holds. A name that is taken is the ground of a rejection where the
collections that the call needs exist, and no two names are one that must not be. -/
structure CacheLib.Truthful (lib : CacheLib) (request : Request) : Prop where
  doesNotExist : lib.code request = some .cacheDoesNotExists → ∃ name ∈ request.required, name ∉ lib.names
  taken : ∀ code, lib.code request = some code → (∀ name ∈ request.required, name ∈ lib.names) →
    (∀ names, request.collections = some names → names.1 ≠ names.2) →
    (∃ name, request.free = some name ∧ name ∈ lib.names) → code = .cacheExists
  same : lib.code request = some .cacheFrmCacheToSame → ∃ name, request.collections = some (name, name)
  elemNotExists : lib.code request = some .cacheElemNotExists →
    (∀ name ∈ request.required, name ∈ lib.names) ∧ ∃ collection value,
      request.item = some (collection, value) ∧
        ∀ cache, lib.Collection collection cache → value ∉ cache.values

/-- That a call does not answer with a wrong code. -/
def CacheLib.Answerable (lib : CacheLib) : Request → Prop
  | .insert name _ => name ∉ lib.names
  | .renameStore fromName toName =>
    fromName.chars ≠ toName.chars → fromName.chars ∈ lib.names → toName.chars ∉ lib.names
  | .moveCacheItem source dest itemName => source.chars ≠ dest.chars → dest.chars ≠ itemName.chars ∧
    (dest.chars ∈ lib.names → ∀ cache, lib.Collection source.chars cache →
      itemName.chars ∈ cache.values → itemName.data ∈ cache.values)
  | _ => True

namespace CacheLib

/-- A code together with the ground for it. -/
inductive Grounded (lib : CacheLib) (request : Request) : WallErrc → Prop where
  | doesNotExist (needed : name ∈ request.required) (missing : name ∉ lib.names) :
      Grounded lib request .cacheDoesNotExists
  | same (names : request.collections = some (name, name)) : Grounded lib request .cacheFrmCacheToSame
  | elemNotExists (listed : ∀ name ∈ request.required, name ∈ lib.names)
      (searched : request.item = some (collection, value))
      (absent : ∀ cache, lib.Collection collection cache → value ∉ cache.values)
      (untaken : request.free = none) : Grounded lib request .cacheElemNotExists
  | nameItemSame (untaken : request.free = none) : Grounded lib request .cacheNameItemNameSame

theorem truthful_of_grounded {lib : CacheLib} {request : Request}
    (grounded : ∀ code, lib.code request = some code → lib.Grounded request code) : lib.Truthful request where
  doesNotExist answered := by
    cases grounded _ answered with
    | doesNotExist needed missing => exact ⟨_, needed, missing⟩
  taken code answered listed different taken := by
    obtain ⟨name, wanted, _⟩ := taken
    cases grounded code answered with
    | doesNotExist needed missing => exact absurd (listed _ needed) missing
    | same names => exact absurd rfl (different _ names)
    | elemNotExists _ _ _ untaken => cases untaken.symm.trans wanted
    | nameItemSame untaken => cases untaken.symm.trans wanted
  same answered := by
    cases grounded _ answered with
    | same names => exact ⟨_, names⟩
  elemNotExists answered := by
    cases grounded _ answered with
    | elemNotExists listed searched absent _ => exact ⟨listed, _, _, searched, absent⟩

/-- The calls that need one collection and nothing else. -/
theorem truthful_of_single {lib : CacheLib} {request : Request} (name : Bytes)
    (required : request.required = [name])
    (code : lib.code request = if name ∈ lib.names then none else some .cacheDoesNotExists) :
    lib.Truthful request := by
  refine truthful_of_grounded (fun answer answered => ?_)
  rw [code] at answered
  split at answered
  · cases answered
  · rename_i missing
    cases answered
    exact .doesNotExist (required ▸ List.mem_singleton_self name) missing

/-! ### The code of each call -/

theorem code_insert (lib : CacheLib) (name : Bytes) (value : Cache Bytes) :
    lib.code (.insert name value) = if name ∈ lib.names then some .cacheDoesNotExists else none := by
  rw [code, insert_eq]
  split <;> rfl

theorem code_getCache (lib : CacheLib) (name : StringView) :
    lib.code (.getCache name) = if name.chars ∈ lib.names then none else some .cacheDoesNotExists := by
  rw [code, getCache]
  by_cases listed : name.chars ∈ lib.names
  · obtain ⟨cache, found⟩ := collection_of_mem listed
    unfold Collection at found
    rw [if_pos ((lib.existsCache_iff _).mpr listed), if_pos listed, found]
    rfl
  · rw [if_neg (fun present => listed ((lib.existsCache_iff _).mp present)), if_neg listed]
    rfl

theorem code_getCacheMut (lib : CacheLib) (name : StringView) :
    lib.code (.getCacheMut name) = if name.chars ∈ lib.names then none else some .cacheDoesNotExists := by
  rw [code]
  by_cases listed : name.chars ∈ lib.names
  · obtain ⟨cache, found⟩ := collection_of_mem listed
    rw [getCacheMut_of_collection name found, if_pos listed]
    rfl
  · rw [getCacheMut_of_not_mem name listed, if_neg listed]
    rfl

theorem code_changeActive (lib : CacheLib) (name : StringView) :
    lib.code (.changeActive name) = if name.chars ∈ lib.names then none else some .cacheDoesNotExists := by
  rw [code, changeActive]
  by_cases listed : name.chars ∈ lib.names
  · rw [if_pos ((lib.existsCache_iff _).mpr listed), if_pos listed]
    dsimp only
    split <;> rfl
  · rw [if_neg (fun present => listed ((lib.existsCache_iff _).mp present)), if_neg listed]
    rfl

theorem code_renameStore (lib : CacheLib) (fromName toName : StringView) :
    lib.code (.renameStore fromName toName) =
      if fromName.chars = toName.chars then some .cacheFrmCacheToSame
      else if fromName.chars ∈ lib.names ∧ toName.chars ∉ lib.names then none
      else some .cacheDoesNotExists := by
  rw [code, renameStore_eq]
  split
  · rfl
  · split <;> rfl

theorem code_remove (lib : CacheLib) (name : StringView) :
    lib.code (.remove name) = if name.chars ∈ lib.names then none else some .cacheDoesNotExists := by
  rw [code, remove_eq]
  split <;> rfl

theorem code_mergeCache (lib : CacheLib) (col1 col2 : StringView) :
    lib.code (.mergeCache col1 col2) =
      if col1.chars = col2.chars then some .cacheFrmCacheToSame
      else if col1.chars ∈ lib.names ∧ col2.chars ∈ lib.names then none
      else some .cacheDoesNotExists := by
  rw [code]
  by_cases same : col1.chars = col2.chars
  · rw [mergeCache, if_neg (not_not.mpr same), if_pos same]
    rfl
  rw [if_neg same]
  by_cases both : col1.chars ∈ lib.names ∧ col2.chars ∈ lib.names
  · obtain ⟨_, _, _, _, merged⟩ := mergeCache_of_mergeable ⟨same, both⟩
    rw [merged, if_pos both]
    rfl
  · have missing : ¬ (lib.existsCache col1.chars && lib.existsCache col2.chars) = true := by
      simpa only [Bool.and_eq_true, existsCache_iff] using both
    rw [mergeCache, if_pos same, if_neg missing, if_neg both]
    rfl

theorem code_moveCacheItem_same {lib : CacheLib} {source dest itemName : StringView}
    (blocked : source.chars = dest.chars ∨ dest.chars = itemName.chars) :
    lib.code (.moveCacheItem source dest itemName) = some .cacheFrmCacheToSame := by
  have guard : ¬ (source.chars ≠ dest.chars ∧ dest.chars ≠ itemName.chars) :=
    fun both => blocked.elim both.1 both.2
  rw [code, moveCacheItem, if_neg guard]
  rfl

theorem code_moveCacheItem_missing {lib : CacheLib} {source dest itemName : StringView}
    (different : source.chars ≠ dest.chars) (other : dest.chars ≠ itemName.chars)
    (missing : ¬ (source.chars ∈ lib.names ∧ dest.chars ∈ lib.names)) :
    lib.code (.moveCacheItem source dest itemName) = some .cacheDoesNotExists := by
  have absent : ¬ (lib.existsCache source.chars && lib.existsCache dest.chars) = true := by
    simpa only [Bool.and_eq_true, existsCache_iff] using missing
  rw [code, moveCacheItem, if_pos ⟨different, other⟩, if_neg absent]
  rfl

/-- Past the other errors, the item is missed if its C string is. -/
theorem code_moveCacheItem_found {lib : CacheLib} {source dest itemName : StringView}
    (different : source.chars ≠ dest.chars) (other : dest.chars ≠ itemName.chars)
    (found : lib.Collection source.chars cache) (listed : dest.chars ∈ lib.names) :
    lib.code (.moveCacheItem source dest itemName) =
      if itemName.data ∈ cache.values then none else some .cacheElemNotExists := by
  have one := (lib.existsCache_iff source.chars).mpr found.listed
  have two := (lib.existsCache_iff dest.chars).mpr listed
  unfold Collection at found
  rw [code, moveCacheItem, if_pos ⟨different, other⟩, one, two]
  simp only [Bool.and_self, if_true, found, Option.bind_eq_bind, Option.bind_some]
  by_cases contained : itemName.data ∈ cache.values
  · rw [if_pos ((cache.contains_iff _).mpr contained), if_pos contained]
    cases cache.list[cache.findValue itemName.chars]? <;> rfl
  · rw [if_neg (fun inside => contained ((cache.contains_iff _).mp inside)), if_neg contained]
    rfl

/-! ### Which calls tell the truth -/

theorem truthful_insert_iff (lib : CacheLib) (name : Bytes) (value : Cache Bytes) :
    lib.Truthful (.insert name value) ↔ name ∉ lib.names := by
  constructor
  · intro truthful taken
    have answered : lib.code (.insert name value) = some .cacheDoesNotExists := by
      rw [code_insert, if_pos taken]
    obtain ⟨_, needed, _⟩ := truthful.doesNotExist answered
    cases needed
  · intro fresh
    refine truthful_of_grounded (fun code answered => ?_)
    rw [code_insert, if_neg fresh] at answered
    cases answered

theorem truthful_renameStore_iff (lib : CacheLib) (fromName toName : StringView) :
    lib.Truthful (.renameStore fromName toName) ↔
      (fromName.chars ≠ toName.chars → fromName.chars ∈ lib.names → toName.chars ∉ lib.names) := by
  constructor
  · intro truthful different listed taken
    have answered : lib.code (.renameStore fromName toName) = some .cacheDoesNotExists := by
      rw [code_renameStore, if_neg different, if_neg (fun guard => guard.2 taken)]
    obtain ⟨name, needed, missing⟩ := truthful.doesNotExist answered
    exact missing (List.mem_singleton.mp needed ▸ listed)
  · intro free
    refine truthful_of_grounded (fun code answered => ?_)
    rw [code_renameStore] at answered
    split at answered
    · rename_i equal
      cases answered
      exact .same (congrArg (fun name => some (fromName.chars, name)) equal.symm)
    · rename_i different
      split at answered
      · cases answered
      · rename_i blocked
        cases answered
        have missing : fromName.chars ∉ lib.names := fun listed => blocked ⟨listed, free different listed⟩
        exact .doesNotExist (List.mem_singleton_self _) missing

theorem truthful_mergeCache (lib : CacheLib) (col1 col2 : StringView) :
    lib.Truthful (.mergeCache col1 col2) := by
  refine truthful_of_grounded (fun code answered => ?_)
  rw [code_mergeCache] at answered
  split at answered
  · rename_i equal
    cases answered
    exact .same (congrArg (fun name => some (col1.chars, name)) equal.symm)
  · split at answered
    · cases answered
    · rename_i missing
      cases answered
      by_cases first : col1.chars ∈ lib.names
      · exact .doesNotExist (.tail _ (.head _)) (fun second => missing ⟨first, second⟩)
      · exact .doesNotExist (.head _) first

theorem truthful_removeCacheItem (lib : CacheLib) (cacheName itemName : StringView) :
    lib.Truthful (.removeCacheItem cacheName itemName) := by
  refine truthful_of_grounded (fun code answered => ?_)
  rw [CacheLib.code] at answered
  by_cases same : cacheName.chars = itemName.chars
  · rw [removeCacheItem_of_same same] at answered
    cases answered
    exact .nameItemSame rfl
  by_cases listed : cacheName.chars ∈ lib.names
  · obtain ⟨cache, found⟩ := collection_of_mem listed
    rw [removeCacheItem_of_found same found] at answered
    split at answered
    · cases answered
    · rename_i absent
      cases answered
      refine .elemNotExists ?_ rfl (fun other others => found.unique others ▸ absent) rfl
      exact fun name needed => List.mem_singleton.mp needed ▸ listed
  · rw [removeCacheItem_of_missing same listed] at answered
    cases answered
    exact .doesNotExist (List.mem_singleton_self _) listed

theorem truthful_moveCacheItem_iff (lib : CacheLib) (source dest itemName : StringView) :
    lib.Truthful (.moveCacheItem source dest itemName) ↔
      lib.Answerable (.moveCacheItem source dest itemName) := by
  constructor
  · intro truthful different
    have other : dest.chars ≠ itemName.chars := by
      intro equal
      obtain ⟨name, names⟩ := truthful.same (code_moveCacheItem_same (.inr equal))
      have ⟨one, two⟩ := Prod.mk.inj (Option.some.inj names)
      exact different (one.trans two.symm)
    refine ⟨other, fun listed cache found present => ?_⟩
    by_contra hidden
    have answered := code_moveCacheItem_found different other found listed
    rw [if_neg hidden] at answered
    obtain ⟨_, _, _, searched, absent⟩ := truthful.elemNotExists answered
    cases searched
    exact absent cache found present
  · intro answerable
    refine truthful_of_grounded (fun code answered => ?_)
    by_cases equal : source.chars = dest.chars
    · cases (code_moveCacheItem_same (.inl equal)).symm.trans answered
      exact .same (congrArg (fun name => some (source.chars, name)) equal.symm)
    have ⟨other, visible⟩ := answerable equal
    by_cases both : source.chars ∈ lib.names ∧ dest.chars ∈ lib.names
    · obtain ⟨cache, found⟩ := collection_of_mem both.1
      rw [code_moveCacheItem_found equal other found both.2] at answered
      split at answered
      · cases answered
      · rename_i hidden
        cases answered
        have absent : itemName.chars ∉ cache.values := fun present => hidden (visible both.2 cache found present)
        refine .elemNotExists ?_ rfl (fun other others => found.unique others ▸ absent) rfl
        simpa [Request.required] using both
    · cases (code_moveCacheItem_missing equal other both).symm.trans answered
      by_cases first : source.chars ∈ lib.names
      · exact .doesNotExist (.tail _ (.head _)) (fun second => both ⟨first, second⟩)
      · exact .doesNotExist (.head _) first

/-- The codes tell the truth exactly if no name that has to be free is taken, and an item
that moves is not named like the collection it goes to and is there by its C string if it is
by its view. -/
theorem truthful_iff (lib : CacheLib) (request : Request) :
    lib.Truthful request ↔ lib.Answerable request := by
  cases request with
  | insert name value => exact lib.truthful_insert_iff name value
  | getCache name => exact iff_of_true (truthful_of_single name.chars rfl (lib.code_getCache name)) trivial
  | getCacheMut name =>
    exact iff_of_true (truthful_of_single name.chars rfl (lib.code_getCacheMut name)) trivial
  | changeActive name =>
    exact iff_of_true (truthful_of_single name.chars rfl (lib.code_changeActive name)) trivial
  | renameStore fromName toName => exact lib.truthful_renameStore_iff fromName toName
  | remove name => exact iff_of_true (truthful_of_single name.chars rfl (lib.code_remove name)) trivial
  | removeCacheItem cacheName itemName =>
    exact iff_of_true (lib.truthful_removeCacheItem cacheName itemName) trivial
  | mergeCache col1 col2 => exact iff_of_true (lib.truthful_mergeCache col1 col2) trivial
  | moveCacheItem source dest itemName => exact lib.truthful_moveCacheItem_iff source dest itemName

/-- A name that is taken is reported as one that does not exist. -/
theorem taken_name_misreported :
    code { cacheVec := [(ascii "nature", {})] } (.insert (ascii "nature") {}) = some .cacheDoesNotExists ∧
      ¬ Truthful { cacheVec := [(ascii "nature", {})] } (.insert (ascii "nature") {}) := by
  refine ⟨rfl, fun truthful => ?_⟩
  exact (truthful_insert_iff _ _ _).mp truthful (List.mem_singleton_self _)

end CacheLib

end Wallchanger
