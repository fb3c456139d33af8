import Wallchanger.ChangeLib.WallCacheLibrary
import Wallchanger.Foundation.Directory
import Wallchanger.Foundation.Run

/-! The library as a state machine: one action per mutating operation, and the
directory of names that every action changes as a unit. -/

namespace Wallchanger

open Foundation

/-- A call that may change the library. The last two are made through references
into it: `cache::insert` on a stored collection and a write to an item's state. -/
inductive LibOp where
  | insert (name : Bytes) (value : Cache Bytes)
  | changeActive (newActive : StringView)
  | renameStore (fromName toName : StringView)
  | remove (name : StringView)
  | removeCacheItem (cacheName itemName : StringView)
  | mergeCache (col1 col2 : StringView)
  | moveCacheItem (source dest itemName : StringView)
  | insertItem (name value : Bytes) (loc : UInt32)
  | setState (pos idx : Nat) (state : CacheState)

def Cache.setState {Value : Type u} (cache : Cache Value) (idx : Nat) (state : CacheState) : Cache Value :=
  { list := cache.list.modify idx (fun item => { item with cacheState := state }), modified := true }

namespace CacheLib

/-- A state written through a span, that of the current collection or of one found
by its name; `none` where the span has no such item. -/
def setState (lib : CacheLib) (pos idx : Nat) (state : CacheState) : Option (CacheLib × Expected) := do
  let store ← lib.cacheVec[pos]?
  if idx < store.2.size then
    return ({ lib with cacheVec := lib.cacheVec.modify pos (Prod.map id (·.setState idx state)) }, .ok true)
  else none

/-- `cache::insert` on the collection `operator[]` finds, after `exists`. -/
def insertItem (lib : CacheLib) (name value : Bytes) (loc : UInt32) : CacheLib × Expected :=
  if lib.existsCache name then (lib.updateAt name (·.insert value loc), .ok true)
  else (lib, .error .cacheDoesNotExists)

/-- The library and the answer an operation leaves; `none` is undefined behaviour. -/
def perform (lib : CacheLib) : LibOp → Option (CacheLib × Expected)
  | .insert name value => some (lib.insert name value)
  | .changeActive newActive => some (lib.changeActive newActive)
  | .renameStore fromName toName => some (lib.renameStore fromName toName)
  | .remove name => some (lib.remove name)
  | .removeCacheItem cacheName itemName => some (lib.removeCacheItem cacheName itemName)
  | .mergeCache col1 col2 => lib.mergeCache col1 col2
  | .moveCacheItem source dest itemName => lib.moveCacheItem source dest itemName
  | .insertItem name value loc => some (lib.insertItem name value loc)
  | .setState pos idx state => lib.setState pos idx state

def step (lib : CacheLib) (op : LibOp) : Option CacheLib := (lib.perform op).map Prod.fst

/-- A step whose operation reports success. -/
def stepOk (lib : CacheLib) (op : LibOp) : Option CacheLib :=
  match lib.perform op with
  | some (next, .ok true) => some next
  | _ => none

/-- The library that an outcome leaves. -/
theorem next_of_performed {outcome : CacheLib × Expected}
    (performed : some outcome = some (next, result)) : outcome.1 = next :=
  congrArg Prod.fst (Option.some.inj performed)

theorem setState_cases {lib next : CacheLib} {pos idx : Nat} {state : CacheState}
    (performed : lib.setState pos idx state = some (next, result)) :
    ∃ store, lib.cacheVec[pos]? = some store ∧ idx < store.2.list.length ∧
      next = { lib with
        cacheVec := lib.cacheVec.modify pos (Prod.map id (·.setState idx state)) } := by
  obtain ⟨store, found, performed⟩ := Option.bind_eq_some_iff.mp performed
  split at performed
  · rename_i inside
    exact ⟨store, found, inside, (next_of_performed performed).symm⟩
  · cases performed

theorem step_eq_some {lib next : CacheLib} {op : LibOp} :
    lib.step op = some next ↔ ∃ result, lib.perform op = some (next, result) := by
  simp [step, Option.map_eq_some_iff]

theorem step_of_stepOk {lib next : CacheLib} {op : LibOp} (taken : lib.stepOk op = some next) :
    lib.step op = some next := by
  unfold stepOk at taken
  split at taken
  · rename_i after performed
    have same : after = next := Option.some.inj taken
    subst after
    exact step_eq_some.mpr ⟨_, performed⟩
  · simp at taken

theorem run_of_stepOk {lib final : CacheLib} {ops : List LibOp}
    (reached : run stepOk lib ops = some final) : run step lib ops = some final := by
  induction ops generalizing lib with
  | nil => exact reached
  | cons op rest ih =>
    obtain ⟨next, taken, later⟩ := run_cons.mp reached
    exact run_cons.mpr ⟨next, step_of_stepOk taken, ih later⟩

end CacheLib

namespace LibOp

/-- Arguments as the command line gives them: names without a NUL, and views with
a NUL right behind them. -/
def Terminated : LibOp → Prop
  | .insert name _ => 0 ∉ name
  | .changeActive newActive => newActive.Terminated
  | .renameStore fromName toName => fromName.Terminated ∧ toName.Terminated
  | .remove name => name.Terminated
  | .removeCacheItem cacheName itemName => cacheName.Terminated ∧ itemName.Terminated
  | .mergeCache col1 col2 => col1.Terminated ∧ col2.Terminated
  | .moveCacheItem source dest itemName =>
    source.Terminated ∧ dest.Terminated ∧ itemName.Terminated
  | .insertItem name value _ => 0 ∉ name ∧ 0 ∉ value
  | .setState _ _ _ => True

instance decidableTerminated : (op : LibOp) → Decidable op.Terminated
  | .insert name _ => inferInstanceAs (Decidable (0 ∉ name))
  | .changeActive view | .remove view => inferInstanceAs (Decidable view.Terminated)
  | .renameStore first second | .removeCacheItem first second | .mergeCache first second =>
    inferInstanceAs (Decidable (first.Terminated ∧ second.Terminated))
  | .moveCacheItem source dest itemName =>
    inferInstanceAs (Decidable (source.Terminated ∧ dest.Terminated ∧ itemName.Terminated))
  | .insertItem name value _ => inferInstanceAs (Decidable (0 ∉ name ∧ 0 ∉ value))
  | .setState _ _ _ => isTrue trivial

/-- An inserted collection was filled by `cache::insert`. -/
def Built : LibOp → Prop
  | .insert _ value => value.Built
  | _ => True

/-- What an operation does to the list of names and the active one. -/
def change : LibOp → Change Bytes
  | .insert name _ => .append name
  | .changeActive newActive => .select newActive.chars (2 ^ 32)
  | .renameStore fromName toName => .rename fromName.chars toName.chars
  | .remove name => .remove name.chars
  | .mergeCache col1 col2 => .merge col1.chars col2.chars col1.data
  | _ => .keep

theorem plain_of_terminated {op : LibOp} (terminated : op.Terminated) : op.change.Plain := by
  cases op with
  | mergeCache col1 col2 => exact StringView.data_of_terminated terminated.1
  | _ => trivial

end LibOp

namespace CacheLib

/-- The names, the active name and its index, without the collections. -/
def directory (lib : CacheLib) : Directory Bytes where
  names := lib.names
  active := lib.activeName
  current := lib.current.toNat

/-- A change of collections leaves the names alone. -/
theorem directory_modify (lib : CacheLib) (i : Nat) (change : Cache Bytes → Cache Bytes) :
    { lib with cacheVec := lib.cacheVec.modify i (Prod.map id change) }.directory = lib.directory := by
  have same : { lib with cacheVec := lib.cacheVec.modify i (Prod.map id change) }.names = lib.names :=
    keys_modify_value _ _ _ (fun _ => rfl)
  simp only [directory, same]

theorem directory_updateAt (lib : CacheLib) (name : Bytes) (change : Cache Bytes → Cache Bytes) :
    (lib.updateAt name change).directory = lib.directory :=
  lib.directory_modify (find lib.cacheVec name) change

private theorem directory_insert (lib : CacheLib) (name : Bytes) (value : Cache Bytes) :
    (lib.insert name value).1.directory = lib.directory.apply (.append name) := by
  rw [insert_eq]
  by_cases member : name ∈ lib.names
  · rw [if_pos member]
    exact (Directory.apply_append_mem member).symm
  · rw [if_neg member]
    refine Eq.trans ?_ (Directory.apply_append_fresh member).symm
    simp [directory, names, keys]

private theorem directory_changeActive (lib : CacheLib) (newActive : StringView) :
    (lib.changeActive newActive).1.directory =
      lib.directory.apply (.select newActive.chars (2 ^ 32)) := by
  by_cases member : newActive.chars ∈ lib.names
  · have width : (UInt32.ofNat (find lib.cacheVec newActive.chars)).toNat =
        lib.names.idxOf newActive.chars % 2 ^ 32 := by
      rw [UInt32.toNat_ofNat', find_eq_idxOf]
      rfl
    have inside : lib.names.idxOf newActive.chars % 2 ^ 32 < lib.cacheVec.length := by
      have bound := List.idxOf_lt_length_of_mem member
      rw [names, length_keys] at bound
      exact Nat.lt_of_le_of_lt (Nat.mod_le _ _) bound
    have found := List.getElem?_eq_getElem inside
    have spot : lib.directory.names[lib.directory.names.idxOf newActive.chars % 2 ^ 32]? =
        some lib.cacheVec[lib.names.idxOf newActive.chars % 2 ^ 32].1 :=
      (keys_getElem? ..).trans (congrArg (Option.map Prod.fst) found)
    rw [Directory.apply_select_mem member spot]
    simp only [changeActive, if_pos ((lib.existsCache_iff _).mpr member), width, found]
    simp [directory, width, names]
  · have absent := (lib.existsCache_eq_false newActive.chars).mpr member
    rw [Directory.apply_select_missing member]
    simp [changeActive, absent]

private theorem directory_renameStore (lib : CacheLib) (fromName toName : StringView) :
    (lib.renameStore fromName toName).1.directory =
      lib.directory.apply (.rename fromName.chars toName.chars) := by
  rw [renameStore_eq]
  by_cases guard : fromName.chars ∈ lib.names ∧ toName.chars ∉ lib.names
  · have different : fromName.chars ≠ toName.chars := fun same => guard.2 (same ▸ guard.1)
    have renamed := keys_modify_key lib.cacheVec (find lib.cacheVec fromName.chars) toName.chars
    rw [Directory.apply_rename_of guard, if_neg different, if_pos guard]
    rw [find_eq_idxOf] at renamed
    simp only [directory, names, find_eq_idxOf, renamed]
    rfl
  · rw [Directory.apply_rename_blocked guard, if_neg guard]
    split <;> rfl

private theorem directory_remove (lib : CacheLib) (name : StringView) :
    (lib.remove name).1.directory = lib.directory.apply (.remove name.chars) := by
  rw [remove_eq]
  by_cases member : name.chars ∈ lib.names
  · rw [if_pos member]
    simp only [Directory.apply, directory, names, keys_erase_find]
  · rw [if_neg member]
    simp only [Directory.apply, directory, List.erase_of_not_mem member]

private theorem directory_mergeCache {lib next : CacheLib} {col1 col2 : StringView}
    (merged : lib.mergeCache col1 col2 = some (next, result)) :
    next.directory = lib.directory.apply (.merge col1.chars col2.chars col1.data) := by
  by_cases mergeable : lib.Mergeable col1 col2
  · obtain ⟨first, second, _, _, outcome⟩ := mergeCache_of_mergeable mergeable
    rw [outcome] at merged
    have same : _ = next := next_of_performed merged
    have guard : col1.chars ≠ col2.chars ∧ col1.chars ∈ lib.directory.names ∧
        col2.chars ∈ lib.directory.names := mergeable
    rw [Directory.apply_merge_of guard, ← same]
    simp only [directory, names, keys_append, keys_without]
    rfl
  · obtain ⟨error, outcome⟩ := mergeCache_of_not_mergeable mergeable
    rw [outcome] at merged
    have same : lib = next := next_of_performed merged
    have blocked : ¬ (col1.chars ≠ col2.chars ∧ col1.chars ∈ lib.directory.names ∧
        col2.chars ∈ lib.directory.names) := mergeable
    rw [Directory.apply_merge_blocked blocked, same]

private theorem directory_removeCacheItem (lib : CacheLib) (cacheName itemName : StringView) :
    (lib.removeCacheItem cacheName itemName).1.directory = lib.directory := by
  rcases lib.removeCacheItem_cases cacheName itemName with
    ⟨kept, _⟩ | ⟨cache, _, ⟨_, outcome⟩ | ⟨_, outcome⟩⟩
  · rw [kept]
  · rw [outcome]
    exact lib.directory_updateAt _ _
  · rw [outcome]
    exact lib.directory_updateAt _ _

private theorem directory_moveCacheItem {lib next : CacheLib} {source dest itemName : StringView}
    (moved : lib.moveCacheItem source dest itemName = some (next, result)) :
    next.directory = lib.directory := by
  rcases moveCacheItem_cases moved with
    ⟨kept, _⟩ | ⟨different, other, listed, cache, item, found, contained, located⟩
  · rw [kept]
  · cases (moveCacheItem_updates different other found listed contained located).symm.trans moved
    exact (directory_updateAt _ _ _).trans (directory_updateAt _ _ _)

private theorem directory_insertItem (lib : CacheLib) (name value : Bytes) (loc : UInt32) :
    (lib.insertItem name value loc).1.directory = lib.directory := by
  unfold insertItem
  split
  · exact lib.directory_updateAt _ _
  · rfl

/-- Every step of the library is a change of its directory. -/
theorem directory_step {lib next : CacheLib} {op : LibOp} (taken : lib.step op = some next) :
    next.directory = lib.directory.apply op.change := by
  obtain ⟨result, performed⟩ := step_eq_some.mp taken
  cases op with
  | insert name value =>
    have same : (lib.insert name value).1 = next := next_of_performed performed
    exact same ▸ lib.directory_insert name value
  | changeActive newActive =>
    have same : (lib.changeActive newActive).1 = next := next_of_performed performed
    exact same ▸ lib.directory_changeActive newActive
  | renameStore fromName toName =>
    have same : (lib.renameStore fromName toName).1 = next := next_of_performed performed
    exact same ▸ lib.directory_renameStore fromName toName
  | remove name =>
    have same : (lib.remove name).1 = next := next_of_performed performed
    exact same ▸ lib.directory_remove name
  | removeCacheItem cacheName itemName =>
    have same : (lib.removeCacheItem cacheName itemName).1 = next := next_of_performed performed
    exact same ▸ lib.directory_removeCacheItem cacheName itemName
  | mergeCache col1 col2 => exact directory_mergeCache performed
  | moveCacheItem source dest itemName => exact directory_moveCacheItem performed
  | insertItem name value loc =>
    have same : (lib.insertItem name value loc).1 = next := next_of_performed performed
    exact same ▸ lib.directory_insertItem name value loc
  | setState pos idx state =>
    obtain ⟨store, _, _, rfl⟩ := setState_cases performed
    exact lib.directory_modify _ _

/-- No two collections have one name. -/
def NamesDistinct (lib : CacheLib) : Prop := lib.names.Nodup

/-- Among distinct names every collection is the one found by its name. -/
theorem collection_of_distinct {lib : CacheLib} (distinct : lib.NamesDistinct) {store : CacheStore}
    (member : store ∈ lib.cacheVec) : lib.Collection store.1 store.2 :=
  entry_at_find_of_nodup distinct member

theorem namesDistinct_step {lib next : CacheLib} {op : LibOp} (distinct : lib.NamesDistinct)
    (terminated : op.Terminated) (taken : lib.step op = some next) : next.NamesDistinct := by
  have named : next.names = (lib.directory.apply op.change).names :=
    congrArg Directory.names (directory_step taken)
  rw [NamesDistinct, named]
  exact Directory.nodup_apply op.change (LibOp.plain_of_terminated terminated) distinct

end CacheLib

end Wallchanger
