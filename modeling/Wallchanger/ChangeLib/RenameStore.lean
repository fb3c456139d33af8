import Wallchanger.ChangeLib.LibraryFile
import Wallchanger.ChangeLib.LibraryStep

/-! `rename_store` forward and back. The active name is a string of its own, so a
collection can be given the name that a removed one left behind. -/

namespace Wallchanger

open Foundation

namespace CacheLib

/-- The active name is that of the entry at a position, and of none before it. -/
def FindsActive (lib : CacheLib) (pos : Nat) : Prop :=
  pos < lib.cacheVec.length ∧ find lib.cacheVec lib.activeName = pos

theorem findsActive_iff (lib : CacheLib) (pos : Nat) :
    lib.FindsActive pos ↔ lib.activeName ∈ lib.names ∧ lib.names.idxOf lib.activeName = pos := by
  rw [FindsActive, find_eq_idxOf, ← length_keys]
  constructor
  · intro ⟨inside, place⟩
    exact ⟨List.idxOf_lt_length_iff.mp (place.symm ▸ inside), place⟩
  · intro ⟨listed, place⟩
    exact ⟨place ▸ List.idxOf_lt_length_iff.mpr listed, place⟩

/-- A rename changes one name and nothing else, leaves the active entry the active one,
and is taken back by the opposite rename. -/
structure Renames (lib next : CacheLib) (fromName toName : StringView) : Prop where
  entry : ∃ pos cache, lib.cacheVec[pos]? = some (fromName.chars, cache) ∧
    next.cacheVec = lib.cacheVec.set pos (toName.chars, cache) ∧ next.current = lib.current
  active : ∀ pos, next.FindsActive pos ↔ lib.FindsActive pos
  back : next.renameStore toName fromName = (lib, .ok true)

theorem renameStore_of {lib : CacheLib} {fromName toName : StringView} {cache : Cache Bytes}
    (found : lib.Collection fromName.chars cache) (fresh : toName.chars ∉ lib.names) :
    lib.renameStore fromName toName = ({ lib with
      cacheVec := lib.cacheVec.set (find lib.cacheVec fromName.chars) (toName.chars, cache)
      activeName := if fromName.chars = lib.activeName then toName.chars else lib.activeName },
        .ok true) := by
  have different : fromName.chars ≠ toName.chars := fun same => fresh (same ▸ found.listed)
  have place : lib.cacheVec[find lib.cacheVec fromName.chars]? = some (fromName.chars, cache) := found
  rw [renameStore_eq, if_neg different, if_pos ⟨found.listed, fresh⟩, List.modify_eq_set_getElem?, place]
  rfl

/-- What a successful rename starts from and leaves. -/
theorem renameStore_ok {lib next : CacheLib} {fromName toName : StringView}
    (renamed : lib.renameStore fromName toName = (next, .ok true)) :
    toName.chars ∉ lib.names ∧ ∃ cache, lib.Collection fromName.chars cache ∧ next = { lib with
      cacheVec := lib.cacheVec.set (find lib.cacheVec fromName.chars) (toName.chars, cache)
      activeName := if fromName.chars = lib.activeName then toName.chars else lib.activeName } := by
  have outcome := renamed
  rw [renameStore_eq] at outcome
  split at outcome
  · cases outcome
  · split at outcome
    · rename_i guard
      obtain ⟨cache, found⟩ := collection_of_mem guard.1
      exact ⟨guard.2, cache, found, (congrArg Prod.fst (renamed.symm.trans (renameStore_of found guard.2)))⟩
    · cases outcome

/-- The names once one of them is replaced. -/
theorem names_set (lib : CacheLib) (pos : Nat) (name active : Bytes) (cache : Cache Bytes) :
    names { lib with cacheVec := lib.cacheVec.set pos (name, cache), activeName := active } =
      lib.names.set pos name := List.map_set

section Renamed
variable {lib next : CacheLib} {fromName toName : StringView}
variable (renamed : lib.renameStore fromName toName = (next, .ok true))
include renamed

theorem names_of_renamed : next.names = lib.names.set (lib.names.idxOf fromName.chars) toName.chars := by
  obtain ⟨_, cache, _, rfl⟩ := renameStore_ok renamed
  rw [names_set, find_eq_idxOf]
  rfl

/-- The renamed entry is found by its new name where it was found by the old one. -/
theorem find_of_renamed : next.names.idxOf toName.chars = lib.names.idxOf fromName.chars := by
  obtain ⟨fresh, cache, found, _⟩ := renameStore_ok renamed
  rw [names_of_renamed renamed]
  exact idxOf_set_fresh fresh (List.idxOf_lt_length_iff.mpr found.listed)

/-- Every other name is found where it was. -/
theorem find_other_of_renamed {name : Bytes} (old : fromName.chars ≠ name) (new : toName.chars ≠ name) :
    next.names.idxOf name = lib.names.idxOf name := by
  obtain ⟨_, cache, found, _⟩ := renameStore_ok renamed
  have spot : lib.names[lib.names.idxOf fromName.chars]? ≠ some name := by
    rw [List.getElem?_idxOf found.listed]
    exact fun same => old (Option.some.inj same)
  rw [names_of_renamed renamed, idxOf_set_other spot new]

theorem activeName_of_renamed : next.activeName =
    if fromName.chars = lib.activeName then toName.chars else lib.activeName := by
  obtain ⟨_, cache, _, rfl⟩ := renameStore_ok renamed
  rfl

/-- The active entry stays the active one unless a stale active name is taken up. -/
theorem active_of_renamed_iff :
    (∀ pos, next.FindsActive pos ↔ lib.FindsActive pos) ↔ toName.chars ≠ lib.activeName := by
  obtain ⟨fresh, cache, found, _⟩ := renameStore_ok renamed
  have named := activeName_of_renamed renamed
  have carried : toName.chars ∈ next.names :=
    names_of_renamed renamed ▸ List.mem_set (List.idxOf_lt_length_iff.mpr found.listed) _
  simp only [findsActive_iff]
  by_cases was : fromName.chars = lib.activeName
  · rw [if_pos was] at named
    rw [named, ← was, find_of_renamed renamed]
    have different : toName.chars ≠ fromName.chars := fun same => fresh (same ▸ found.listed)
    exact ⟨fun _ => different, fun _ pos => ⟨fun both => ⟨found.listed, both.2⟩, fun both => ⟨carried, both.2⟩⟩⟩
  · rw [if_neg was] at named
    rw [named]
    constructor
    · intro same stale
      have taken := (same (next.names.idxOf lib.activeName)).mp ⟨stale ▸ carried, rfl⟩
      exact fresh (stale ▸ taken.1)
    · intro other pos
      have place := find_other_of_renamed renamed was other
      have length : next.names.length = lib.names.length := by
        rw [names_of_renamed renamed, List.length_set]
      rw [← List.idxOf_lt_length_iff, ← List.idxOf_lt_length_iff, place, length]

/-- The opposite rename is refused only if a second collection has the old name. -/
theorem back_of_renamed_iff (other : toName.chars ≠ lib.activeName) :
    next.renameStore toName fromName = (lib, .ok true) ↔
      fromName.chars ∉ lib.names.erase fromName.chars := by
  obtain ⟨fresh, cache, found, same⟩ := renameStore_ok renamed
  have different : fromName.chars ≠ toName.chars := fun same => fresh (same ▸ found.listed)
  have again : fromName.chars ∈ next.names ↔ fromName.chars ∈ lib.names.erase fromName.chars := by
    rw [names_of_renamed renamed, mem_set_idxOf_iff found.listed different]
  rw [← again]
  constructor
  · intro back
    exact (renameStore_ok back).1
  · intro free
    have place : find next.cacheVec toName.chars = find lib.cacheVec fromName.chars := by
      rw [find_eq_idxOf, find_eq_idxOf]
      exact find_of_renamed renamed
    obtain ⟨inside, here⟩ := List.getElem?_eq_some_iff.mp found
    have after : next.cacheVec = lib.cacheVec.set (find lib.cacheVec fromName.chars) (toName.chars, cache) :=
      congrArg CacheLib.cacheVec same
    have target : next.Collection toName.chars cache := by
      rw [Collection, place, after, List.getElem?_set_self inside]
    have restored : next.cacheVec.set (find next.cacheVec toName.chars) (fromName.chars, cache) =
        lib.cacheVec := by
      rw [place, after, List.set_set, ← here, List.set_getElem_self]
    have active : (if toName.chars = next.activeName then fromName.chars else next.activeName) =
        lib.activeName := by
      rw [activeName_of_renamed renamed]
      by_cases was : fromName.chars = lib.activeName
      · rw [if_pos was, if_pos rfl, was]
      · rw [if_neg was, if_neg other]
    have current : next.current = lib.current := by rw [same]
    rw [renameStore_of target free, restored, active, current]

end Renamed

/-- A successful rename changes one name only. It also leaves the active entry alone and
can be taken back exactly if the new name is not the active name, which no collection has
then, and no second collection has the old name, as none has after terminated views. -/
theorem rename_reversible_iff {lib next : CacheLib} {ops : List LibOp} {fromName toName : StringView}
    (reached : run step {} ops = some lib)
    (renamed : lib.renameStore fromName toName = (next, .ok true)) :
    (lib.Renames next fromName toName ↔
      toName.chars ≠ lib.activeName ∧ fromName.chars ∉ lib.names.erase fromName.chars) ∧
    ((∀ op ∈ ops, op.Terminated) → fromName.chars ∉ lib.names.erase fromName.chars) := by
  constructor
  · constructor
    · intro renames
      have other := (active_of_renamed_iff renamed).mp renames.active
      exact ⟨other, (back_of_renamed_iff renamed other).mp renames.back⟩
    · intro ⟨other, single⟩
      obtain ⟨_, cache, found, same⟩ := renameStore_ok renamed
      refine ⟨⟨_, cache, found, by rw [same], by rw [same]⟩, ?_, ?_⟩
      · exact (active_of_renamed_iff renamed).mpr other
      · exact (back_of_renamed_iff renamed other).mpr single
  · intro terminated
    have start : NamesDistinct {} := List.nodup_nil
    have permitted : Meets step (fun _ op => op.Terminated) {} ops :=
      meets_of_forall (fun op member _ => terminated op member) _
    have distinct : lib.NamesDistinct := run_preserves
      (fun _ _ _ distinct views taken => namesDistinct_step distinct views taken) start permitted reached
    exact List.Nodup.not_mem_erase distinct

theorem rename_reversible_iff_active : ∃ lib next,
    run step {} [.insert (ascii "nature") {}, .changeActive ⟨ascii "nature", []⟩] = some lib ∧
      lib.renameStore ⟨ascii "nature", []⟩ ⟨ascii "city", []⟩ = (next, .ok true) ∧
      lib.Renames next ⟨ascii "nature", []⟩ ⟨ascii "city", []⟩ := by
  refine ⟨_, _, rfl, rfl, ?_⟩
  have both := @rename_reversible_iff _ _ [.insert (ascii "nature") {}, .changeActive ⟨ascii "nature", []⟩]
    ⟨ascii "nature", []⟩ ⟨ascii "city", []⟩ rfl rfl
  exact both.1.mpr ⟨by decide, by decide⟩

/-- The active collection is removed, and another one is given its name: that one is now
found by the active name, and renaming it back takes the active name along. -/
theorem rename_takes_up_active_name : ∃ lib next,
    run step {} [.insert (ascii "nature") {}, .changeActive ⟨ascii "nature", []⟩,
        .remove ⟨ascii "nature", []⟩, .insert (ascii "city") {}] = some lib ∧
      lib.renameStore ⟨ascii "city", []⟩ ⟨ascii "nature", []⟩ = (next, .ok true) ∧
      ¬ lib.Renames next ⟨ascii "city", []⟩ ⟨ascii "nature", []⟩ ∧
      ¬ lib.FindsActive 0 ∧ next.FindsActive 0 ∧
      (next.renameStore ⟨ascii "nature", []⟩ ⟨ascii "city", []⟩).1.activeName = ascii "city" := by
  refine ⟨_, _, rfl, rfl, ?_, ?_, ?_, rfl⟩
  · intro renames
    exact absurd ((renames.active 0).mp ⟨by decide, by decide⟩).2 (by decide)
  · intro finds
    exact absurd finds.2 (by decide)
  · exact ⟨by decide, by decide⟩

end CacheLib

end Wallchanger
