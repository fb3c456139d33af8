import Wallchanger.ChangeLib.JsonHelper
import Wallchanger.ChangeLib.SavedFile

/-! `serialize`, `deserialize` and the loading constructor of the library. -/

namespace Wallchanger

open Foundation

/-- The document `serialize` builds. -/
def libraryDocument (cacheVec : List CacheStore) (active : Bytes) : Json := .object
  [("active", toJson active), ("cache_libraries", vectorToJson cacheVec),
    ("total_count", .number cacheVec.length)]

namespace CacheLib

/-- `serialize`; `none` where `modified` reads the end iterator or the active index
is past the end. -/
def serialize (lib : CacheLib) (out : Output) (file : File) : Option Saved := do
  if ← lib.modified then
    let store ← lib.cacheVec[lib.current.toNat]?
    if out.opens then return out.write (libraryDocument lib.cacheVec store.1)
    else return ⟨file, .completed⟩
  else return ⟨file, .completed⟩

def deserialize (lib : CacheLib) : File → Except JsonError (CacheLib × Bool)
  | none => return (lib, false)
  | some (.fragment _) => throw .parseError
  | some (.document obj) => do
    let cacheVec ← if !obj.isNull then vectorFromJson (← obj.subscriptMut "cache_libraries")
      else pure lib.cacheVec
    let activeName ← fromJson (← obj.subscriptMut "active")
    return ({ lib with cacheVec, activeName }, true)

/-- `cache_lib(true)`. -/
def load (file : File) : Except JsonError CacheLib := do
  let (lib, read) ← deserialize {} file
  if read then
    let rngIt := find lib.cacheVec lib.activeName
    if rngIt ≠ lib.cacheVec.length then return { lib with current := UInt32.ofNat rngIt }
    else return { lib with current := 0 }
  else return lib

/-- Names and items of the collections, without the flags. -/
def collections (lib : CacheLib) : List (Bytes × List (CacheItem Bytes)) :=
  lib.cacheVec.map (fun store => (store.1, store.2.list))

/-- Some collection is flagged. -/
def Flagged (lib : CacheLib) : Prop := ∃ store ∈ lib.cacheVec, store.2.modified = true

/-- `modified` answers truly where it answers, and it answers unless collections
exist and none is flagged. -/
theorem modified_eq_some (lib : CacheLib) (answer : Bool) :
    lib.modified = some answer ↔
      (answer = true ∧ lib.Flagged) ∨ (answer = false ∧ lib.cacheVec = []) := by
  unfold modified isEmpty
  cases entries : lib.cacheVec with
  | nil =>
    constructor
    · intro same
      exact .inr ⟨(Option.some.inj same).symm, rfl⟩
    · rintro (⟨_, store, member, _⟩ | ⟨no, _⟩)
      · simp [entries] at member
      · simp [no]
  | cons head rest =>
    rw [List.isEmpty_cons, Bool.not_false, if_pos rfl, Option.map_eq_some_iff]
    constructor
    · rintro ⟨store, found, same⟩
      have flag := List.find?_some (p := fun store : CacheStore => store.2.modified) found
      exact .inl ⟨same.symm.trans flag, store, entries ▸ List.mem_of_find?_eq_some found, flag⟩
    · rintro (⟨yes, store, member, flag⟩ | ⟨_, empty⟩)
      · rw [entries] at member
        cases found : (head :: rest).find? (fun store => store.2.modified) with
        | none => exact absurd flag (by simpa using List.find?_eq_none.mp found store member)
        | some first =>
          exact ⟨first, rfl, (List.find?_some (p := fun store : CacheStore => store.2.modified) found).trans
            yes.symm⟩
      · simp at empty

/-- An empty library is never written. -/
theorem serialize_empty {lib : CacheLib} (empty : lib.cacheVec = []) (out : Output) (file : File) :
    lib.serialize out file = some ⟨file, .completed⟩ := by
  have answer := (lib.modified_eq_some false).mpr (.inr ⟨rfl, empty⟩)
  simp only [serialize, answer]
  rfl

/-- With collections there is an outcome only if one is flagged and the active
index is in range; then the library is written. -/
theorem serialize_eq_some {lib : CacheLib} (nonempty : lib.cacheVec ≠ []) (out : Output) (file : File)
    (saved : Saved) :
    lib.serialize out file = some saved ↔
      lib.Flagged ∧ ∃ store, lib.cacheVec[lib.current.toNat]? = some store ∧
        saved = if out.opens then out.write (libraryDocument lib.cacheVec store.1)
          else ⟨file, .completed⟩ := by
  constructor
  · intro outcome
    obtain ⟨answer, same, outcome⟩ := Option.bind_eq_some_iff.mp outcome
    rcases (lib.modified_eq_some answer).mp same with ⟨yes, flagged⟩ | ⟨_, empty⟩
    · rw [if_pos yes] at outcome
      obtain ⟨store, found, outcome⟩ := Option.bind_eq_some_iff.mp outcome
      refine ⟨flagged, store, found, ?_⟩
      by_cases opens : out.opens = true
      · rw [if_pos opens] at outcome ⊢
        exact (Option.some.inj outcome).symm
      · rw [if_neg opens] at outcome ⊢
        exact (Option.some.inj outcome).symm
    · exact absurd empty nonempty
  · rintro ⟨flagged, store, found, same⟩
    have answer := (lib.modified_eq_some true).mpr (.inl ⟨rfl, flagged⟩)
    simp only [serialize, answer, found, Option.bind_eq_bind, Option.bind_some, if_true]
    subst same
    split <;> rfl

/-- What reading a written library gives: the collections with repeated items
dropped, the written active name and the index of its first entry. -/
def reloaded (cacheVec : List CacheStore) (active : Bytes) : CacheLib where
  cacheVec := cacheVec.map (fun store => (store.1, store.2.reloaded))
  activeName := active
  current := if active ∈ keys cacheVec then UInt32.ofNat ((keys cacheVec).idxOf active) else 0

theorem keys_reloaded (cacheVec : List CacheStore) (active : Bytes) :
    (reloaded cacheVec active).names = keys cacheVec := by
  simp [names, keys, reloaded, List.map_map, Function.comp_def]

theorem load_document (cacheVec : List CacheStore) (active : Bytes) :
    load (some (.document (libraryDocument cacheVec active))) = .ok (reloaded cacheVec active) := by
  have vector : vectorFromJson (vectorToJson cacheVec) =
      .ok (cacheVec.map (fun store => (store.1, store.2.reloaded))) :=
    vector_fromJson_toJson (fun store _ => store_fromJson_toJson store)
  have names : keys (cacheVec.map (fun store => (store.1, store.2.reloaded))) = keys cacheVec :=
    keys_reloaded cacheVec active
  have read : deserialize {} (some (.document (libraryDocument cacheVec active))) = .ok
      ({ cacheVec := cacheVec.map (fun store => (store.1, store.2.reloaded)),
         activeName := active }, true) := by
    change (do
      let cacheVec ← (vectorFromJson (vectorToJson cacheVec) : Except JsonError (List CacheStore))
      return (({ cacheVec, activeName := active } : CacheLib), true)) = _
    rw [vector]
    rfl
  rw [load, read]
  change (if _ then _ else _ : Except JsonError CacheLib) = _
  by_cases member : active ∈ keys cacheVec
  · have inside := List.idxOf_lt_length_of_mem member
    rw [length_keys] at inside
    rw [if_pos (by simp [find_eq_idxOf, names]; omega)]
    simp [reloaded, find_eq_idxOf, names, member]
    rfl
  · have outside : (keys cacheVec).idxOf active = cacheVec.length := by
      rw [List.idxOf_of_notMem member, length_keys]
    rw [if_neg (by simp [find_eq_idxOf, names, outside])]
    simp [reloaded, member]
    rfl

/-- What a successful read has found: no file, or a document with its collections. -/
theorem deserialize_cases {file : File} {found : CacheLib} {complete : Bool}
    (read : deserialize {} file = .ok (found, complete)) :
    (file = none ∧ found = {} ∧ complete = false) ∨
    (∃ obj value, file = some (.document obj) ∧ complete = true ∧
      obj.subscriptMut "cache_libraries" = .ok value ∧ vectorFromJson value = .ok found.cacheVec) := by
  rcases file with _ | obj | text
  · cases read
    exact .inl ⟨rfl, rfl, rfl⟩
  · simp only [deserialize] at read
    cases null : obj.isNull with
    | true =>
      have active : obj = .null := by
        cases obj with
        | null => rfl
        | _ => cases null
      subst active
      cases read
    | false =>
      rw [null, Bool.not_false, if_pos rfl] at read
      obtain ⟨value, located, read⟩ := bind_eq_ok.mp read
      obtain ⟨cacheVec, stores, read⟩ := bind_eq_ok.mp read
      obtain ⟨_, _, read⟩ := bind_eq_ok.mp read
      obtain ⟨_, _, read⟩ := bind_eq_ok.mp read
      cases read
      exact .inr ⟨obj, value, rfl, rfl, located, stores⟩
  · cases read

/-- The loader takes the index from the name it has read. -/
theorem load_cases {file : File} {lib : CacheLib} (loaded : load file = .ok lib) :
    (file = none ∧ lib = {}) ∨
    (∃ obj value, file = some (.document obj) ∧ obj.subscriptMut "cache_libraries" = .ok value ∧
      vectorFromJson value = .ok lib.cacheVec ∧ lib.current =
        if lib.activeName ∈ lib.names then UInt32.ofNat (lib.names.idxOf lib.activeName) else 0) := by
  unfold load at loaded
  obtain ⟨⟨found, complete⟩, read, loaded⟩ := bind_eq_ok.mp loaded
  rcases deserialize_cases read with ⟨rfl, rfl, rfl⟩ | ⟨obj, value, rfl, rfl, located, stores⟩
  · exact .inl ⟨rfl, (Except.ok.inj loaded).symm⟩
  · refine .inr ⟨obj, value, rfl, located, ?_⟩
    by_cases member : found.activeName ∈ found.names
    · have inside : find found.cacheVec found.activeName ≠ found.cacheVec.length := by
        rw [find_eq_idxOf, ← length_keys]
        exact Nat.ne_of_lt (List.idxOf_lt_length_of_mem member)
      simp only [if_true, if_pos inside] at loaded
      cases loaded
      exact ⟨stores, (if_pos member).symm ▸ congrArg UInt32.ofNat (find_eq_idxOf ..)⟩
    · have outside : ¬ find found.cacheVec found.activeName ≠ found.cacheVec.length := by
        rw [find_eq_idxOf, ← length_keys, not_not]
        exact List.idxOf_eq_length_iff.mpr member
      simp only [if_true, if_neg outside] at loaded
      cases loaded
      exact ⟨stores, (if_neg member).symm⟩

/-- Two libraries hold the same collections once repeated items do not matter. -/
theorem collections_reloaded_iff (lib : CacheLib) (active : Bytes) :
    (reloaded lib.cacheVec active).collections = lib.collections ↔
      ∀ store ∈ lib.cacheVec, store.2.list.Nodup := by
  have expand : (reloaded lib.cacheVec active).collections =
      lib.cacheVec.map (fun store => (store.1, store.2.reloaded.list)) := by
    simp [collections, reloaded, List.map_map, Function.comp_def]
  rw [expand, collections, List.map_inj_left]
  constructor
  · intro same store member
    exact store.2.reloaded_list_eq_iff.mp (congrArg Prod.snd (same store member))
  · intro distinct store member
    exact Prod.ext rfl (store.2.reloaded_list_eq_iff.mpr (distinct store member))

/-- The document of a library tells its collections and the active name. -/
theorem libraryDocument_eq_iff (lib other : CacheLib) (active active' : Bytes) :
    libraryDocument lib.cacheVec active = libraryDocument other.cacheVec active' ↔
      lib.collections = other.collections ∧ active = active' := by
  have stores : (vectorToJson lib.cacheVec : Json) = vectorToJson other.cacheVec ↔
      lib.collections = other.collections := by
    simp only [vectorToJson, Json.array.injEq, collections]
    rw [← List.forall₂_eq_eq_eq, ← List.forall₂_eq_eq_eq, List.forall₂_map_left_iff,
      List.forall₂_map_right_iff, List.forall₂_map_left_iff, List.forall₂_map_right_iff]
    simp only [store_toJson_eq_iff, Prod.mk.injEq]
  rw [← stores]
  constructor
  · intro same
    simp only [libraryDocument, Json.object.injEq, List.cons.injEq, Prod.mk.injEq, true_and, and_true] at same
    exact ⟨same.2.1, Json.string.inj same.1⟩
  · rintro ⟨vectors, rfl⟩
    have counts : lib.cacheVec.length = other.cacheVec.length := by
      have lengths := congrArg List.length (Json.array.inj vectors)
      rwa [List.length_map, List.length_map] at lengths
    rw [libraryDocument, libraryDocument, vectors, counts]

theorem libraryDocument_dumpable {cacheVec : List CacheStore} {active : Bytes}
    (named : active ∈ keys cacheVec) :
    (libraryDocument cacheVec active).dumpable = true ↔ storesUtf8 cacheVec := by
  have parts : (libraryDocument cacheVec active).dumpable =
      (validUtf8 active && (vectorToJson cacheVec).dumpable) := by
    change List.all ([active] ++ ((vectorToJson cacheVec).strings ++ [])) validUtf8 = _
    simp [Json.dumpable]
  rw [parts, Bool.and_eq_true_iff, stores_dumpable]
  refine ⟨And.right, fun valid => ⟨?_, valid⟩⟩
  obtain ⟨store, member, same⟩ := List.mem_map.mp named
  exact same ▸ (valid store member).1

end CacheLib

end Wallchanger
