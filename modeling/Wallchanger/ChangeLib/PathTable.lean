import Wallchanger.ChangeLib.Crc32
import Wallchanger.ChangeLib.SavedFile
import Wallchanger.Foundation.Keyed

/-! `path_table.cpp`: the directories of the wallpapers, by the checksum of their path. -/

namespace Wallchanger

open Foundation

/-- `std::pair<u32, std::filesystem::path>`, an array of two. -/
instance : AdlSerializer (UInt32 × Bytes) where
  toJson pair := .array [toJson pair.1, toJson pair.2]
  fromJson obj := do
    let first ← fromJson (← obj.atIndex 0)
    let second ← fromJson (← obj.atIndex 1)
    return (first, second)

/-- `mStore` is the member `m_store`, apart from the method `store`. -/
structure PathTable where
  mStore : List (UInt32 × Bytes) := []
  modified : Bool := false
deriving DecidableEq

namespace PathTable

/-- `path_table()`: reads the file where there is one. -/
def load : File → Except JsonError PathTable
  | none => return {}
  | some (.fragment _) => throw .parseError
  | some (.document obj) =>
    if !obj.isNull then do
      let mStore ← vectorFromJson (← obj.subscriptMut "entries")
      return { mStore }
    else return {}

def existsId (table : PathTable) (id : UInt32) : Bool := find table.mStore id ≠ table.mStore.length

def insert (table : PathTable) (path : Bytes) : PathTable :=
  let hash := crc32 path
  if !table.existsId hash then { mStore := table.mStore ++ [(hash, path)], modified := true } else table

def get (table : PathTable) (id : UInt32) : Option Bytes :=
  if table.existsId id then table.mStore[find table.mStore id]?.map Prod.snd else none

/-- The document `store` builds. -/
def document (table : PathTable) : Json := .object [("entries", vectorToJson table.mStore)]

/-- `store`, which is `noexcept`. -/
def store (table : PathTable) (out : Output) (file : File) : Saved :=
  if table.modified then
    let saved := out.emit table.document file
    { saved with ending := if saved.ending = .threw then .terminated else saved.ending }
  else ⟨file, .completed⟩

/-! ### Lookup -/

theorem existsId_iff (table : PathTable) (id : UInt32) :
    table.existsId id = true ↔ id ∈ keys table.mStore := by
  rw [existsId, decide_eq_true_iff, find_eq_idxOf, ← length_keys, Ne, List.idxOf_eq_length_iff, not_not]

/-- A directory is found exactly under the checksums in the table. -/
theorem get_isSome_iff (table : PathTable) (id : UInt32) :
    (table.get id).isSome = true ↔ id ∈ keys table.mStore := by
  by_cases member : id ∈ keys table.mStore
  · obtain ⟨path, found⟩ := entry_at_find member
    simp [get, (table.existsId_iff id).mpr member, found, member]
  · have absent : table.existsId id = false := by
      rw [← Bool.not_eq_true, existsId_iff]
      exact member
    simp [get, absent, member]

/-- An insertion adds the checksum of its path and keeps all others. -/
theorem mem_keys_insert (table : PathTable) (path : Bytes) (id : UInt32) :
    id ∈ keys (table.insert path).mStore ↔ id ∈ keys table.mStore ∨ id = crc32 path := by
  unfold insert
  by_cases member : crc32 path ∈ keys table.mStore
  · simp only [(table.existsId_iff _).mpr member]
    exact ⟨.inl, fun either => either.elim (fun old => old) (fun same => same ▸ member)⟩
  · have absent : table.existsId (crc32 path) = false := by
      rw [← Bool.not_eq_true, existsId_iff]
      exact member
    simp [absent, keys]

theorem insert_cases (table : PathTable) (path : Bytes) :
    table.insert path = table ∨ (table.insert path).modified = true := by
  cases present : table.existsId (crc32 path) with
  | true => exact .inl (by simp [insert, present])
  | false => exact .inr (by simp [insert, present])

/-! ### Save and reload -/

theorem pair_fromJson_toJson (pair : UInt32 × Bytes) : fromJson (toJson pair) = .ok pair := by
  change (do
    let first ← (fromJson (toJson pair.1) : Except JsonError UInt32)
    return (first, pair.2)) = _
  rw [u32_fromJson_toJson]
  rfl

theorem load_document (table : PathTable) :
    load (some (.document table.document)) = .ok { mStore := table.mStore } := by
  have vector : vectorFromJson (vectorToJson table.mStore) = .ok (table.mStore.map id) :=
    vector_fromJson_toJson (fun pair _ => pair_fromJson_toJson pair)
  change (do
    let mStore ← (vectorFromJson (vectorToJson table.mStore) : Except JsonError _)
    return ({ mStore } : PathTable)) = _
  rw [vector, List.map_id]
  rfl

theorem document_dumpable (table : PathTable) :
    table.document.dumpable = true ↔ ∀ pair ∈ table.mStore, validUtf8 pair.2 = true := by
  have parts : table.document.dumpable = (vectorToJson table.mStore).dumpable := by
    change List.all ((vectorToJson table.mStore).strings ++ []) validUtf8 = _
    rw [List.append_nil]
    rfl
  have each (pair : UInt32 × Bytes) : (toJson pair).dumpable = validUtf8 pair.2 := by
    change List.all ([] ++ ([pair.2] ++ [])) validUtf8 = _
    simp
  rw [parts, vector_dumpable, List.all_eq_true]
  simp only [each]

end PathTable

end Wallchanger
