import Wallchanger.ChangeLib.PathTable

/-! What the table of directories answers after insertions. A checksum that is in the
table keeps its first path, so of several paths with one checksum only that is found. -/

namespace Wallchanger

open Foundation

namespace PathTable

/-- A lookup answers with the path of the first entry with the checksum. -/
theorem get_eq_find? (table : PathTable) (id : UInt32) :
    table.get id = (table.mStore.find? (fun entry => entry.1 == id)).map Prod.snd := by
  rw [List.find?_eq_getElem?_findIdx]
  unfold get
  split
  · rfl
  · rename_i missing
    have past : find table.mStore id = table.mStore.length := by
      simpa [existsId] using missing
    change none = (table.mStore[find table.mStore id]?).map Prod.snd
    rw [past, List.getElem?_length]
    rfl

/-- An insertion answers for its own checksum where the table did not answer before. -/
theorem get_insert (table : PathTable) (path : Bytes) (id : UInt32) :
    (table.insert path).get id = (table.get id).or (if crc32 path = id then some path else none) := by
  by_cases known : table.existsId (crc32 path) = true
  · have same : table.insert path = table := by
      simp [insert, known]
    rw [same]
    by_cases here : crc32 path = id
    · have answers : (table.get id).isSome = true :=
        (table.get_isSome_iff id).mpr (here ▸ (table.existsId_iff _).mp known)
      rw [Option.or_of_isSome answers]
    · rw [if_neg here, Option.or_none]
  · have grown : (table.insert path).mStore = table.mStore ++ [(crc32 path, path)] := by
      simp [insert, known]
    rw [get_eq_find?, get_eq_find?, grown, List.find?_append, Option.map_or]
    congr 1
    by_cases here : crc32 path = id
    · simp [here]
    · simp [here]

/-- The table after a sequence of insertions. -/
def insertAll (table : PathTable) (paths : List Bytes) : PathTable := paths.foldl insert table

/-- What was there before counts, then the first path of that checksum. -/
theorem get_insertAll (table : PathTable) (paths : List Bytes) (id : UInt32) :
    (table.insertAll paths).get id = (table.get id).or (paths.find? (fun path => crc32 path = id)) := by
  induction paths generalizing table with
  | nil => exact (Option.or_none ..).symm
  | cons path rest ih =>
    have step : (table.insertAll (path :: rest)).get id = ((table.insert path).insertAll rest).get id := rfl
    rw [step, ih, get_insert, Option.or_assoc, List.find?_cons]
    by_cases here : crc32 path = id
    · simp [here]
    · simp [here]

/-- The path is the first one under its checksum: the table had it already, or it had none
there and no other was inserted before. -/
def FirstUnder (table : PathTable) (paths : List Bytes) (path : Bytes) : Prop :=
  table.get (crc32 path) = some path ∨
    (table.get (crc32 path) = none ∧ ∃ before after, paths = before ++ path :: after ∧
      ∀ other ∈ before, crc32 other ≠ crc32 path)

/-- Every inserted path has an answer under its checksum, which is the path itself exactly if
it was the first one there. -/
theorem get_inserted (table : PathTable) {paths : List Bytes} {path : Bytes} (inserted : path ∈ paths) :
    ((table.insertAll paths).get (crc32 path)).isSome = true ∧
      ((table.insertAll paths).get (crc32 path) = some path ↔ table.FirstUnder paths path) := by
  rw [get_insertAll, FirstUnder]
  constructor
  · rw [Option.isSome_or, Bool.or_eq_true, List.find?_isSome]
    exact .inr ⟨path, inserted, decide_eq_true rfl⟩
  · cases known : table.get (crc32 path) with
    | some stored => simp
    | none =>
      rw [Option.none_or, List.find?_eq_some_iff_append]
      simp

theorem get_inserted_again :
    (PathTable.insertAll {} [ascii "/wall", ascii "/wall"]).get (crc32 (ascii "/wall")) =
      some (ascii "/wall") := by
  have first : FirstUnder {} [ascii "/wall", ascii "/wall"] (ascii "/wall") :=
    .inr ⟨rfl, [], [ascii "/wall"], rfl, by simp⟩
  exact (get_inserted {} List.mem_cons_self).2.mpr first

/-- Two directories with one checksum: the second is found as the first. -/
theorem checksums_collide :
    ascii "/buckeroo" ∈ [ascii "/plumless", ascii "/buckeroo"] ∧
      (PathTable.insertAll {} [ascii "/plumless", ascii "/buckeroo"]).get (crc32 (ascii "/buckeroo")) =
        some (ascii "/plumless") ∧
      ascii "/buckeroo" ≠ ascii "/plumless" := by
  have same : crc32 (ascii "/plumless") = crc32 (ascii "/buckeroo") := by decide
  have unknown : PathTable.get {} (crc32 (ascii "/buckeroo")) = none := rfl
  refine ⟨by simp, ?_, by decide⟩
  rw [get_insertAll, unknown, Option.none_or]
  simp only [List.find?_cons, same, decide_true]

end PathTable

end Wallchanger
