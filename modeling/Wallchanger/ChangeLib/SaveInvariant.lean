import Wallchanger.ChangeLib.ItemInvariant
import Wallchanger.ChangeLib.PathTable

/-! Memory against file: what a save leaves, when it is skipped, and what stays true
of a library that is changed, saved and loaded again. -/

namespace Wallchanger

open Foundation

/-! ### Loaded collections -/

/-- A rule that admits every item holds of all that is read. -/
theorem ItemRule.holds_of_fromJson (rule : ItemRule) (admitsAll : ∀ cache item, rule.admits cache item)
    {obj : Json} {cache : Cache Bytes} (read : fromJson obj = .ok cache) : rule.holds cache := by
  change (if !obj.isNull then _ else _) = _ at read
  split at read
  · refine foldlM_ok_preserves ?_ (rule.begin rule.start) read
    intro state item next good read
    obtain ⟨decoded, _, read⟩ := bind_eq_ok.mp read
    cases read
    exact (rule.insertElem good).mpr (admitsAll state decoded)
  · cases read
    exact rule.start

namespace CacheLib

theorem everywhere_of_load (rule : ItemRule) (admitsAll : ∀ cache item, rule.admits cache item)
    {file : File} {lib : CacheLib} (loaded : load file = .ok lib) : lib.Everywhere rule := by
  rcases load_cases loaded with ⟨_, rfl⟩ | ⟨_, value, _, _, stores, _⟩
  · intro store member
    cases member
  · cases value with
    | array elements =>
      intro store member
      obtain ⟨obj, _, read⟩ := mem_of_mapM_ok stores store member
      change (if !obj.isNull then _ else _) = _ at read
      split at read
      · obtain ⟨_, _, read⟩ := bind_eq_ok.mp read
        obtain ⟨_, _, read⟩ := bind_eq_ok.mp read
        obtain ⟨_, _, read⟩ := bind_eq_ok.mp read
        obtain ⟨cache, decoded, read⟩ := bind_eq_ok.mp read
        cases read
        exact rule.holds_of_fromJson admitsAll decoded
      · cases read
        exact rule.start
    | _ => cases stores

end CacheLib

/-! ### What a save drops -/

/-- A collection with items is flagged. -/
def ItemRule.flaggedItems : ItemRule where
  holds cache := cache.list ≠ [] → cache.modified = true
  accepts _ _ _ := True
  apart _ _ := True
  admits _ _ := True
  allows _ _ _ := True
  start := fun items => absurd rfl items
  begin _ _ := rfl
  insert {cache value loc} flagged := by
    refine ⟨fun _ => trivial, fun _ => ?_⟩
    unfold Cache.insert
    split
    · exact fun _ => rfl
    · exact flagged
  erase _ _ := rfl
  merge _ _ := ⟨fun _ => trivial, fun _ _ => rfl⟩
  insertElem {cache item} flagged := by
    refine ⟨fun _ => trivial, fun _ => ?_⟩
    unfold Cache.insertElem
    split
    · exact fun _ => rfl
    · exact flagged
  setState _ _ := ⟨fun _ => trivial, fun _ _ => rfl⟩

theorem keeps_flaggedItems {op : LibOp} (built : op.Built) (lib : CacheLib) :
    lib.Keeps ItemRule.flaggedItems op := by
  cases op with
  | insert name value => exact fun _ => CacheLib.holds_of_built _ (fun _ _ _ => trivial) built
  | _ => simp [CacheLib.Keeps, ItemRule.flaggedItems]

/-- A library, new or loaded, after a list of successful calls. -/
structure Session where
  file : File
  start : CacheLib
  opened : start = {} ∨ CacheLib.load file = .ok start
  calls : List LibOp
  lib : CacheLib
  reached : run CacheLib.stepOk start calls = some lib

/-- The file holds the encoding of the collections: names, order and items. -/
def HoldsCollections (file : File) (cacheVec : List CacheStore) : Prop :=
  ∃ obj, file = some (.document obj) ∧ obj.atKey "cache_libraries" = .ok (vectorToJson cacheVec)

namespace Session

theorem every_start (session : Session) (rule : ItemRule)
    (admitsAll : ∀ cache item, rule.admits cache item) : session.start.Everywhere rule := by
  rcases session.opened with empty | loaded
  · intro store member
    rw [empty] at member
    cases member
  · exact CacheLib.everywhere_of_load rule admitsAll loaded

/-- As long as a wallpaper is left in it, a library filled by `cache::insert` is flagged. -/
theorem flagged_of_holds (session : Session) (built : ∀ op ∈ session.calls, op.Built)
    {item : CacheItem Bytes} (held : session.lib.Holds item) : session.lib.Flagged := by
  have every := session.every_start ItemRule.flaggedItems (fun _ _ => trivial)
  have meets : Meets CacheLib.step (CacheLib.Keeps ItemRule.flaggedItems) session.start session.calls :=
    meets_of_forall (fun op member lib => keeps_flaggedItems (built op member) lib) _
  have last := ((CacheLib.everywhere_throughout_iff _ every).mpr meets).last
    (CacheLib.run_of_stepOk session.reached)
  obtain ⟨store, member, inside⟩ := held
  exact ⟨store, member, last store member (List.ne_nil_of_mem inside)⟩

end Session

theorem libraryDocument_atKey (cacheVec : List CacheStore) (active : Bytes) :
    (libraryDocument cacheVec active).atKey "cache_libraries" = .ok (vectorToJson cacheVec) := rfl

/-- When opening and writing succeed, `serialize` leaves the encoding of the current
collections exactly if one of them is flagged and the active index is in range, or
the library is empty and the file holds that already. One is flagged as long as a
wallpaper is left. -/
theorem session_saved_iff (session : Session) {out : Output} (opens : out.opens = true)
    (accepts : out.accepts = true) (utf8 : storesUtf8 session.lib.cacheVec) :
    ((∃ saved, session.lib.serialize out session.file = some saved ∧
        HoldsCollections saved.file session.lib.cacheVec) ↔
      (session.lib.Flagged ∧ session.lib.current.toNat < session.lib.cacheVec.length) ∨
        (session.lib.cacheVec = [] ∧ HoldsCollections session.file [])) ∧
    ((∀ op ∈ session.calls, op.Built) → (∃ item, session.lib.Holds item) → session.lib.Flagged) := by
  refine ⟨?_, fun built ⟨_, held⟩ => session.flagged_of_holds built held⟩
  by_cases empty : session.lib.cacheVec = []
  · have skipped := CacheLib.serialize_empty empty out session.file
    rw [skipped, empty]
    constructor
    · rintro ⟨saved, same, held⟩
      cases Option.some.inj same
      exact .inr ⟨rfl, held⟩
    · rintro (⟨⟨store, member, _⟩, _⟩ | ⟨_, held⟩)
      · rw [empty] at member
        cases member
      · exact ⟨_, rfl, held⟩
  · constructor
    · rintro ⟨saved, outcome, _⟩
      obtain ⟨flagged, store, found, _⟩ := (CacheLib.serialize_eq_some empty _ _ _).mp outcome
      exact .inl ⟨flagged, (List.getElem?_eq_some_iff.mp found).1⟩
    · rintro (⟨flagged, inside⟩ | ⟨none_, _⟩)
      · have found := List.getElem?_eq_getElem inside
        have named : session.lib.cacheVec[session.lib.current.toNat].1 ∈ keys session.lib.cacheVec :=
          mem_keys_of_getElem? found
        have dumps := (CacheLib.libraryDocument_dumpable named).mpr utf8
        refine ⟨_, (CacheLib.serialize_eq_some empty _ _ _).mpr ⟨flagged, _, found, rfl⟩, ?_⟩
        rw [if_pos opens, Output.write_file_complete dumps accepts]
        exact ⟨_, rfl, libraryDocument_atKey _ _⟩
      · exact absurd none_ empty

/-- A new library that receives its first collection. -/
def firstSession : Session where
  file := none
  start := {}
  opened := .inl rfl
  calls := [.insert (ascii "nature") lake]
  lib := { cacheVec := [(ascii "nature", lake)] }
  reached := rfl

theorem session_saved_first : ∃ saved, firstSession.lib.serialize {} none = some saved ∧
    HoldsCollections saved.file firstSession.lib.cacheVec :=
  (session_saved_iff firstSession rfl rfl (by decide)).1.mpr
    (.inl ⟨⟨_, List.mem_singleton.mpr rfl, by decide⟩, by decide⟩)

/-- The last collection of a loaded library is removed, and no flag is left to tell. -/
theorem last_removal_not_saved : ∃ session : Session,
    session.file = some (.document (libraryDocument [(ascii "nature", lake)] (ascii "nature"))) ∧
      session.calls = [.remove ⟨ascii "nature", []⟩] ∧ session.lib.cacheVec = [] ∧
      session.lib.serialize {} session.file = some ⟨session.file, .completed⟩ ∧
      ¬ HoldsCollections session.file session.lib.cacheVec := by
  refine ⟨⟨_, _, .inr (CacheLib.load_document [(ascii "nature", lake)] (ascii "nature")),
    [.remove ⟨ascii "nature", []⟩], _, rfl⟩, rfl, rfl, rfl, rfl, ?_⟩
  rintro ⟨obj, same, held⟩
  cases same
  cases held

/-! ### What a save destroys -/

/-- After the save the file is as it was, or a reload recovers the collections. -/
def KeepsLibrary (lib : CacheLib) (before after : File) : Prop :=
  after = before ∨ ∃ next, CacheLib.load after = .ok next ∧ next.collections = lib.collections

/-- After the save the file is as it was, or a reload recovers the entries. -/
def KeepsTable (table : PathTable) (before after : File) : Prop :=
  after = before ∨ ∃ next, PathTable.load after = .ok next ∧ next.mStore = table.mStore

/-- The file that an earlier save has left: none, or the document of the library it was
called on, with the name at its active index. -/
def savedLibrary (earlier : Option (CacheLib × Bytes)) : File :=
  earlier.map (fun save => .document (libraryDocument save.1.cacheVec save.2))

/-- The same for the directories. -/
def savedTable (earlier : Option PathTable) : File := earlier.map (fun table => .document table.document)

/-- `serialize` has nothing to write, cannot open its file, or completes a document that is
read back as it is: all of it UTF-8 and taken by the file, and no item repeated. -/
def CacheLib.SavesWhole (lib : CacheLib) (out : Output) : Prop :=
  lib.cacheVec = [] ∨ (lib.Flagged ∧ lib.current.toNat < lib.cacheVec.length ∧
    (out.opens = false ∨
      (storesUtf8 lib.cacheVec ∧ out.accepts = true ∧ ∀ store ∈ lib.cacheVec, store.2.list.Nodup)))

/-- `serialize` completes a document, and the save before it was of the same collections
under the same active name: items may repeat, and did so in the file. -/
def CacheLib.SavesAgain (lib : CacheLib) (out : Output) (earlier : Option (CacheLib × Bytes)) : Prop :=
  lib.Flagged ∧ storesUtf8 lib.cacheVec ∧ out.accepts = true ∧ ∃ before store,
    lib.cacheVec[lib.current.toNat]? = some store ∧ earlier = some (before, store.1) ∧
      lib.collections = before.collections

/-- The same for `path_table::store`, whose document is always read back as it is. -/
def PathTable.SavesWhole (table : PathTable) (out : Output) : Prop :=
  table.modified = false ∨ out.opens = false ∨
    ((∀ pair ∈ table.mStore, validUtf8 pair.2 = true) ∧ out.accepts = true)

/-- A completed document of the library: a reload drops the repeated items. -/
theorem keepsLibrary_document_iff (lib : CacheLib) (active : Bytes) (before : File) :
    KeepsLibrary lib before (some (.document (libraryDocument lib.cacheVec active))) ↔
      (∀ store ∈ lib.cacheVec, store.2.list.Nodup) ∨
        before = some (.document (libraryDocument lib.cacheVec active)) := by
  constructor
  · rintro (same | ⟨next, loaded, kept⟩)
    · exact .inr same.symm
    · rw [CacheLib.load_document] at loaded
      cases loaded
      exact .inl ((lib.collections_reloaded_iff active).mp kept)
  · rintro (distinct | same)
    · exact .inr ⟨_, CacheLib.load_document _ _, (lib.collections_reloaded_iff active).mpr distinct⟩
    · exact .inl same.symm

/-- The file already is the document of the library if an earlier save was of the same
collections under the same active name. -/
theorem savedLibrary_eq_document_iff (lib : CacheLib) (active : Bytes) (earlier : Option (CacheLib × Bytes)) :
    savedLibrary earlier = some (.document (libraryDocument lib.cacheVec active)) ↔
      ∃ before, earlier = some (before, active) ∧ lib.collections = before.collections := by
  unfold savedLibrary
  rw [Option.map_eq_some_iff]
  simp only [FileContent.document.injEq, CacheLib.libraryDocument_eq_iff]
  constructor
  · rintro ⟨⟨before, named⟩, rfl, same, rfl⟩
    exact ⟨before, rfl, same.symm⟩
  · rintro ⟨before, rfl, same⟩
    exact ⟨_, rfl, same.symm, rfl⟩

/-- A document that breaks off leaves neither what an earlier save has written nor
anything that can be read. -/
theorem savedLibrary_ne_fragment (earlier : Option (CacheLib × Bytes)) (text : Bytes) :
    savedLibrary earlier ≠ some (.fragment text) := by
  unfold savedLibrary
  cases earlier with
  | none => exact nofun
  | some save => exact nofun

theorem keepsLibrary_write_iff {lib : CacheLib} {store : CacheStore} {out : Output}
    {earlier : Option (CacheLib × Bytes)} (named : store.1 ∈ keys lib.cacheVec) :
    KeepsLibrary lib (savedLibrary earlier) (out.write (libraryDocument lib.cacheVec store.1)).file ↔
      storesUtf8 lib.cacheVec ∧ out.accepts = true ∧ ((∀ store ∈ lib.cacheVec, store.2.list.Nodup) ∨
        ∃ before, earlier = some (before, store.1) ∧ lib.collections = before.collections) := by
  by_cases complete : (libraryDocument lib.cacheVec store.1).dumpable = true ∧ out.accepts = true
  · have ⟨dumps, accepts⟩ := complete
    have utf8 := (CacheLib.libraryDocument_dumpable named).mp dumps
    rw [Output.write_file_complete dumps accepts, keepsLibrary_document_iff, savedLibrary_eq_document_iff]
    exact ⟨fun kept => ⟨utf8, accepts, kept⟩, fun condition => condition.2.2⟩
  · rw [Output.write_file_broken complete]
    constructor
    · rintro (same | ⟨next, loaded, _⟩)
      · exact absurd same.symm (savedLibrary_ne_fragment _ _)
      · cases loaded
    · intro ⟨utf8, accepts, _⟩
      exact absurd ⟨(CacheLib.libraryDocument_dumpable named).mpr utf8, accepts⟩ complete

/-- What is saved whole is kept whatever the file was before. -/
theorem keepsLibrary_of_savesWhole {lib : CacheLib} {out : Output} (whole : lib.SavesWhole out) (file : File) :
    ∃ saved, lib.serialize out file = some saved ∧ KeepsLibrary lib file saved.file := by
  by_cases empty : lib.cacheVec = []
  · exact ⟨_, CacheLib.serialize_empty empty out file, .inl rfl⟩
  · obtain ⟨flagged, inside, outcome⟩ := whole.resolve_left empty
    have found := List.getElem?_eq_getElem inside
    refine ⟨_, (CacheLib.serialize_eq_some empty _ _ _).mpr ⟨flagged, _, found, rfl⟩, ?_⟩
    cases opens : out.opens with
    | false => exact .inl rfl
    | true =>
      obtain ⟨utf8, accepts, distinct⟩ := outcome.resolve_left (by simp [opens])
      have dumps := (CacheLib.libraryDocument_dumpable (mem_keys_of_getElem? found)).mpr utf8
      rw [if_pos rfl, Output.write_file_complete dumps accepts, keepsLibrary_document_iff]
      exact .inl distinct

/-- `serialize` keeps the library's file exactly if it skips the write, or writes what
can be read back, or writes again what the save before has written. -/
theorem keepsLibrary_serialize_iff (lib : CacheLib) (out : Output) (earlier : Option (CacheLib × Bytes)) :
    (∃ saved, lib.serialize out (savedLibrary earlier) = some saved ∧
        KeepsLibrary lib (savedLibrary earlier) saved.file) ↔
      lib.SavesWhole out ∨ lib.SavesAgain out earlier := by
  constructor
  · intro ⟨saved, outcome, kept⟩
    by_cases empty : lib.cacheVec = []
    · exact .inl (.inl empty)
    · obtain ⟨flagged, store, found, rfl⟩ := (CacheLib.serialize_eq_some empty _ _ _).mp outcome
      have inside := (List.getElem?_eq_some_iff.mp found).1
      cases opens : out.opens with
      | false => exact .inl (.inr ⟨flagged, inside, .inl opens⟩)
      | true =>
        rw [if_pos opens] at kept
        obtain ⟨utf8, accepts, distinct | ⟨before, same, equal⟩⟩ :=
          (keepsLibrary_write_iff (mem_keys_of_getElem? found)).mp kept
        · exact .inl (.inr ⟨flagged, inside, .inr ⟨utf8, accepts, distinct⟩⟩)
        · exact .inr ⟨flagged, utf8, accepts, before, store, found, same, equal⟩
  · rintro (whole | ⟨flagged, utf8, accepts, before, store, found, same, equal⟩)
    · exact keepsLibrary_of_savesWhole whole _
    · have nonempty : lib.cacheVec ≠ [] := List.ne_nil_of_mem (List.mem_of_getElem? found)
      refine ⟨_, (CacheLib.serialize_eq_some nonempty _ _ _).mpr ⟨flagged, store, found, rfl⟩, ?_⟩
      cases opens : out.opens with
      | false => exact .inl rfl
      | true =>
        exact (keepsLibrary_write_iff (mem_keys_of_getElem? found)).mpr
          ⟨utf8, accepts, .inr ⟨before, same, equal⟩⟩

/-- A flagged table whose file opens is written. -/
theorem PathTable.store_file {table : PathTable} {out : Output} (modified : table.modified = true)
    (opens : out.opens = true) (file : File) :
    (table.store out file).file = (out.write table.document).file := by
  simp [store, Output.emit, modified, opens]

/-- Of any other one the file stays. -/
theorem PathTable.store_file_kept {table : PathTable} {out : Output}
    (skipped : table.modified = false ∨ out.opens = false) (file : File) :
    (table.store out file).file = file := by
  rcases skipped with unmodified | closed
  · simp [store, unmodified]
  · cases modified : table.modified <;> simp [store, Output.emit, modified, closed]

/-- A save that does not break off leaves the whole document, or the file as it was. -/
theorem PathTable.store_file_cases {table : PathTable} {out : Output} (whole : table.SavesWhole out)
    (file : File) :
    (table.store out file).file = some (.document table.document) ∨ (table.store out file).file = file := by
  by_cases written : table.modified = true ∧ out.opens = true
  · have ⟨utf8, accepts⟩ : (∀ pair ∈ table.mStore, validUtf8 pair.2 = true) ∧ out.accepts = true := by
      simpa [PathTable.SavesWhole, written.1, written.2] using whole
    rw [PathTable.store_file written.1 written.2]
    exact .inl (Output.write_file_complete (table.document_dumpable.mpr utf8) accepts)
  · have skipped : table.modified = false ∨ out.opens = false := by
      rwa [not_and_or, Bool.not_eq_true, Bool.not_eq_true] at written
    exact .inr (PathTable.store_file_kept skipped file)

theorem keepsTable_of_savesWhole {table : PathTable} {out : Output} (whole : table.SavesWhole out) (file : File) :
    KeepsTable table file (table.store out file).file := by
  rcases PathTable.store_file_cases whole file with written | kept
  · rw [written]
    exact .inr ⟨_, PathTable.load_document table, rfl⟩
  · exact .inl kept

/-- The same for `path_table::store` and the file of the directories. -/
theorem keepsTable_store_iff (table : PathTable) (out : Output) (earlier : Option PathTable) :
    KeepsTable table (savedTable earlier) (table.store out (savedTable earlier)).file ↔
      table.SavesWhole out := by
  refine ⟨fun kept => ?_, fun whole => keepsTable_of_savesWhole whole _⟩
  by_contra broken
  have ⟨modified, opens, incomplete⟩ : table.modified = true ∧ out.opens = true ∧
      ¬ ((∀ pair ∈ table.mStore, validUtf8 pair.2 = true) ∧ out.accepts = true) := by
    simpa only [PathTable.SavesWhole, not_or, Bool.not_eq_false] using broken
  rw [← table.document_dumpable] at incomplete
  rw [PathTable.store_file modified opens, Output.write_file_broken incomplete] at kept
  rcases kept with same | ⟨next, loaded, _⟩
  · cases earlier with
    | none => cases same
    | some save => cases same
  · cases loaded

/-- Of what earlier saves have left, `serialize` and `path_table::store` destroy nothing
exactly if they skip the write, or all that is written is UTF-8 and taken by the file, and
no item repeats or the save before repeated it as well. What is saved whole is kept
whatever the file was. -/
theorem saves_keep_files_iff (lib : CacheLib) (table : PathTable) (libOut tableOut : Output) :
    ((∀ earlier, (∃ saved, lib.serialize libOut (savedLibrary earlier) = some saved ∧
          KeepsLibrary lib (savedLibrary earlier) saved.file) ↔
        lib.SavesWhole libOut ∨ lib.SavesAgain libOut earlier) ∧
      (lib.SavesWhole libOut → ∀ file, ∃ saved, lib.serialize libOut file = some saved ∧
        KeepsLibrary lib file saved.file)) ∧
    ((∀ earlier, KeepsTable table (savedTable earlier) (table.store tableOut (savedTable earlier)).file ↔
        table.SavesWhole tableOut) ∧
      (table.SavesWhole tableOut → ∀ file, KeepsTable table file (table.store tableOut file).file)) :=
  ⟨⟨keepsLibrary_serialize_iff lib libOut, keepsLibrary_of_savesWhole⟩,
    keepsTable_store_iff table tableOut, keepsTable_of_savesWhole⟩

/-- A name that is not UTF-8: the saved library is gone, and what is left cannot be read. -/
theorem save_destroys_library :
    let earlier : Option (CacheLib × Bytes) :=
      some ({ cacheVec := [(ascii "nature", lake)] }, ascii "nature")
    ∃ lib, run CacheLib.step {} [.insert [0xFF] lake] = some lib ∧
      ∃ saved, lib.serialize {} (savedLibrary earlier) = some saved ∧ saved.ending = .threw ∧
        ¬ KeepsLibrary lib (savedLibrary earlier) saved.file := by
  refine ⟨_, rfl, _, rfl, rfl, ?_⟩
  rintro (same | ⟨next, loaded, _⟩)
  · cases same
  · cases loaded

/-! ### Names that stay unique -/

/-- Names are distinct; a name exists exactly if one entry has it, and then it is
listed once. -/
def CacheLib.NamesUnique (lib : CacheLib) : Prop :=
  lib.names.Nodup ∧ ∀ name, (lib.existsCache name = true ↔
      lib.cacheVec.countP (fun store => store.1 == name) = 1) ∧
    lib.cacheList.count name = if lib.existsCache name then 1 else 0

theorem CacheLib.namesUnique_iff (lib : CacheLib) : lib.NamesUnique ↔ lib.NamesDistinct := by
  refine ⟨And.left, fun distinct => ⟨distinct, fun name => ?_⟩⟩
  have entries : lib.cacheVec.countP (fun store => store.1 == name) = lib.names.count name := by
    rw [names, keys, List.count, List.countP_map]
    rfl
  rw [entries, cacheList_eq]
  by_cases member : name ∈ lib.names
  · have once := List.count_eq_one_of_mem distinct member
    have found := (lib.existsCache_iff name).mpr member
    rw [once, found]
    simp
  · have never := List.count_eq_zero.mpr member
    have missing := (lib.existsCache_eq_false name).mpr member
    rw [never, missing]
    simp

/-- A library and its file. -/
structure Workspace where
  lib : CacheLib := {}
  file : File := none

inductive WorkspaceOp where
  | call (op : LibOp)
  | save (out : Output)
  | reload

/-- Calls have views with a NUL behind them. -/
def WorkspaceOp.Terminated : WorkspaceOp → Prop
  | .call op => op.Terminated
  | _ => True

instance decidableWorkspaceTerminated : (op : WorkspaceOp) → Decidable op.Terminated
  | .call op => inferInstanceAs (Decidable op.Terminated)
  | .save _ | .reload => isTrue trivial

/-- A reload of a file that cannot be parsed throws, so it has no next state. -/
def Workspace.step (workspace : Workspace) : WorkspaceOp → Option Workspace
  | .call op => (workspace.lib.step op).map (fun lib => { workspace with lib })
  | .save out => (workspace.lib.serialize out workspace.file).map (fun saved =>
      { workspace with file := saved.file })
  | .reload =>
    match CacheLib.load workspace.file with
    | .ok lib => some { workspace with lib }
    | .error _ => none

namespace Workspace

/-- Names are distinct in memory and in whatever can be loaded. -/
def NamesDistinct (workspace : Workspace) : Prop :=
  workspace.lib.NamesDistinct ∧ ∀ lib, CacheLib.load workspace.file = .ok lib → lib.NamesDistinct

/-- The file after a save, if it changes, is the document of the library or unreadable. -/
theorem serialize_file_cases {lib : CacheLib} {out : Output} {file : File} {saved : Saved}
    (outcome : lib.serialize out file = some saved) :
    saved.file = file ∨ (∃ active, saved.file = some (.document (libraryDocument lib.cacheVec active))) ∨
      ∃ text, saved.file = some (.fragment text) := by
  by_cases empty : lib.cacheVec = []
  · rw [CacheLib.serialize_empty empty] at outcome
    cases outcome
    exact .inl rfl
  · obtain ⟨_, store, _, rfl⟩ := (CacheLib.serialize_eq_some empty _ _ _).mp outcome
    split
    · by_cases complete : (libraryDocument lib.cacheVec store.1).dumpable = true ∧ out.accepts = true
      · exact .inr (.inl ⟨store.1, Output.write_file_complete complete.1 complete.2⟩)
      · exact .inr (.inr ⟨_, Output.write_file_broken complete⟩)
    · exact .inl rfl

theorem namesDistinct_step {workspace next : Workspace} {op : WorkspaceOp}
    (distinct : workspace.NamesDistinct) (terminated : op.Terminated)
    (taken : workspace.step op = some next) : next.NamesDistinct := by
  have ⟨memory, stored⟩ := distinct
  cases op with
  | call op =>
    obtain ⟨lib, performed, rfl⟩ := Option.map_eq_some_iff.mp taken
    exact ⟨CacheLib.namesDistinct_step memory terminated performed, stored⟩
  | save out =>
    obtain ⟨saved, outcome, rfl⟩ := Option.map_eq_some_iff.mp taken
    refine ⟨memory, fun lib loaded => ?_⟩
    change CacheLib.load saved.file = .ok lib at loaded
    rcases serialize_file_cases outcome with same | ⟨active, same⟩ | ⟨text, same⟩
    · exact stored lib (same ▸ loaded)
    · rw [same, CacheLib.load_document] at loaded
      cases loaded
      rw [CacheLib.NamesDistinct, CacheLib.keys_reloaded]
      exact memory
    · rw [same] at loaded
      cases loaded
  | reload =>
    cases loaded : CacheLib.load workspace.file with
    | error thrown =>
      simp only [step, loaded] at taken
      cases taken
    | ok lib =>
      simp only [step, loaded] at taken
      cases taken
      exact ⟨stored lib loaded, stored⟩

/-- Collection names are unique in every state of a run that starts without anything. -/
theorem names_unique_throughout {ops : List WorkspaceOp} (terminated : ∀ op ∈ ops, op.Terminated) :
    Throughout step (fun workspace => workspace.lib.NamesUnique) {} ops := by
  have start : NamesDistinct {} := by
    refine ⟨List.nodup_nil, fun lib loaded => ?_⟩
    cases loaded
    exact List.nodup_nil
  have permitted : Meets step (fun _ op => op.Terminated) {} ops :=
    meets_of_forall (fun op member _ => terminated op member) _
  exact (throughout_of_meets (fun _ _ _ good views taken => namesDistinct_step good views taken)
    start permitted).imp (fun workspace good => workspace.lib.namesUnique_iff.mpr good.1)

theorem names_unique_throughout_run :
    Throughout step (fun workspace => workspace.lib.NamesUnique) {}
      [.call (.insert (ascii "nature") lake), .save {}, .reload,
        .call (.renameStore ⟨ascii "nature", []⟩ ⟨ascii "city", []⟩)] :=
  names_unique_throughout (by decide)

end Workspace

end Wallchanger
