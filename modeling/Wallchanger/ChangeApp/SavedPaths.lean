import Wallchanger.ChangeApp.PathIntegrity
import Wallchanger.ChangeLib.PathLookup
import Wallchanger.ChangeLib.SaveInvariant

/-! The table of directories over whole runs whose saves may fail: nothing leaves it, in
memory as long as the process runs, and in its file as long as no save of it breaks off. -/

namespace Wallchanger

open Foundation

namespace PathTable

/-- Each path stands under its own checksum, and no checksum stands twice. -/
structure Proper (table : PathTable) : Prop where
  distinct : (keys table.mStore).Nodup
  own : ∀ entry ∈ table.mStore, entry.1 = crc32 entry.2

theorem proper_empty : Proper {} := ⟨List.nodup_nil, fun _ member => nomatch member⟩

theorem Proper.insert {table : PathTable} (proper : table.Proper) (path : Bytes) : (table.insert path).Proper := by
  unfold PathTable.insert
  dsimp only
  split
  · rename_i absent
    have fresh : crc32 path ∉ keys table.mStore := by
      intro member
      rw [(table.existsId_iff _).mpr member] at absent
      cases absent
    constructor
    · rw [keys_append, List.nodup_append]
      refine ⟨proper.distinct, List.nodup_singleton _, ?_⟩
      rintro id old other new rfl
      rw [List.mem_singleton.mp new] at old
      exact fresh old
    · intro entry member
      rcases List.mem_append.mp member with old | new
      · exact proper.own entry old
      · rw [List.mem_singleton.mp new]
  · exact proper

theorem prefix_insert (table : PathTable) (path : Bytes) : table.mStore <+: (table.insert path).mStore := by
  unfold PathTable.insert
  dsimp only
  split
  · exact List.prefix_append _ _
  · exact List.prefix_refl _

/-- A table that continues another one answers what that one answers. -/
theorem get_of_prefix {table wider : PathTable} (front : table.mStore <+: wider.mStore) {id : UInt32}
    {path : Bytes} (known : table.get id = some path) : wider.get id = some path := by
  obtain ⟨added, whole⟩ := front
  rw [get_eq_find?] at known ⊢
  rw [← whole, List.find?_append, Option.map_or, known]
  rfl

theorem Proper.of_prefix {table wider : PathTable} (proper : wider.Proper)
    (front : table.mStore <+: wider.mStore) : table.Proper where
  distinct := (front.map Prod.fst).sublist.nodup proper.distinct
  own entry member := proper.own entry (front.subset member)

/-- What a proper table answers has the checksum it was asked for. -/
theorem Proper.crc32_of_get {table : PathTable} (proper : table.Proper) {id : UInt32} {path : Bytes}
    (known : table.get id = some path) : crc32 path = id := by
  rw [get_eq_find?] at known
  obtain ⟨entry, found, rfl⟩ := Option.map_eq_some_iff.mp known
  rw [← proper.own entry (List.mem_of_find?_eq_some found)]
  have same := List.find?_some found
  exact beq_iff_eq.mp same

end PathTable

/-- The calls and restarts, which save nothing. -/
def ManagerOp.SavesNothing : ManagerOp → Prop
  | .store _ | .stopInStore => False
  | _ => True

/-- What is done to an installation: a call or a restart, a `store` on streams that may fail,
and a `store` that is stopped before the library. -/
inductive SavingOp where
  | call (op : ManagerOp) (savesNothing : op.SavesNothing)
  | store (out : Outputs)
  | stopInStore (out : Outputs)

namespace Manager

/-- The files of a `store` that gets to the library and no further. -/
def stoppedStore (manager : Manager) (out : Outputs) (disk : Disk) : Disk :=
  match manager.saveHistory out.history disk.history with
  | ⟨history, .completed⟩ =>
    { disk with history, pathTable := (manager.pathBuf.store out.pathTable disk.pathTable).file }
  | ⟨history, _⟩ => { disk with history }

/-- However a `store` ends, the table's file is as it was or as `path_table::store` leaves it. -/
theorem store_pathTable {manager : Manager} {out : Outputs} {disk after : Disk} {ending : Ending}
    (stored : manager.store out disk = some (after, ending)) :
    after.pathTable = disk.pathTable ∨
      after.pathTable = (manager.pathBuf.store out.pathTable disk.pathTable).file := by
  unfold store at stored
  split at stored
  · split at stored
    · rename_i pathTable tableDone
      obtain ⟨libs, _, stored⟩ := Option.bind_eq_some_iff.mp stored
      obtain ⟨rfl, _⟩ := Prod.mk.inj (Option.some.inj stored)
      exact .inr (congrArg Saved.file tableDone).symm
    · rename_i pathTable _ _ tableDone
      obtain ⟨rfl, _⟩ := Prod.mk.inj (Option.some.inj stored)
      exact .inr (congrArg Saved.file tableDone).symm
  · obtain ⟨rfl, _⟩ := Prod.mk.inj (Option.some.inj stored)
    exact .inl rfl

theorem stoppedStore_pathTable (manager : Manager) (out : Outputs) (disk : Disk) :
    (manager.stoppedStore out disk).pathTable = disk.pathTable ∨
      (manager.stoppedStore out disk).pathTable =
        (manager.pathBuf.store out.pathTable disk.pathTable).file := by
  unfold stoppedStore
  split
  · exact .inr rfl
  · exact .inl rfl

end Manager

namespace Installation

/-- One step. An exception out of `store` ends the process, and the next one starts on the
files that are left. -/
def saving (installation : Installation) : SavingOp → Option Installation
  | .call op _ => installation.step op
  | .store out => do
    match ← installation.manager.store out installation.disk with
    | (disk, .completed) => some { installation with disk }
    | (disk, _) => started disk
  | .stopInStore out => started (installation.manager.stoppedStore out installation.disk)

/-- No save of the table breaks off: it is skipped, its file does not open, or all its paths
are UTF-8 and the stream takes all the text. -/
def TableWhole (installation : Installation) : SavingOp → Prop
  | .call _ _ => True
  | .store out | .stopInStore out => installation.manager.pathBuf.SavesWhole out.pathTable

instance (table : PathTable) (out : Output) : Decidable (table.SavesWhole out) :=
  inferInstanceAs (Decidable (_ ∨ _ ∨ _ ∧ _))

instance (installation : Installation) : (op : SavingOp) → Decidable (installation.TableWhole op)
  | .call _ _ => isTrue trivial
  | .store out | .stopInStore out =>
    inferInstanceAs (Decidable (installation.manager.pathBuf.SavesWhole out.pathTable))

/-- The table in the file: the one in memory continues it, and is no longer while unflagged. -/
structure OnDisk (installation : Installation) (table : PathTable) : Prop where
  loaded : PathTable.load installation.disk.pathTable = .ok table
  front : table.mStore <+: installation.manager.pathBuf.mStore
  unsaved : installation.manager.pathBuf.modified = false →
    installation.manager.pathBuf.mStore = table.mStore
  proper : installation.manager.pathBuf.Proper

theorem onDisk_empty : OnDisk {} {} :=
  ⟨rfl, List.prefix_refl _, fun _ => rfl, PathTable.proper_empty⟩

/-- A call of the manager leaves the files, and at most adds a path to the table in memory. -/
def AddsPath (installation next : Installation) : Prop :=
  next.disk = installation.disk ∧ (next.manager.pathBuf = installation.manager.pathBuf ∨
    ∃ path, next.manager.pathBuf = installation.manager.pathBuf.insert path)

theorem addsPath_createCollection {installation next : Installation} {name path : Bytes} {found : Option Node}
    {recursive : Bool} (taken : installation.step (.createCollection name path found recursive) = some next) :
    installation.AddsPath next := by
  obtain ⟨result, created, rfl⟩ := Option.map_eq_some_iff.mp taken
  refine ⟨rfl, ?_⟩
  unfold Manager.createCollection at created
  split at created
  · cases created
    exact .inl rfl
  · split at created
    · cases created
      exact .inl rfl
    · cases created
      exact .inr ⟨path, rfl⟩
    · cases created

theorem addsPath_addToCollection (installation : Installation) (collectionName : StringView) (wall : Bytes) :
    installation.AddsPath
      (installation.withManager (installation.manager.addToCollection collectionName wall)) := by
  refine ⟨rfl, ?_⟩
  unfold withManager Manager.addToCollection
  dsimp only
  split
  · exact .inr ⟨_, rfl⟩
  · exact .inl rfl

theorem OnDisk.addsPath {installation next : Installation} {table : PathTable}
    (saved : installation.OnDisk table) (adds : installation.AddsPath next) : next.OnDisk table := by
  obtain ⟨disk, same | ⟨path, inserted⟩⟩ := adds
  · exact ⟨disk ▸ saved.loaded, same ▸ saved.front, same ▸ saved.unsaved, same ▸ saved.proper⟩
  · refine ⟨disk ▸ saved.loaded, ?_, ?_, ?_⟩
    · rw [inserted]
      exact saved.front.trans (PathTable.prefix_insert _ path)
    · rw [inserted]
      rcases installation.manager.pathBuf.insert_cases path with same | modified
      · rw [same]
        exact saved.unsaved
      · exact fun unmodified => nomatch modified.symm.trans unmodified
    · rw [inserted]
      exact saved.proper.insert path

/-- A new process has the table of its file. -/
theorem onDisk_started {disk : Disk} {table : PathTable} {next : Installation}
    (loaded : PathTable.load disk.pathTable = .ok table) (proper : table.Proper)
    (begun : started disk = some next) : next.OnDisk table := by
  unfold started at begun
  split at begun
  · rename_i manager ran
    cases begun
    obtain ⟨cache, _, ran⟩ := bind_eq_ok.mp ran
    obtain ⟨pathBuf, read, ran⟩ := bind_eq_ok.mp ran
    cases ran
    cases loaded.symm.trans read
    exact ⟨loaded, List.prefix_refl _, fun _ => rfl, proper⟩
  · cases begun

/-- A call or a restart leaves the table in the file. -/
theorem onDisk_call {installation next : Installation} {table : PathTable} {op : ManagerOp}
    (saved : installation.OnDisk table) (savesNothing : op.SavesNothing)
    (taken : installation.step op = some next) : next.OnDisk table := by
  cases op with
  | createCollection name path found recursive => exact saved.addsPath (addsPath_createCollection taken)
  | addToCollection collectionName wall =>
    cases taken
    exact saved.addsPath (addsPath_addToCollection installation collectionName wall)
  | mergeCollection collection1 collection2 =>
    obtain ⟨managed, merged, rfl⟩ := Option.map_eq_some_iff.mp taken
    obtain ⟨result, _, rfl⟩ := Option.map_eq_some_iff.mp merged
    exact saved.addsPath ⟨rfl, .inl rfl⟩
  | moveWallpaper origin dest wallName =>
    obtain ⟨managed, moved, rfl⟩ := Option.map_eq_some_iff.mp taken
    obtain ⟨result, _, rfl⟩ := Option.map_eq_some_iff.mp moved
    exact saved.addsPath ⟨rfl, .inl rfl⟩
  | renameCollection _ _ | removeWallpaper _ _ | removeCollection _ | changeActive _ =>
    cases taken
    exact saved.addsPath ⟨rfl, .inl rfl⟩
  | restart => exact onDisk_started saved.loaded (saved.proper.of_prefix saved.front) taken
  | store _ | stopInStore => exact savesNothing.elim

/-- A save that does not break off leaves a table in the file that continues the one before,
and all of the one in memory where that was flagged and its file opened. -/
theorem OnDisk.stored {installation : Installation} {table : PathTable} (saved : installation.OnDisk table)
    {out : Output} (whole : installation.manager.pathBuf.SavesWhole out) : ∃ wider,
      PathTable.load (installation.manager.pathBuf.store out installation.disk.pathTable).file = .ok wider ∧
        table.mStore <+: wider.mStore ∧ wider.mStore <+: installation.manager.pathBuf.mStore ∧
        (installation.manager.pathBuf.modified = false →
          installation.manager.pathBuf.mStore = wider.mStore) := by
  rcases PathTable.store_file_cases whole installation.disk.pathTable with written | kept
  · rw [written]
    exact ⟨_, PathTable.load_document _, saved.front, List.prefix_refl _, fun _ => rfl⟩
  · rw [kept]
    exact ⟨table, saved.loaded, List.prefix_refl _, saved.front, saved.unsaved⟩

/-- The same of all the files that a save leaves. -/
theorem OnDisk.files {installation : Installation} {table : PathTable} (saved : installation.OnDisk table)
    {out : Output} (whole : installation.manager.pathBuf.SavesWhole out) {disk : Disk}
    (left : disk.pathTable = installation.disk.pathTable ∨
      disk.pathTable = (installation.manager.pathBuf.store out installation.disk.pathTable).file) :
    ∃ wider, OnDisk { installation with disk } wider ∧ table.mStore <+: wider.mStore := by
  rcases left with same | same
  · refine ⟨table, ⟨?_, saved.front, saved.unsaved, saved.proper⟩, List.prefix_refl _⟩
    exact same ▸ saved.loaded
  · obtain ⟨wider, loaded, longer, front, unsaved⟩ := saved.stored whole
    refine ⟨wider, ⟨?_, front, unsaved, saved.proper⟩, longer⟩
    exact same ▸ loaded

/-- A process that starts on those files. -/
theorem OnDisk.restarted {installation next : Installation} {table : PathTable}
    (saved : installation.OnDisk table) {out : Output}
    (whole : installation.manager.pathBuf.SavesWhole out) {disk : Disk}
    (left : disk.pathTable = installation.disk.pathTable ∨
      disk.pathTable = (installation.manager.pathBuf.store out installation.disk.pathTable).file)
    (begun : started disk = some next) : ∃ wider, next.OnDisk wider ∧ table.mStore <+: wider.mStore := by
  obtain ⟨wider, files, longer⟩ := saved.files whole left
  exact ⟨wider, onDisk_started files.loaded (files.proper.of_prefix files.front) begun, longer⟩

/-- After every step the file holds a table that continues the one it held before. -/
theorem onDisk_saving {installation next : Installation} {table : PathTable} {op : SavingOp}
    (saved : installation.OnDisk table) (whole : installation.TableWhole op)
    (taken : installation.saving op = some next) :
    ∃ wider, next.OnDisk wider ∧ table.mStore <+: wider.mStore := by
  cases op with
  | call op savesNothing => exact ⟨table, onDisk_call saved savesNothing taken, List.prefix_refl _⟩
  | store out =>
    obtain ⟨⟨disk, ending⟩, stored, taken⟩ := Option.bind_eq_some_iff.mp taken
    have left := Manager.store_pathTable stored
    cases ending with
    | completed =>
      cases taken
      exact saved.files whole left
    | threw | terminated => exact saved.restarted whole left taken
  | stopInStore out => exact saved.restarted whole (Manager.stoppedStore_pathTable _ _ _) taken

theorem onDisk_run {installation final : Installation} {table : PathTable} {ops : List SavingOp}
    (saved : installation.OnDisk table) (whole : Meets saving TableWhole installation ops)
    (reached : run saving installation ops = some final) :
    ∃ wider, final.OnDisk wider ∧ table.mStore <+: wider.mStore := by
  induction ops generalizing installation table with
  | nil =>
    cases reached
    exact ⟨table, saved, List.prefix_refl _⟩
  | cons op rest ih =>
    obtain ⟨next, taken, reached⟩ := run_cons.mp reached
    obtain ⟨here, whole⟩ := whole next taken
    obtain ⟨middle, saved, first⟩ := onDisk_saving saved here taken
    obtain ⟨wider, saved, later⟩ := ih saved whole reached
    exact ⟨wider, saved, first.trans later⟩

/-- A program that starts on the files finds the path under the checksum. -/
def FoundOnDisk (installation : Installation) (id : UInt32) (path : Bytes) : Prop :=
  ∃ table, PathTable.load installation.disk.pathTable = .ok table ∧ table.get id = some path

/-- A collection of a directory is made and saved; then another one, whose save is stopped
after the table. -/
def createThenStop : List SavingOp × List SavingOp :=
  let entries := Node.directory [(ascii "x.png", .file)]
  ([.call (.createCollection (ascii "a") (ascii "/w") (some entries) false) trivial, .store {}],
    [.call (.createCollection (ascii "b") (ascii "/v") (some entries) false) trivial, .stopInStore {}])

end Installation

end Wallchanger
