import Wallchanger.ChangeApp.WallManager
import Wallchanger.ChangeLib.SaveInvariant

/-! Every wallpaper refers to a directory in the path table: in memory, in the files,
and between the two halves of a save. -/

namespace Wallchanger

open Foundation

/-- All locations of a collection are known. -/
def ItemRule.knownLocs (known : List UInt32) : ItemRule where
  holds cache := ∀ item ∈ cache.list, item.loc ∈ known
  accepts cache value loc := value ∉ cache.values → loc ∈ known
  apart _ _ := True
  admits _ item := item.loc ∈ known
  allows _ _ _ := True
  start _ member := by cases member
  begin all := all
  insert {cache value loc} all := by
    by_cases present : value ∈ cache.values
    · rw [Cache.insert_present present]
      exact ⟨fun _ absent => absurd present absent, fun _ => all⟩
    · rw [Cache.insert_absent present]
      constructor
      · intro after _
        exact after _ (List.mem_append_right _ (List.mem_singleton.mpr rfl))
      · intro accepted item member
        rcases List.mem_append.mp member with old | new
        · exact all item old
        · rw [List.mem_singleton.mp new]
          exact accepted present
  erase all item member := all item (List.mem_of_mem_eraseIdx member)
  merge left right := by
    refine ⟨fun _ => trivial, fun _ item member => ?_⟩
    exact (List.mem_merge.mp member).elim (left item) (right item)
  insertElem {cache item} all := by
    rw [Cache.insertElem_list]
    constructor
    · intro after
      exact after item (mem_insertAbsent.mpr (.inr rfl))
    · intro admitted other member
      rcases mem_insertAbsent.mp member with old | rfl
      · exact all other old
      · exact admitted
  setState all _ := by
    refine ⟨fun _ => trivial, fun _ => ?_⟩
    exact forall_mem_modify.mpr ⟨fun item found => all item (List.mem_of_getElem? found),
      fun _ item _ found => all item (List.mem_of_getElem? found)⟩

namespace CacheLib

/-- Every location in the library is known. -/
abbrev LocsIn (lib : CacheLib) (known : List UInt32) : Prop := lib.Everywhere (ItemRule.knownLocs known)

theorem LocsIn.mono {lib : CacheLib} {known more : List UInt32} (all : lib.LocsIn known)
    (wider : known ⊆ more) : lib.LocsIn more :=
  fun store member item inside => wider (all store member item inside)

/-- Moving a known location anywhere keeps all known, as does every call that brings
no wallpaper. -/
theorem locsIn_step {lib next : CacheLib} {known : List UInt32} {op : LibOp} (all : lib.LocsIn known)
    (keeps : ∀ name value, op = .insert name value → ∀ item ∈ value.list, item.loc ∈ known)
    (accepts : ∀ name value loc, op = .insertItem name value loc → loc ∈ known)
    (taken : lib.step op = some next) : next.LocsIn known := by
  refine (everywhere_step_iff all taken).mpr ?_
  cases op with
  | insert name value => exact fun _ => keeps name value rfl
  | insertItem name value loc => exact fun _ _ _ => accepts name value loc rfl
  | moveCacheItem source dest itemName =>
    intro _ _ src _ item found _ _ located
    exact all _ (Collection.mem found) item (List.mem_of_getElem? located)
  | mergeCache _ _ => exact fun _ _ _ _ _ => trivial
  | setState _ _ _ => exact fun _ _ _ => trivial
  | _ => trivial

theorem locsIn_reloaded {cacheVec : List CacheStore} {known : List UInt32} (active : Bytes)
    (all : ∀ store ∈ cacheVec, ∀ item ∈ store.2.list, item.loc ∈ known) :
    (reloaded cacheVec active).LocsIn known := by
  intro store member item inside
  obtain ⟨before, listed, rfl⟩ := List.mem_map.mp member
  exact all before listed item ((before.2.mem_reloaded item).mp inside)

end CacheLib

/-! ### A manager and its files -/

namespace Manager

/-- The files of the history and of the table after saves that succeed. -/
def storedHistory (manager : Manager) (file : File) : File :=
  if manager.previous.isEmpty then file else some (.document manager.historyDocument)

def storedPathTable (manager : Manager) (file : File) : File :=
  if manager.pathBuf.modified then some (.document manager.pathBuf.document) else file

/-- The library's file after a save that succeeds, where `modified` tells whether some
collection is flagged; `active` is what is read past the end for an index out of range. -/
def storedLibraries (manager : Manager) (active : Bytes) (file : File) : File :=
  if manager.cache.cacheVec.any (fun store => store.2.modified) then
    some (.document (libraryDocument manager.cache.cacheVec
      ((manager.cache.cacheVec[manager.cache.current.toNat]?.map Prod.fst).getD active)))
  else file

theorem saveHistory_completed {manager : Manager} {out : Output} {file : File}
    (opens : out.opens = true) (accepts : out.accepts = true)
    (completed : (manager.saveHistory out file).ending = .completed) :
    (manager.saveHistory out file).file = manager.storedHistory file := by
  unfold saveHistory storedHistory at *
  cases none_ : manager.previous.isEmpty with
  | true => simp
  | false =>
    simp only [none_, Output.emit, opens, Bool.not_false, if_true] at completed ⊢
    exact Output.write_file_completed accepts completed

theorem pathTable_completed {manager : Manager} {out : Output} {file : File}
    (opens : out.opens = true) (accepts : out.accepts = true)
    (completed : (manager.pathBuf.store out file).ending = .completed) :
    (manager.pathBuf.store out file).file = manager.storedPathTable file := by
  unfold PathTable.store storedPathTable at *
  cases modified : manager.pathBuf.modified with
  | false => simp
  | true =>
    simp only [modified, Output.emit, opens, if_true] at completed ⊢
    refine Output.write_file_completed accepts ?_
    split at completed
    · cases completed
    · exact completed

theorem libraries_completed {manager : Manager} {out : Output} {file : File} {saved : Saved}
    (opens : out.opens = true) (accepts : out.accepts = true)
    (serialized : manager.cache.serialize out file = some saved) (completed : saved.ending = .completed)
    (active : Bytes) : saved.file = manager.storedLibraries active file := by
  by_cases empty : manager.cache.cacheVec = []
  · rw [CacheLib.serialize_empty empty] at serialized
    cases serialized
    simp [storedLibraries, empty]
  · obtain ⟨flagged, store, found, rfl⟩ := (CacheLib.serialize_eq_some empty _ _ _).mp serialized
    have any : manager.cache.cacheVec.any (fun store => store.2.modified) = true :=
      List.any_eq_true.mpr flagged
    rw [if_pos opens] at completed ⊢
    rw [storedLibraries, if_pos any, found]
    exact Output.write_file_completed accepts completed

/-- A `store` that completes on streams that open and take all text leaves these files. -/
theorem store_completed {manager : Manager} {out : Outputs} {disk after : Disk}
    (opens : out.history.opens = true ∧ out.pathTable.opens = true ∧ out.libraries.opens = true)
    (accepts : out.history.accepts = true ∧ out.pathTable.accepts = true ∧ out.libraries.accepts = true)
    (stored : manager.store out disk = some (after, .completed)) (active : Bytes) :
    after.history = manager.storedHistory disk.history ∧
      after.pathTable = manager.storedPathTable disk.pathTable ∧
      after.libraries = manager.storedLibraries active disk.libraries := by
  unfold store at stored
  split at stored
  · rename_i history histDone
    split at stored
    · rename_i pathTable tableDone
      obtain ⟨libs, serialized, stored⟩ := Option.bind_eq_some_iff.mp stored
      obtain ⟨same, libsDone⟩ := Prod.mk.inj (Option.some.inj stored)
      have first := saveHistory_completed opens.1 accepts.1 (congrArg Saved.ending histDone)
      have second := pathTable_completed opens.2.1 accepts.2.1 (congrArg Saved.ending tableDone)
      rw [histDone] at first
      rw [tableDone] at second
      subst same
      exact ⟨first, second, libraries_completed opens.2.2 accepts.2.2 serialized libsDone active⟩
    · rename_i unfinished _
      cases stored
      exact (unfinished rfl).elim
  · rename_i unfinished _
    cases stored
    exact (unfinished rfl).elim

end Manager

/-- A running manager and the files on disk. -/
structure Installation where
  manager : Manager := {}
  disk : Disk := {}

/-- What is done to an installation. `stopInStore` ends the process between the saving
of the path table and that of the library; the next start finds what is there. -/
inductive ManagerOp where
  | createCollection (name path : Bytes) (found : Option Node) (recursive : Bool)
  | addToCollection (collectionName : StringView) (wall : Bytes)
  | renameCollection (fromName toName : StringView)
  | mergeCollection (collection1 collection2 : StringView)
  | moveWallpaper (originCollection destCollection wallName : StringView)
  | removeWallpaper (collection wallpaperName : StringView)
  | removeCollection (collection : StringView)
  | changeActive (cmd : StringView)
  | store (active : Bytes)
  | restart
  | stopInStore

namespace Installation

def withManager (installation : Installation) (result : Manager × Bool) : Installation :=
  { installation with manager := result.1 }

/-- The disk once the path table is saved. -/
def tableSaved (installation : Installation) : Disk :=
  { installation.disk with
    history := installation.manager.storedHistory installation.disk.history
    pathTable := installation.manager.storedPathTable installation.disk.pathTable }

/-- A new process, if the files can be read. -/
def started (disk : Disk) : Option Installation :=
  match Manager.start disk with
  | .ok manager => some { manager, disk }
  | .error _ => none

/-- One step, in which all that is written is written whole. -/
def step (installation : Installation) : ManagerOp → Option Installation
  | .createCollection name path found recursive =>
    (installation.manager.createCollection name path found recursive).map installation.withManager
  | .addToCollection collectionName wall =>
    some (installation.withManager (installation.manager.addToCollection collectionName wall))
  | .renameCollection fromName toName =>
    some (installation.withManager (installation.manager.renameCollection fromName toName))
  | .mergeCollection collection1 collection2 =>
    (installation.manager.mergeCollection collection1 collection2).map installation.withManager
  | .moveWallpaper origin dest wallName =>
    (installation.manager.moveWallpaper origin dest wallName).map installation.withManager
  | .removeWallpaper collection wallpaperName =>
    some (installation.withManager (installation.manager.removeWallpaper collection wallpaperName))
  | .removeCollection collection =>
    some (installation.withManager (installation.manager.removeCollection collection))
  | .changeActive cmd => some (installation.withManager (installation.manager.changeActive cmd))
  | .store active => some { installation with
      disk := { installation.tableSaved with
        libraries := installation.manager.storedLibraries active installation.disk.libraries } }
  | .restart => started installation.disk
  | .stopInStore => started installation.tableSaved

/-- Locations are known in memory; the files can be read, theirs are known in the saved
table, which memory extends, and which it equals while it is not modified. -/
structure Integrity (installation : Installation) : Prop where
  memory : installation.manager.cache.LocsIn (keys installation.manager.pathBuf.mStore)
  files : ∃ lib table, CacheLib.load installation.disk.libraries = .ok lib ∧
    PathTable.load installation.disk.pathTable = .ok table ∧ lib.LocsIn (keys table.mStore) ∧
    keys table.mStore ⊆ keys installation.manager.pathBuf.mStore ∧
    (installation.manager.pathBuf.modified = false →
      keys installation.manager.pathBuf.mStore ⊆ keys table.mStore)

variable {installation : Installation}

theorem locsIn_empty (known : List UInt32) : CacheLib.LocsIn {} known :=
  fun _ member => absurd member List.not_mem_nil

theorem integrity_empty : Integrity {} where
  memory := locsIn_empty _
  files := ⟨{}, {}, rfl, rfl, locsIn_empty _, fun _ known => known, fun _ _ known => known⟩

/-- A call on the library that brings no unknown location. -/
theorem integrity_call (integrity : Integrity installation) {next : CacheLib}
    (all : next.LocsIn (keys installation.manager.pathBuf.mStore)) :
    Integrity { installation with manager := { installation.manager with cache := next } } where
  memory := all
  files := integrity.files

/-- A directory that enters the table, and a library with its location. -/
theorem integrity_insert (integrity : Integrity installation) {path : Bytes} {next : CacheLib}
    (all : next.LocsIn (keys (installation.manager.pathBuf.insert path).mStore)) :
    Integrity { installation with manager := { installation.manager with
      cache := next, pathBuf := installation.manager.pathBuf.insert path } } where
  memory := all
  files := by
    obtain ⟨lib, table, loadedLib, loadedTable, known, below, saved⟩ := integrity.files
    refine ⟨lib, table, loadedLib, loadedTable, known, ?_, ?_⟩
    · intro id member
      exact (PathTable.mem_keys_insert _ _ _).mpr (.inl (below member))
    · intro unmodified
      rcases installation.manager.pathBuf.insert_cases path with same | modified
      · change (installation.manager.pathBuf.insert path).modified = false at unmodified
        change keys (installation.manager.pathBuf.insert path).mStore ⊆ _
        rw [same] at unmodified ⊢
        exact saved unmodified
      · cases modified.symm.trans unmodified

/-- The locations of a new collection are all the same. -/
theorem loc_of_collect {listing : List (Bytes × Bool)} {crcLoc : UInt32} :
    ∀ item ∈ (Manager.collect listing crcLoc).list, item.loc = crcLoc := by
  have known : (ItemRule.knownLocs [crcLoc]).holds (Manager.collect listing crcLoc) := by
    unfold Manager.collect
    refine List.foldlRecOn listing _ (ItemRule.knownLocs [crcLoc]).start ?_
    intro cache all entry _
    split
    · exact ((ItemRule.knownLocs [crcLoc]).insert all).mpr (fun _ => List.mem_singleton.mpr rfl)
    · exact all
  exact fun item member => List.mem_singleton.mp (known item member)

/-- Saving the path table makes the saved table as wide as the one in memory. -/
theorem storedPathTable_known (integrity : Integrity installation) : ∃ table,
    PathTable.load (installation.manager.storedPathTable installation.disk.pathTable) = .ok table ∧
      keys table.mStore ⊆ keys installation.manager.pathBuf.mStore ∧
      keys installation.manager.pathBuf.mStore ⊆ keys table.mStore := by
  obtain ⟨_, table, _, loaded, _, below, saved⟩ := integrity.files
  unfold Manager.storedPathTable
  cases modified : installation.manager.pathBuf.modified with
  | false => exact ⟨table, loaded, below, saved modified⟩
  | true => exact ⟨_, PathTable.load_document _, fun _ known => known, fun _ known => known⟩

/-- The disk keeps its integrity when the path table is saved and the library is not. -/
theorem integrity_tableSaved (integrity : Integrity installation) :
    Integrity { installation with disk := installation.tableSaved } where
  memory := integrity.memory
  files := by
    obtain ⟨lib, old, loadedLib, _, known, below, _⟩ := integrity.files
    obtain ⟨table, loadedTable, narrow, wide⟩ := storedPathTable_known integrity
    exact ⟨lib, table, loadedLib, loadedTable, known.mono (fun _ listed => wide (below listed)),
      narrow, fun _ => wide⟩

theorem integrity_store (integrity : Integrity installation) (active : Bytes) :
    Integrity { installation with
      disk := { installation.tableSaved with
        libraries := installation.manager.storedLibraries active installation.disk.libraries } } where
  memory := integrity.memory
  files := by
    obtain ⟨lib, old, loadedLib, _, known, below, _⟩ := integrity.files
    obtain ⟨table, loadedTable, narrow, wide⟩ := storedPathTable_known integrity
    dsimp only [Manager.storedLibraries]
    split
    · refine ⟨_, table, CacheLib.load_document _ _, loadedTable, ?_, narrow, fun _ => wide⟩
      exact CacheLib.locsIn_reloaded _ (fun store member item inside =>
        wide (integrity.memory store member item inside))
    · exact ⟨lib, table, loadedLib, loadedTable, known.mono (fun _ listed => wide (below listed)),
        narrow, fun _ => wide⟩

/-- A new process starts, with the integrity of the files it reads. -/
theorem integrity_started (integrity : Integrity installation) :
    ∃ next, started installation.disk = some next ∧ Integrity next := by
  obtain ⟨lib, table, loadedLib, loadedTable, known, _, _⟩ := integrity.files
  have begun : Manager.start installation.disk = .ok { cache := lib, pathBuf := table } := by
    rw [Manager.start, loadedLib, loadedTable]
    rfl
  refine ⟨{ manager := { cache := lib, pathBuf := table }, disk := installation.disk }, ?_, ?_⟩
  · rw [started, begun]
  · exact ⟨known, lib, table, loadedLib, loadedTable, known, fun _ listed => listed,
      fun _ _ listed => listed⟩

/-- A library call other than an insertion, made by the manager. -/
theorem integrity_libraryCall (integrity : Integrity installation) (op : LibOp)
    {result : CacheLib × Expected} (performed : installation.manager.cache.perform op = some result)
    (noInsert : ∀ name value, op ≠ .insert name value)
    (noItem : ∀ name value loc, op ≠ .insertItem name value loc) :
    Integrity (installation.withManager (installation.manager.withCache result)) := by
  refine integrity_call integrity (CacheLib.locsIn_step integrity.memory ?_ ?_
    (CacheLib.step_eq_some.mpr ⟨result.2, performed⟩))
  · exact fun name value same => absurd same (noInsert name value)
  · exact fun name value loc same => absurd same (noItem name value loc)

theorem integrity_createCollection (integrity : Integrity installation) {name path : Bytes}
    {found : Option Node} {recursive : Bool} {result : Manager × Bool}
    (created : installation.manager.createCollection name path found recursive = some result) :
    Integrity (installation.withManager result) := by
  have emptyCollection : Integrity (installation.withManager
      (installation.manager.withCache (installation.manager.cache.insert name {}))) := by
    have taken : installation.manager.cache.step (.insert name {}) =
        some (installation.manager.cache.insert name {}).1 := rfl
    refine integrity_call integrity (CacheLib.locsIn_step integrity.memory ?_ ?_ taken)
    · rintro _ _ same item member
      cases same
      cases member
    · exact fun _ _ _ same => by cases same
  unfold Manager.createCollection at created
  split at created
  · cases created
    exact emptyCollection
  · split at created
    · cases created
      exact emptyCollection
    · rename_i entries _
      cases created
      let listing := if !recursive then Node.listing entries else Node.recursiveListing entries
      have taken : installation.manager.cache.step (.insert name (Manager.collect listing (crc32 path))) =
          some (installation.manager.cache.insert name (Manager.collect listing (crc32 path))).1 := rfl
      have listed : crc32 path ∈ keys (installation.manager.pathBuf.insert path).mStore :=
        (PathTable.mem_keys_insert _ _ _).mpr (.inr rfl)
      have wider : installation.manager.cache.LocsIn
          (keys (installation.manager.pathBuf.insert path).mStore) :=
        integrity.memory.mono (fun _ known => (PathTable.mem_keys_insert _ _ _).mpr (.inl known))
      refine integrity_insert integrity (CacheLib.locsIn_step wider ?_ ?_ taken)
      · rintro _ _ same item member
        cases same
        exact loc_of_collect item member ▸ listed
      · exact fun _ _ _ same => by cases same
    · cases created

theorem integrity_addToCollection (integrity : Integrity installation) (collectionName : StringView)
    (wall : Bytes) :
    Integrity (installation.withManager (installation.manager.addToCollection collectionName wall)) := by
  unfold Manager.addToCollection
  dsimp only
  split
  · rename_i present
    have listed : crc32 (parentPath wall) ∈
        keys (installation.manager.pathBuf.insert (parentPath wall)).mStore :=
      (PathTable.mem_keys_insert _ _ _).mpr (.inr rfl)
    have wider : installation.manager.cache.LocsIn
        (keys (installation.manager.pathBuf.insert (parentPath wall)).mStore) :=
      integrity.memory.mono (fun _ known => (PathTable.mem_keys_insert _ _ _).mpr (.inl known))
    exact integrity_insert integrity ((CacheLib.everywhere_updateAt_iff wider).mpr
      (fun cache found => ((ItemRule.knownLocs _).insert (wider _ found.mem)).mpr (fun _ => listed)))
  · exact integrity

/-- Every step keeps the integrity. -/
theorem integrity_step {next : Installation} {op : ManagerOp} (integrity : Integrity installation)
    (taken : installation.step op = some next) : Integrity next := by
  cases op with
  | createCollection name path found recursive =>
    obtain ⟨result, created, rfl⟩ := Option.map_eq_some_iff.mp taken
    exact integrity_createCollection integrity created
  | addToCollection collectionName wall =>
    cases taken
    exact integrity_addToCollection integrity collectionName wall
  | renameCollection fromName toName =>
    cases taken
    exact integrity_libraryCall integrity (.renameStore fromName toName) rfl nofun nofun
  | mergeCollection collection1 collection2 =>
    obtain ⟨managed, merged, rfl⟩ := Option.map_eq_some_iff.mp taken
    obtain ⟨result, performed, rfl⟩ := Option.map_eq_some_iff.mp merged
    exact integrity_libraryCall integrity (.mergeCache collection1 collection2) performed nofun nofun
  | moveWallpaper origin dest wallName =>
    obtain ⟨managed, moved, rfl⟩ := Option.map_eq_some_iff.mp taken
    obtain ⟨result, performed, rfl⟩ := Option.map_eq_some_iff.mp moved
    exact integrity_libraryCall integrity (.moveCacheItem origin dest wallName) performed nofun nofun
  | removeWallpaper collection wallpaperName =>
    cases taken
    exact integrity_libraryCall integrity (.removeCacheItem collection wallpaperName) rfl nofun nofun
  | removeCollection collection =>
    cases taken
    exact integrity_libraryCall integrity (.remove collection) rfl nofun nofun
  | changeActive cmd =>
    cases taken
    exact integrity_libraryCall integrity (.changeActive cmd) rfl nofun nofun
  | store active =>
    cases taken
    exact integrity_store integrity active
  | restart =>
    obtain ⟨other, begun, whole⟩ := integrity_started integrity
    cases begun.symm.trans taken
    exact whole
  | stopInStore =>
    obtain ⟨other, begun, whole⟩ := integrity_started (integrity_tableSaved integrity)
    cases begun.symm.trans taken
    exact whole

/-- Every wallpaper's directory is in the table, so validating a collection does not
throw; and a new process can start, from the files as they are and from those left
between the two halves of a save. -/
def Resolves (installation : Installation) : Prop :=
  (∀ item, installation.manager.cache.Holds item →
      (installation.manager.pathBuf.get item.loc).isSome = true) ∧
    (∀ collection existsAt,
      (installation.manager.validateCollection collection existsAt).isSome = true) ∧
    (∃ next, installation.step .restart = some next) ∧ ∃ next, installation.step .stopInStore = some next

private theorem mapM_isSome {α β : Type} {find : α → Option β} {items : List α}
    (all : ∀ item ∈ items, (find item).isSome = true) : (items.mapM find).isSome = true := by
  induction items with
  | nil => rfl
  | cons item rest ih =>
    obtain ⟨first, here⟩ := Option.isSome_iff_exists.mp (all item (by simp))
    obtain ⟨others, later⟩ := Option.isSome_iff_exists.mp
      (ih (fun other member => all other (by simp [member])))
    rw [List.mapM_cons, here, later]
    rfl

theorem validateCollection_isSome {manager : Manager}
    (located : ∀ item, manager.cache.Holds item → (manager.pathBuf.get item.loc).isSome = true)
    (collection : StringView) (existsAt : Bytes → Bool) :
    (manager.validateCollection collection existsAt).isSome = true := by
  unfold Manager.validateCollection
  split
  · rename_i present
    obtain ⟨cache, found⟩ := CacheLib.collection_of_mem ((manager.cache.existsCache_iff _).mp present)
    have spot : manager.cache.cacheVec[find manager.cache.cacheVec collection.chars]? =
        some (collection.chars, cache) := found
    have paths : ∀ item ∈ cache.list, ((manager.pathBuf.get item.loc).map
        (appendPath · item.cacheValue)).isSome = true := by
      intro item member
      rw [Option.isSome_map]
      exact located item ⟨_, found.mem, member⟩
    obtain ⟨all, read⟩ := Option.isSome_iff_exists.mp (mapM_isSome paths)
    simp only [CacheLib.getCacheMut, if_pos present, spot, read]
    rfl
  · rfl

theorem resolves_of_integrity (integrity : Integrity installation) : installation.Resolves := by
  have located : ∀ item, installation.manager.cache.Holds item →
      (installation.manager.pathBuf.get item.loc).isSome = true := by
    rintro item ⟨store, member, inside⟩
    exact (PathTable.get_isSome_iff _ _).mpr (integrity.memory store member item inside)
  refine ⟨located, ?_, ?_, ?_⟩
  · exact validateCollection_isSome located
  · obtain ⟨next, begun, _⟩ := integrity_started integrity
    exact ⟨next, begun⟩
  · obtain ⟨next, begun, _⟩ := integrity_started (integrity_tableSaved integrity)
    exact ⟨next, begun⟩

/-- From no files at all, every state of every run resolves its locations. -/
theorem locations_resolve_throughout (ops : List ManagerOp) : Throughout step Resolves {} ops := by
  have whole : Throughout step Integrity {} ops :=
    throughout_of_kept (fun _ _ _ before taken => integrity_step before taken) integrity_empty
  exact whole.imp (fun _ integrity => resolves_of_integrity integrity)

end Installation

end Wallchanger
