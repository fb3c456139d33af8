import Wallchanger.ChangeApp.PathIntegrity
import Wallchanger.ChangeApp.WallApp
import Wallchanger.ChangeLib.LibraryMap
import Wallchanger.ChangeLib.PathLookup

/-! What the user of the command line sees over many invocations: the names in their order with
the active one, the wallpapers under each and the directory behind each checksum. Files and
flags do not show. -/

namespace Wallchanger

open Foundation

/-- The active collection is known by its name and by its position. -/
structure Catalogue where
  directory : Directory Bytes := { names := [], active := [], current := 0 }
  items : LibraryMap := fun _ => none
  paths : UInt32 → Option Bytes := fun _ => none

/-- What is written is the name at the position of the active collection. -/
def Foundation.Directory.reread (directory : Directory Bytes) : Directory Bytes :=
  { directory with active := (directory.names[directory.current]?).getD directory.active }

/-- Repeated wallpapers are dropped where a library is read. -/
def LibraryMap.reread (map : LibraryMap) : LibraryMap :=
  fun name => (map name).map (fun items => items.foldl insertAbsent [])

namespace Catalogue

/-- A call on the library, and whether it reported success. -/
def perform (catalogue : Catalogue) (op : LibOp) (byName : op.ByName) : Catalogue × Bool :=
  ({ catalogue with
      directory := catalogue.directory.apply op.change
      items := (catalogue.items.perform op byName).1 },
    match (catalogue.items.perform op byName).2 with | .ok _ => true | .error _ => false)

def call (catalogue : Catalogue) (op : LibOp) (byName : op.ByName) : Catalogue × Answer :=
  Prod.map id .done (catalogue.perform op byName)

/-- A directory is known under its checksum unless another one was before. -/
def withPath (catalogue : Catalogue) (path : Bytes) : Catalogue :=
  { catalogue with
    paths := fun id => (catalogue.paths id).or (if crc32 path = id then some path else none) }

/-- The wallpapers of a new collection: the files right in the directory. -/
def contentAt (world : World) (path : Bytes) : Option (Cache Bytes) :=
  if path.isEmpty then none
  else match (world.node path).map Node.resolve with
    | some (.directory entries) => some (Manager.collect (Node.listing entries) (crc32 path))
    | _ => none

/-- The number of wallpapers, and the paths at which none stands. -/
def report (catalogue : Catalogue) (world : World) (items : List (CacheItem Bytes)) : Nat × List Bytes :=
  (items.length, (items.filterMap (fun item =>
    (catalogue.paths item.loc).map (appendPath · item.cacheValue))).filter (fun path => !world.existsAt path))

def request (world : World) (catalogue : Catalogue) : AppCall → Catalogue × Answer
  | .createCollection name path => match contentAt world path with
    | some cache => (catalogue.withPath path).call (.insert name cache) trivial
    | none => catalogue.call (.insert name {}) trivial
  | .changeActive name => catalogue.call (.changeActive { chars := name }) trivial
  | .listCollection => (catalogue, .collections catalogue.directory.names)
  | .getCache name => (catalogue, .table ((catalogue.items name).getD []))
  | .addToCollection collectionName wall =>
    if (catalogue.items collectionName).isSome then
      (catalogue.withPath (parentPath wall)).call
        (.insertItem collectionName (filename wall) (crc32 (parentPath wall))) trivial
    else (catalogue, .done false)
  | .removeWallpaper collection wallpaperName =>
    catalogue.call (.removeCacheItem { chars := collection } { chars := wallpaperName }) trivial
  | .removeCollection collection => catalogue.call (.remove { chars := collection }) trivial
  | .renameCollection fromName toName =>
    catalogue.call (.renameStore { chars := fromName } { chars := toName }) trivial
  | .mergeCollection collection1 collection2 =>
    catalogue.call (.mergeCache { chars := collection1 } { chars := collection2 }) trivial
  | .moveWallpaper origin dest wallName =>
    catalogue.call (.moveCacheItem { chars := origin } { chars := dest } { chars := wallName }) trivial
  | .validateCollection collection =>
    (catalogue, .report ((catalogue.items collection).map (catalogue.report world)))

/-- What the next start finds. A library without collections is not written, so the one
before is found again; of any other, repeated wallpapers are dropped. -/
def stored (before after : Catalogue) : Catalogue :=
  if after.directory.names = [] then { before with paths := after.paths }
  else { after with directory := after.directory.reread, items := after.items.reread }

/-- One invocation: the commands until one fails, and the save. -/
def invoke (catalogue : Catalogue) (invocation : Invocation) : Catalogue × List Answer :=
  let outcome := carriedOut Answer.goesOn (request invocation.world) catalogue invocation.requests
  (catalogue.stored outcome.1, outcome.2)

end Catalogue

/-! ### A running manager shows the catalogue -/

/-- The manager holds what the catalogue says. Its directories are those of the file it has
read as long as they are not flagged for saving. -/
structure Manager.Shows (table : PathTable) (manager : Manager) (catalogue : Catalogue) : Prop where
  library : manager.cache.Shows catalogue.items
  directory : manager.cache.directory = catalogue.directory
  paths : manager.pathBuf.get = catalogue.paths
  unsaved : manager.pathBuf.modified = false → manager.pathBuf.mStore = table.mStore

theorem PathTable.unsaved_insert {table before : PathTable}
    (unsaved : table.modified = false → table.mStore = before.mStore) (path : Bytes) :
    (table.insert path).modified = false → (table.insert path).mStore = before.mStore := by
  intro unmodified
  rcases table.insert_cases path with same | modified
  · rw [same] at unmodified ⊢
    exact unsaved unmodified
  · cases modified.symm.trans unmodified

namespace Manager
variable {table : PathTable} {manager : Manager} {catalogue : Catalogue}

/-- A call on the library is a call on the catalogue, with the same success. -/
theorem shows_call (shown : manager.Shows table catalogue) {op : LibOp} (terminated : op.Terminated)
    (byName : op.ByName) {result : CacheLib × Expected} (performed : manager.cache.perform op = some result) :
    (Prod.map id Answer.done (manager.withCache result)).2 = (catalogue.call op byName).2 ∧
      (manager.withCache result).1.Shows table (catalogue.call op byName).1 := by
  obtain ⟨distinct, seen⟩ := shown.library
  obtain ⟨next, outcome, contents⟩ := CacheLib.refines_perform distinct terminated byName
  rw [seen] at outcome contents
  cases performed.symm.trans outcome
  have taken : manager.cache.step op = some next := CacheLib.step_eq_some.mpr ⟨_, outcome⟩
  refine ⟨rfl, ⟨CacheLib.namesDistinct_step distinct terminated taken, contents⟩, ?_, shown.paths,
    shown.unsaved⟩
  change next.directory = catalogue.directory.apply op.change
  rw [← shown.directory]
  exact CacheLib.directory_step taken

/-- A directory that enters the table enters the catalogue. -/
theorem shows_insert (shown : manager.Shows table catalogue) (path : Bytes) :
    { manager with pathBuf := manager.pathBuf.insert path }.Shows table (catalogue.withPath path) where
  library := shown.library
  directory := shown.directory
  paths := by
    funext id
    rw [PathTable.get_insert, congrFun shown.paths id]
    rfl
  unsaved := PathTable.unsaved_insert shown.unsaved path

theorem getCache_shown (shown : manager.Shows table catalogue) (name : Bytes) :
    manager.getCache { chars := name } = (catalogue.items name).getD [] := by
  rw [← shown.library.2]
  by_cases listed : name ∈ manager.cache.names
  · obtain ⟨cache, found⟩ := CacheLib.collection_of_mem listed
    have spot := found
    unfold CacheLib.Collection at spot
    rw [CacheLib.contents_of_collection found, getCache, CacheLib.getCache,
      if_pos ((manager.cache.existsCache_iff name).mpr listed)]
    simp only [spot]
    rfl
  · have absent : ¬ manager.cache.existsCache name = true :=
      fun present => listed ((manager.cache.existsCache_iff name).mp present)
    rw [(manager.cache.contents_eq_none_iff name).mpr listed, getCache, CacheLib.getCache, if_neg absent]
    rfl

private theorem filterMap_of_mapM {α β : Type} {value : α → Option β} {items : List α} {values : List β}
    (all : items.mapM value = some values) : items.filterMap value = values := by
  induction items generalizing values with
  | nil => exact Option.some.inj all
  | cons item rest ih =>
    rw [List.mapM_cons] at all
    obtain ⟨head, here, all⟩ := Option.bind_eq_some_iff.mp all
    obtain ⟨tail, later, all⟩ := Option.bind_eq_some_iff.mp all
    cases all
    rw [List.filterMap_cons_some here, ih later]

theorem zero_not_mem_filename {path : Bytes} (free : 0 ∉ path) : 0 ∉ filename path := by
  intro member
  rw [filename, List.mem_reverse] at member
  exact free (List.mem_reverse.mp ((List.takeWhile_sublist _).subset member))

private theorem shows_createCollection (shown : manager.Shows table catalogue) {world : World}
    {name path : Bytes} (free : 0 ∉ name)
    (performed : manager.request world (.createCollection name path) = some (next, answer)) :
    answer = (catalogue.request world (.createCollection name path)).2 ∧
      next.Shows table (catalogue.request world (.createCollection name path)).1 := by
  obtain ⟨_, result, created, outcome⟩ := request_createCollection_eq_some.mp performed
  obtain ⟨rfl, rfl⟩ := Prod.mk.inj outcome
  simp only [Catalogue.request, Catalogue.contentAt]
  unfold createCollection at created
  split at created
  · rename_i empty
    cases created
    rw [if_pos empty]
    exact shows_call shown (show LibOp.Terminated (.insert name {}) from free) trivial rfl
  · rename_i nonempty
    rw [if_neg nonempty]
    split at created
    · rename_i nothing
      cases created
      rw [nothing]
      exact shows_call shown (show LibOp.Terminated (.insert name {}) from free) trivial rfl
    · rename_i entries there
      cases created
      rw [there]
      exact shows_call (shows_insert shown path)
        (show LibOp.Terminated (.insert name (collect (Node.listing entries) (crc32 path))) from free) trivial rfl
    · cases created

private theorem shows_addToCollection (shown : manager.Shows table catalogue) {world : World}
    {collectionName wall : Bytes} (free : 0 ∉ collectionName) (freeWall : 0 ∉ wall)
    (performed : manager.request world (.addToCollection collectionName wall) = some (next, answer)) :
    answer = (catalogue.request world (.addToCollection collectionName wall)).2 ∧
      next.Shows table (catalogue.request world (.addToCollection collectionName wall)).1 := by
  change some (Prod.map id Answer.done (manager.addToCollection { chars := collectionName } wall)) =
    some (next, answer) at performed
  simp only [Catalogue.request, ← shown.library.2]
  by_cases listed : collectionName ∈ manager.cache.names
  · obtain ⟨cache, found⟩ := CacheLib.collection_of_mem listed
    have present := (manager.cache.existsCache_iff collectionName).mpr listed
    have outcome : manager.addToCollection { chars := collectionName } wall =
        { manager with pathBuf := manager.pathBuf.insert (parentPath wall) }.withCache
          (manager.cache.insertItem collectionName (filename wall) (crc32 (parentPath wall))) := by
      rw [addToCollection, CacheLib.insertItem, if_pos present, if_pos present]
      rfl
    rw [outcome] at performed
    obtain ⟨rfl, rfl⟩ := Prod.mk.inj (Option.some.inj performed)
    rw [CacheLib.contents_of_collection found, Option.isSome_some, if_pos rfl]
    exact shows_call (shows_insert shown (parentPath wall))
      (show LibOp.Terminated (.insertItem collectionName (filename wall) (crc32 (parentPath wall))) from
        ⟨free, zero_not_mem_filename freeWall⟩) trivial rfl
  · have absent : ¬ manager.cache.existsCache collectionName = true :=
      fun present => listed ((manager.cache.existsCache_iff _).mp present)
    have outcome : manager.addToCollection { chars := collectionName } wall = (manager, false) := by
      rw [addToCollection, if_neg absent]
    rw [outcome] at performed
    obtain ⟨rfl, rfl⟩ := Prod.mk.inj (Option.some.inj performed)
    rw [(manager.cache.contents_eq_none_iff _).mpr listed]
    exact ⟨rfl, shown⟩

private theorem shows_validateCollection (shown : manager.Shows table catalogue) {world : World}
    {collection : Bytes}
    (performed : manager.request world (.validateCollection collection) = some (next, answer)) :
    answer = (catalogue.request world (.validateCollection collection)).2 ∧
      next.Shows table (catalogue.request world (.validateCollection collection)).1 := by
  obtain ⟨_, result, validated, outcome⟩ := request_validateCollection_eq_some.mp performed
  obtain ⟨rfl, rfl⟩ := Prod.mk.inj outcome
  simp only [Catalogue.request]
  by_cases listed : collection ∈ manager.cache.names
  · obtain ⟨cache, found⟩ := CacheLib.collection_of_mem listed
    have present := (manager.cache.existsCache_iff collection).mpr listed
    have here : catalogue.items collection = some cache.list := by
      rw [← shown.library.2]
      exact CacheLib.contents_of_collection found
    rw [validateCollection, if_pos present,
      CacheLib.getCacheMut_of_collection { chars := collection } found] at validated
    obtain ⟨paths, read, validated⟩ := Option.bind_eq_some_iff.mp validated
    cases validated
    rw [here]
    refine ⟨?_, CacheLib.shows_updateAt shown.library found, ?_, shown.paths, shown.unsaved⟩
    · have listing := filterMap_of_mapM read
      rw [shown.paths] at listing
      rw [Option.map_some, Catalogue.report, listing]
    · exact (manager.cache.directory_updateAt collection Cache.data).trans shown.directory
  · have absent : ¬ manager.cache.existsCache collection = true :=
      fun present => listed ((manager.cache.existsCache_iff _).mp present)
    have missing : catalogue.items collection = none := by
      rw [← shown.library.2]
      exact (manager.cache.contents_eq_none_iff _).mpr listed
    rw [validateCollection, if_neg absent] at validated
    cases validated
    rw [missing]
    exact ⟨rfl, shown⟩

/-- Every call of the command line does to the manager what it does to the catalogue. -/
theorem shows_request (shown : manager.Shows table catalogue) {world : World} {request : AppCall}
    (free : request.NulFree) (performed : manager.request world request = some (next, answer)) :
    answer = (catalogue.request world request).2 ∧ next.Shows table (catalogue.request world request).1 := by
  have terminated : ∀ name : Bytes, 0 ∉ name → StringView.Terminated { chars := name } :=
    fun _ free => ⟨free, .inl rfl⟩
  cases request with
  | createCollection name path => exact shows_createCollection shown free.1 performed
  | changeActive name =>
    obtain ⟨rfl, rfl⟩ := Prod.mk.inj (Option.some.inj performed)
    exact shows_call shown (show LibOp.Terminated (.changeActive { chars := name }) from terminated _ free)
      trivial rfl
  | listCollection =>
    cases performed
    exact ⟨congrArg (Answer.collections ∘ Directory.names) shown.directory, shown⟩
  | getCache name =>
    cases performed
    exact ⟨congrArg Answer.table (getCache_shown shown name), shown⟩
  | addToCollection collectionName wall => exact shows_addToCollection shown free.1 free.2 performed
  | removeWallpaper collection wallpaperName =>
    obtain ⟨rfl, rfl⟩ := Prod.mk.inj (Option.some.inj performed)
    exact shows_call shown (show LibOp.Terminated (.removeCacheItem { chars := collection }
      { chars := wallpaperName }) from ⟨terminated _ free.1, terminated _ free.2⟩) trivial rfl
  | removeCollection collection =>
    obtain ⟨rfl, rfl⟩ := Prod.mk.inj (Option.some.inj performed)
    exact shows_call shown (show LibOp.Terminated (.remove { chars := collection }) from terminated _ free)
      trivial rfl
  | renameCollection fromName toName =>
    obtain ⟨rfl, rfl⟩ := Prod.mk.inj (Option.some.inj performed)
    exact shows_call shown (show LibOp.Terminated (.renameStore { chars := fromName } { chars := toName })
      from ⟨terminated _ free.1, terminated _ free.2⟩) trivial rfl
  | mergeCollection collection1 collection2 =>
    obtain ⟨managed, merged, outcome⟩ := Option.map_eq_some_iff.mp performed
    obtain ⟨result, library, rfl⟩ := Option.map_eq_some_iff.mp merged
    obtain ⟨rfl, rfl⟩ := Prod.mk.inj outcome
    exact shows_call shown (show LibOp.Terminated (.mergeCache { chars := collection1 }
      { chars := collection2 }) from ⟨terminated _ free.1, terminated _ free.2⟩) trivial library
  | moveWallpaper origin dest wallName =>
    obtain ⟨managed, moved, outcome⟩ := Option.map_eq_some_iff.mp performed
    obtain ⟨result, library, rfl⟩ := Option.map_eq_some_iff.mp moved
    obtain ⟨rfl, rfl⟩ := Prod.mk.inj outcome
    exact shows_call shown (show LibOp.Terminated (.moveCacheItem { chars := origin } { chars := dest }
      { chars := wallName }) from ⟨terminated _ free.1, terminated _ free.2.1, terminated _ free.2.2⟩)
      trivial library
  | validateCollection collection => exact shows_validateCollection shown performed

end Manager

/-! ### The files show the catalogue -/

/-- A program that starts on the files shows the catalogue. -/
def Disk.Shows (disk : Disk) (catalogue : Catalogue) : Prop :=
  ∃ state, Manager.start disk = .ok state ∧ state.pathBuf.modified = false ∧
    state.Shows state.pathBuf catalogue

/-- What a start has read. -/
theorem Manager.start_eq_ok {disk : Disk} {state : Manager} : Manager.start disk = .ok state ↔
    ∃ cache pathBuf, CacheLib.load disk.libraries = .ok cache ∧ PathTable.load disk.pathTable = .ok pathBuf ∧
      state = { cache, pathBuf } := by
  unfold start
  simp only [bind_eq_ok]
  constructor
  · rintro ⟨cache, loadedLib, pathBuf, loadedTable, same⟩
    cases same
    exact ⟨cache, pathBuf, loadedLib, loadedTable, rfl⟩
  · rintro ⟨cache, pathBuf, loadedLib, loadedTable, rfl⟩
    exact ⟨cache, loadedLib, pathBuf, loadedTable, rfl⟩

/-- No files show the empty catalogue. -/
theorem Disk.shows_empty : Disk.Shows {} {} := by
  refine ⟨{}, rfl, rfl, ⟨List.nodup_nil, ?_⟩, rfl, ?_, fun _ => rfl⟩
  · funext name
    rfl
  · funext id
    rfl

/-- A library that is read after it was written shows what it showed, repeated items dropped. -/
theorem CacheLib.shows_reloaded {lib : CacheLib} {map : LibraryMap} (shown : lib.Shows map) (active : Bytes) :
    (reloaded lib.cacheVec active).Shows map.reread := by
  obtain ⟨distinct, rfl⟩ := shown
  constructor
  · rw [NamesDistinct, keys_reloaded]
    exact distinct
  · funext name
    rw [contents, reloaded, lookup_map, LibraryMap.reread, contents, Option.map_map, Option.map_map]
    rfl

/-- It takes the name that was written for the active one, and finds its position again. -/
theorem CacheLib.directory_reloaded {lib : CacheLib} (distinct : lib.NamesDistinct) {store : CacheStore}
    (found : lib.cacheVec[lib.current.toNat]? = some store) :
    (reloaded lib.cacheVec store.1).directory = lib.directory.reread := by
  have named : lib.names[lib.current.toNat]? = some store.1 := by
    rw [names, keys_getElem?, found]
    rfl
  obtain ⟨inside, same⟩ := List.getElem?_eq_some_iff.mp named
  have position : lib.names.idxOf store.1 = lib.current.toNat := by
    rw [← same]
    exact distinct.idxOf_getElem _ inside
  have listed : store.1 ∈ keys lib.cacheVec := List.mem_of_getElem? named
  have current : (reloaded lib.cacheVec store.1).current = lib.current := by
    rw [reloaded, if_pos listed]
    change UInt32.ofNat (lib.names.idxOf store.1) = _
    rw [position, UInt32.ofNat_toNat]
  unfold directory Directory.reread
  rw [keys_reloaded, current, named]
  rfl

namespace Manager
variable {table : PathTable} {manager : Manager} {before catalogue : Catalogue} {disk after : Disk}

/-- A `store` that completes has serialized the library. -/
theorem store_serialized {out : Outputs} (stored : manager.store out disk = some (after, .completed)) :
    ∃ libs, manager.cache.serialize out.libraries disk.libraries = some libs ∧ libs.ending = .completed ∧
      after.libraries = libs.file := by
  unfold store at stored
  split at stored
  · split at stored
    · obtain ⟨libs, serialized, stored⟩ := Option.bind_eq_some_iff.mp stored
      obtain ⟨same, done⟩ := Prod.mk.inj (Option.some.inj stored)
      exact ⟨libs, serialized, done, same ▸ rfl⟩
    · rename_i unfinished _
      cases stored
      exact (unfinished rfl).elim
  · rename_i unfinished _
    cases stored
    exact (unfinished rfl).elim

/-- The table of directories is found again as it is, whether it had to be written or not. -/
theorem stored_paths (shown : manager.Shows table catalogue)
    (loaded : PathTable.load disk.pathTable = .ok table) (unmodified : table.modified = false) :
    PathTable.load (manager.storedPathTable disk.pathTable) = .ok { mStore := manager.pathBuf.mStore } := by
  unfold storedPathTable
  cases modified : manager.pathBuf.modified with
  | false =>
    have same : table = { mStore := manager.pathBuf.mStore } := by
      rw [shown.unsaved modified, ← unmodified]
    exact loaded.trans (congrArg Except.ok same)
  | true => exact PathTable.load_document _

/-- The library that is found again: the one before if there is no collection, else this one. -/
theorem stored_library (shown : manager.Shows table catalogue) {out : Outputs} (sound : out.Sound)
    {lib : CacheLib} (loaded : CacheLib.load disk.libraries = .ok lib) (shownBefore : lib.Shows before.items)
    (named : lib.directory = before.directory) (stored : manager.store out disk = some (after, .completed)) :
    ∃ next, CacheLib.load after.libraries = .ok next ∧ next.Shows (before.stored catalogue).items ∧
      next.directory = (before.stored catalogue).directory := by
  obtain ⟨libs, serialized, completed, same⟩ := store_serialized stored
  unfold Catalogue.stored
  rw [same]
  by_cases empty : manager.cache.cacheVec = []
  · have none_ : catalogue.directory.names = [] := by
      rw [← shown.directory]
      exact List.map_eq_nil_iff.mpr empty
    rw [CacheLib.serialize_empty empty] at serialized
    cases serialized
    rw [if_pos none_]
    exact ⟨lib, loaded, shownBefore, named⟩
  · have some_ : catalogue.directory.names ≠ [] := by
      rw [← shown.directory]
      exact fun none_ => empty (List.map_eq_nil_iff.mp none_)
    obtain ⟨_, store, found, rfl⟩ := (CacheLib.serialize_eq_some empty _ _ _).mp serialized
    rw [if_pos sound.1.2.2] at completed ⊢
    rw [Output.write_file_completed sound.2.2.2 completed, if_neg some_]
    refine ⟨_, CacheLib.load_document _ _, CacheLib.shows_reloaded shown.library store.1, ?_⟩
    rw [CacheLib.directory_reloaded shown.library.1 found, shown.directory]

/-- What a `store` that completes leaves for the next start. -/
theorem shows_stored {state : Manager} (begun : Manager.start disk = .ok state)
    (unmodified : state.pathBuf.modified = false) (shownBefore : state.Shows state.pathBuf before)
    (shown : manager.Shows state.pathBuf catalogue) {out : Outputs} (sound : out.Sound)
    (stored : manager.store out disk = some (after, .completed)) : after.Shows (before.stored catalogue) := by
  obtain ⟨cache, pathBuf, loadedLib, loadedTable, rfl⟩ := start_eq_ok.mp begun
  obtain ⟨next, loadedNext, shownNext, named⟩ :=
    stored_library shown sound loadedLib shownBefore.library shownBefore.directory stored
  obtain ⟨_, table, _⟩ := store_completed sound.1 sound.2 stored []
  have loadedPaths := stored_paths shown loadedTable unmodified
  rw [← table] at loadedPaths
  refine ⟨{ cache := next, pathBuf := { mStore := manager.pathBuf.mStore } },
    start_eq_ok.mpr ⟨_, _, loadedNext, loadedPaths, rfl⟩, rfl, shownNext, named, ?_, fun _ => rfl⟩
  have paths : (before.stored catalogue).paths = catalogue.paths := by
    unfold Catalogue.stored
    split <;> rfl
  rw [paths, ← shown.paths]
  rfl

end Manager

/-- The strings of all calls of an invocation come from the command line, and its streams work. -/
structure Invocation.Regular (invocation : Invocation) : Prop where
  nulFree : ∀ request ∈ invocation.requests, request.NulFree
  sound : invocation.outputs.Sound

namespace Application

/-- One invocation that completes does to the files what it does to the catalogue. -/
theorem shows_run {disk after : Disk} {catalogue : Catalogue} (shown : disk.Shows catalogue)
    {invocation : Invocation} (regular : invocation.Regular)
    (completed : run disk invocation = some (after, answers)) :
    answers = (catalogue.invoke invocation).2 ∧ after.Shows (catalogue.invoke invocation).1 := by
  obtain ⟨state, begun, unmodified, shownState⟩ := shown
  simp only [run, begun] at completed
  obtain ⟨⟨manager, given⟩, performed, completed⟩ := Option.bind_eq_some_iff.mp completed
  obtain ⟨⟨stored, ending⟩, saved, completed⟩ := Option.bind_eq_some_iff.mp completed
  have each : ∀ (manager : Manager) (catalogue : Catalogue) (request : AppCall) next answer,
      manager.Shows state.pathBuf catalogue → request.NulFree →
        manager.request invocation.world request = some (next, answer) →
        answer = (catalogue.request invocation.world request).2 ∧
          next.Shows state.pathBuf (catalogue.request invocation.world request).1 :=
    fun _ _ _ _ _ shown free taken => Manager.shows_request shown free taken
  obtain ⟨same, shownManager⟩ :=
    answered_follows each shownState (along_of_mem regular.nulFree state) performed
  cases ending with
  | completed =>
    cases completed
    exact ⟨same, Manager.shows_stored begun unmodified shownState shownManager regular.sound saved⟩
  | threw => cases completed
  | terminated => cases completed

/-- From no files at all, any number of completed invocations answer, call by call, what the
catalogue answers, and leave files that show the catalogue that is left. -/
theorem invocations_show_catalogue {invocations : List Invocation}
    (regular : ∀ invocation ∈ invocations, invocation.Regular)
    (completed : answered always run {} invocations = some (disk, answers)) :
    answers = (carriedOut always Catalogue.invoke {} invocations).2 ∧
      disk.Shows (carriedOut always Catalogue.invoke {} invocations).1 :=
  answered_follows
    (fun _ _ _ _ _ shown (allowed : Invocation.Regular _) taken => shows_run shown allowed taken)
    Disk.shows_empty (along_of_mem regular _) completed

/-- The file `/w/x.png` and nothing else. -/
def oneFile : World where
  node path := if path = ascii "/w" then some (.directory [(ascii "x.png", .file)]) else none

/-- The collection `a` of that directory; then `b` is asked for, `a` is renamed to it and validated. -/
def createThenRename : List Invocation :=
  let create := some { head := ascii "a", rest := [ascii "/w"] }
  let rename := some { head := ascii "a", rest := [ascii "b"] }
  [{ command := some (.collection { create }), world := oneFile },
    { command := some (.collection { list := ascii "b", rename, validate := ascii "b" }), world := oneFile }]

theorem createThenRename_regular : ∀ invocation ∈ createThenRename, invocation.Regular := by
  have sound : Outputs.Sound {} := by
    unfold Outputs.Sound
    decide
  intro invocation member
  simp only [createThenRename, List.mem_cons, List.not_mem_nil, or_false] at member
  rcases member with rfl | rfl
  · exact ⟨by decide, sound⟩
  · exact ⟨by decide, sound⟩

theorem invocations_show_catalogue_createThenRename : ∃ disk answers,
    answered always run {} createThenRename = some (disk, answers) ∧
      answers = (carriedOut always Catalogue.invoke {} createThenRename).2 ∧
      disk.Shows (carriedOut always Catalogue.invoke {} createThenRename).1 :=
  ⟨_, _, rfl, invocations_show_catalogue createThenRename_regular rfl⟩

end Application

end Wallchanger
