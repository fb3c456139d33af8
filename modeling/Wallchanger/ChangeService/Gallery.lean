import Wallchanger.ChangeApp.Invocations
import Wallchanger.ChangeService.FrontEnds
import Wallchanger.ChangeService.StateSimulation

/-! What the clients of the service can tell of its state: the catalogue and the records of what
was shown. Flags for saving do not show. -/

namespace Wallchanger

open Foundation Net

/-- The catalogue, and the records of the wallpapers that were shown. -/
structure Gallery extends Catalogue where
  previous : List Json

namespace Gallery

/-- A call on the library, and whether it reported success. -/
def call (gallery : Gallery) (op : LibOp) (byName : op.ByName) : Gallery × Bool :=
  ({ gallery with toCatalogue := (gallery.toCatalogue.perform op byName).1 },
    (gallery.toCatalogue.perform op byName).2)

def withPath (gallery : Gallery) (path : Bytes) : Gallery :=
  { gallery with toCatalogue := gallery.toCatalogue.withPath path }

/-- The wallpapers at the position of the active collection. -/
def current (gallery : Gallery) : Option (List (CacheItem Bytes)) :=
  gallery.directory.names[gallery.directory.current]?.bind gallery.items

/-- The first draw of an unused wallpaper of the active collection is shown and recorded; the
wallpaper stays unused. -/
def getNextWallpaper (env : Environment) (gallery : Gallery) : Outcome (Gallery × Json) := do
  let items ← unchecked (gallery.items gallery.directory.active)
  if (wallDistribution items.length).Valid then
    match redraw (pick items) env.draws with
    | some (.taken idx) => do
      let ret ← unchecked items[idx]?
      match gallery.paths ret.loc with
      | some path =>
        let send := Manager.wallRecord gallery.directory.active idx path ret.cacheValue
        return ({ gallery with previous := gallery.previous ++ [send] }, send)
      | none => .error .terminated
    | some .outside => .error .terminated
    | none => .error .searching
  else .error .undefined

def getPreviousWallpaper (gallery : Gallery) : Gallery × Json :=
  match gallery.previous.getLast? with
  | some previous => ({ gallery with previous := gallery.previous.dropLast }, previous)
  | none => (gallery, .null)

/-- Nothing is marked; the wallpaper shown last has to be in the active collection. -/
def markFavorate (gallery : Gallery) : Outcome Gallery := do
  let cur ← unchecked gallery.previous.getLast?
  let items ← unchecked gallery.current
  let wallpaper : Bytes ← noThrow (do fromJson (← cur.subscriptMut "wallpaper"))
  if items.any (fun item => item.cacheValue = wallpaper) then return gallery else .error .undefined

def changeActive (serverCmd : Json) (gallery : Gallery) : Outcome (Gallery × Bool) := do
  let name ← serverCmd.field Bytes "new_active_name"
  return gallery.call (.changeActive (.ofString name)) trivial

def createCollection (env : Environment) (serverCmd : Json) (gallery : Gallery) :
    Outcome (Gallery × Bool) := do
  let colEmpty ← serverCmd.field Bool "col_empty"
  if !colEmpty then
    let colPath ← serverCmd.field Bytes "col_path"
    let recursive ← serverCmd.field Bool "recursive"
    let listing ← State.iterate env colPath recursive
    let name ← serverCmd.field Bytes "new_col_name"
    return (gallery.withPath colPath).call
      (.insert name (Manager.collect listing (crc32 colPath))) trivial
  else
    let name ← serverCmd.field Bytes "new_col_name"
    return gallery.call (.insert name {}) trivial

def addToCollection (serverCmd : Json) (gallery : Gallery) : Outcome (Gallery × Bool) := do
  let colName ← serverCmd.field Bytes "col_name"
  let wall ← serverCmd.field Bytes "wall"
  if (gallery.items colName).isSome then
    return (gallery.withPath (parentPath wall)).call
      (.insertItem colName (filename wall) (crc32 (parentPath wall))) trivial
  else return (gallery, false)

def renameCollection (serverCmd : Json) (gallery : Gallery) : Outcome (Gallery × Bool) := do
  let fromName ← serverCmd.field Bytes "col_name"
  let toName ← serverCmd.field Bytes "col_name_new"
  return gallery.call (.renameStore (.ofString fromName) (.ofString toName)) trivial

/-- The removal of a wallpaper succeeds wherever there is a collection, and removes nothing. -/
def removeCollection (serverCmd : Json) (gallery : Gallery) : Outcome (Gallery × Bool) := do
  let wallOnly ← serverCmd.field Bool "wall_only"
  let col ← serverCmd.field Bytes "col"
  if wallOnly then
    if (gallery.items col).isSome then
      let _ ← serverCmd.field Bytes "wall"
      return (gallery, true)
    else return (gallery, false)
  else return gallery.call (.remove (.ofString col)) trivial

def listCollection (serverCmd : Json) (gallery : Gallery) : Outcome (Gallery × Listing) := do
  let colOnly ← serverCmd.field Bool "col_only"
  if !colOnly then
    let items ← unchecked gallery.current
    return (gallery, .cache { list := items, modified := true })
  else return (gallery, .names gallery.directory.names)

def moveCollectoion (serverCmd : Json) (gallery : Gallery) : Outcome (Gallery × Bool) := do
  let colFrm ← serverCmd.field Bytes "col_cur"
  let colTo ← serverCmd.field Bytes "col_new"
  let wall ← serverCmd.field Bytes "wall"
  return gallery.call (.moveCacheItem (.ofString colFrm) (.ofString colTo) (.ofString wall)) trivial

def mergeCollection (serverCmd : Json) (gallery : Gallery) : Outcome (Gallery × Bool) := do
  let col1 ← serverCmd.field Bytes "col1"
  let col2 ← serverCmd.field Bytes "col2"
  return gallery.call (.mergeCache (.ofString col1) (.ofString col2)) trivial

def api : StateApi Gallery where
  getNextWallpaper := getNextWallpaper
  getPreviousWallpaper gallery := .ok gallery.getPreviousWallpaper
  markFavorate := markFavorate
  changeActive := changeActive
  createCollection := createCollection
  addToCollection := addToCollection
  renameCollection := renameCollection
  removeCollection := removeCollection
  listCollection := listCollection
  mergeCollection := mergeCollection
  moveCollectoion := moveCollectoion

end Gallery

/-- What the clients can tell of a state. -/
def State.gallery (state : State) : Gallery where
  directory := state.cache.directory
  items := state.cache.contents
  paths := state.pathBuf.get
  previous := state.previous

/-- A state with distinct names, and what the clients can tell of it. Its directories are those
of the file it has read as long as they are not flagged for saving. -/
structure State.Shows (table : PathTable) (state : State) (gallery : Gallery) : Prop where
  distinct : state.cache.NamesDistinct
  same : state.gallery = gallery
  unsaved : state.pathBuf.modified = false → state.pathBuf.mStore = table.mStore

/-- The names and the wallpaper of a command hold no NUL. -/
def Json.NulFree (serverCmd : Json) : Prop :=
  ∀ key ∈ ["new_active_name", "new_col_name", "col_name", "col_name_new", "wall", "col", "col_cur", "col_new",
      "col1", "col2"],
    ∀ text ∈ (serverCmd.field Bytes key).toOption, 0 ∉ text

/-! ### The operations on a state are those on its gallery -/

namespace State

variable {table : PathTable} {state : State} {gallery : Gallery} {serverCmd : Json}

theorem Shows.items (shown : state.Shows table gallery) : state.cache.Shows gallery.items :=
  ⟨shown.distinct, congrArg (fun gallery : Gallery => gallery.items) shown.same⟩

/-- A library with other flags for saving shows the same. -/
theorem Shows.withFlags (shown : state.Shows table gallery) {cache : CacheLib} (same : cache.Shows gallery.items)
    (directory : cache.directory = state.cache.directory) : State.Shows table { state with cache } gallery := by
  obtain ⟨distinct, rfl, unsaved⟩ := shown
  refine ⟨same.1, ?_, unsaved⟩
  unfold State.gallery
  rw [directory, same.2]
  rfl

theorem Shows.withPath (shown : state.Shows table gallery) (path : Bytes) :
    State.Shows table { state with pathBuf := state.pathBuf.insert path } (gallery.withPath path) := by
  obtain ⟨distinct, rfl, unsaved⟩ := shown
  refine ⟨distinct, ?_, PathTable.unsaved_insert unsaved path⟩
  have paths := PathTable.get_insert state.pathBuf path
  unfold State.gallery Gallery.withPath Catalogue.withPath
  simp only [funext paths]

/-- A call on the library is a call on the gallery. -/
theorem follows_call (shown : state.Shows table gallery) {op : LibOp} (terminated : op.Terminated)
    (byName : op.ByName) :
    Follows (Shows table) (unchecked (state.cache.perform op) >>= fun result => pure (state.withCache result))
      (pure (gallery.call op byName)) := by
  obtain ⟨distinct, rfl, unsaved⟩ := shown
  obtain ⟨next, performed, contents⟩ := CacheLib.refines_perform distinct terminated byName
  have taken : state.cache.step op = some next := CacheLib.step_eq_some.mpr ⟨_, performed⟩
  have directory := CacheLib.directory_step taken
  rw [performed]
  refine ⟨⟨CacheLib.namesDistinct_step distinct terminated taken, ?_, unsaved⟩, rfl⟩
  change Gallery.mk ⟨next.directory, next.contents, _⟩ _ = _
  rw [directory, contents]
  rfl

theorem terminated_ofString {text : Bytes} (free : 0 ∉ text) : (StringView.ofString text).Terminated :=
  ⟨free, .inl rfl⟩

/-- The text under one of the keys of names. -/
theorem zero_not_mem_field (free : serverCmd.NulFree) {key : String} {text : Bytes}
    (field : serverCmd.field Bytes key = .ok text)
    (listed : key ∈ ["new_active_name", "new_col_name", "col_name", "col_name_new", "wall", "col", "col_cur",
      "col_new", "col1", "col2"] := by simp) : 0 ∉ text := by
  refine free key listed text ?_
  rw [field]
  rfl

/-- Looking at a collection through the mutable pointer flags it for saving. -/
theorem getCacheMut_cases (shown : state.Shows table gallery) (name : StringView) :
    (∃ cache items, state.cache.getCacheMut name = .ok (cache, items) ∧
        gallery.items name.chars = some items ∧ cache.Shows gallery.items ∧
        cache.directory = state.cache.directory) ∨
      (∃ error, state.cache.getCacheMut name = .error error) ∧ gallery.items name.chars = none := by
  obtain ⟨_, contents⟩ := shown.items
  rw [← contents]
  by_cases listed : name.chars ∈ state.cache.names
  · obtain ⟨cache, found⟩ := CacheLib.collection_of_mem listed
    exact .inl ⟨_, _, CacheLib.getCacheMut_of_collection name found, CacheLib.contents_of_collection found,
      contents ▸ CacheLib.shows_updateAt shown.items found, CacheLib.directory_updateAt _ _ _⟩
  · exact .inr ⟨⟨_, CacheLib.getCacheMut_of_not_mem name listed⟩,
      (CacheLib.contents_eq_none_iff _ _).mpr listed⟩

theorem follows_getNextWallpaper (env : Environment) (shown : state.Shows table gallery) :
    Follows (Shows table) (state.getNextWallpaper env) (gallery.getNextWallpaper env) := by
  have same := shown.same
  have active : gallery.directory.active = state.cache.activeCacheName := same ▸ rfl
  have paths : gallery.paths = state.pathBuf.get := same ▸ rfl
  unfold getNextWallpaper Gallery.getNextWallpaper
  rw [active, paths]
  dsimp only
  rcases getCacheMut_cases shown ⟨state.cache.activeCacheName, []⟩ with
    ⟨cache, items, looked, found, kept, directory⟩ | ⟨⟨error, looked⟩, none_⟩
  · rw [looked, show gallery.items state.cache.activeCacheName = some items from found]
    have given : unchecked (some items) = .ok items := rfl
    rw [given, ok_bind]
    dsimp only
    refine Follows.ite (wallDistribution items.length).Valid ?_ ?_
    · intro _
      cases redraw (pick items) env.draws with
      | none => exact .error
      | some picked =>
        cases picked with
        | outside => exact .error
        | taken idx =>
          refine follows_after (fun ret _ => ?_)
          cases state.pathBuf.get ret.loc with
          | none => exact .error
          | some path =>
            have after := shown.withFlags kept directory
            exact ⟨⟨after.distinct, by rw [← after.same]; rfl, shown.unsaved⟩, rfl⟩
    · intro _
      exact .error
  · rw [looked, show gallery.items state.cache.activeCacheName = none from none_]
    exact .error

theorem follows_getPreviousWallpaper (shown : state.Shows table gallery) :
    Follows (Shows table) (Except.ok state.getPreviousWallpaper : Outcome (State × Json))
      (.ok gallery.getPreviousWallpaper) := by
  obtain ⟨distinct, rfl, unsaved⟩ := shown
  unfold getPreviousWallpaper Gallery.getPreviousWallpaper State.gallery
  dsimp only
  cases state.previous.getLast? with
  | none => exact ⟨⟨distinct, rfl, unsaved⟩, rfl⟩
  | some previous => exact ⟨⟨distinct, rfl, unsaved⟩, rfl⟩

theorem follows_changeActive (free : serverCmd.NulFree) (shown : state.Shows table gallery) :
    Follows (Shows table) (state.changeActive serverCmd) (gallery.changeActive serverCmd) :=
  follows_after (fun name field => follows_call shown
    (show LibOp.Terminated (.changeActive _) from terminated_ofString (zero_not_mem_field free field)) trivial)

theorem follows_renameCollection (free : serverCmd.NulFree) (shown : state.Shows table gallery) :
    Follows (Shows table) (state.renameCollection serverCmd) (gallery.renameCollection serverCmd) :=
  follows_after (fun _ source => follows_after (fun _ target => follows_call shown
    (show LibOp.Terminated (.renameStore _ _) from ⟨terminated_ofString (zero_not_mem_field free source),
      terminated_ofString (zero_not_mem_field free target)⟩) trivial))

/-- The flag of one collection does not show. -/
theorem shows_begin {lib : CacheLib} {map : LibraryMap} (shown : lib.Shows map) (i : Nat) :
    CacheLib.Shows { lib with cacheVec := lib.cacheVec.modify i (Prod.map id Cache.begin) } map := by
  obtain ⟨distinct, rfl⟩ := shown
  have named : CacheLib.names { lib with cacheVec := lib.cacheVec.modify i (Prod.map id Cache.begin) } = lib.names :=
    congrArg Directory.names (lib.directory_modify i Cache.begin)
  have lists : (lib.cacheVec.modify i (Prod.map id Cache.begin)).map (fun entry => (entry.1, entry.2.list)) =
      lib.cacheVec.map (fun entry => (entry.1, entry.2.list)) :=
    @map_modify_same _ _ _ (Prod.map id Cache.begin) (fun _ => rfl) lib.cacheVec i
  constructor
  · rw [CacheLib.NamesDistinct, named]
    exact distinct
  · funext name
    rw [CacheLib.contents, CacheLib.contents, ← lookup_map, ← lookup_map]
    exact congrArg (lookup · name) lists

/-- The same for the collection at the position of the active one. -/
theorem getCurrentMut_cases (shown : state.Shows table gallery) :
    (∃ cache items, state.cache.getCurrentMut = some (cache, items) ∧ gallery.current = some items ∧
        State.Shows table { state with cache } gallery) ∨
      state.cache.getCurrentMut = none ∧ gallery.current = none := by
  have spot : gallery.current = (state.cache.names[state.cache.current.toNat]?).bind state.cache.contents := by
    rw [← shown.same]
    rfl
  rw [spot, CacheLib.getCurrentMut, CacheLib.names, keys, List.getElem?_map]
  cases there : state.cache.cacheVec[state.cache.current.toNat]? with
  | none => exact .inr ⟨rfl, rfl⟩
  | some store =>
    obtain ⟨name, cache⟩ := store
    have found : state.cache.Collection name cache :=
      CacheLib.collection_of_distinct shown.distinct (List.mem_of_getElem? there)
    refine .inl ⟨_, _, rfl, CacheLib.contents_of_collection found, ?_⟩
    exact shown.withFlags (shows_begin shown.items _) (state.cache.directory_modify _ _)

theorem follows_markFavorate (shown : state.Shows table gallery) :
    Follows (Shows table) ((·, ()) <$> state.markFavorate) ((·, ()) <$> gallery.markFavorate) := by
  have previous : gallery.previous = state.previous := shown.same ▸ rfl
  unfold markFavorate Gallery.markFavorate
  rw [previous]
  cases state.previous.getLast? with
  | none => exact rfl
  | some cur =>
    rcases getCurrentMut_cases shown with ⟨cache, items, looked, found, kept⟩ | ⟨looked, none_⟩
    · rw [looked, found]
      simp only [unchecked, ok_bind, map_bind]
      refine follows_after (fun wallpaper _ => ?_)
      rw [← List.isSome_find?]
      cases sought : items.find? (fun item => item.cacheValue = wallpaper) with
      | none => exact .error
      | some item => exact ⟨kept, rfl⟩
    · rw [looked, none_]
      exact rfl

theorem follows_createCollection (env : Environment) (free : serverCmd.NulFree) (shown : state.Shows table gallery) :
    Follows (Shows table) (state.createCollection env serverCmd) (gallery.createCollection env serverCmd) := by
  refine follows_after (fun colEmpty _ => ?_)
  split
  · refine follows_after (fun colPath _ => follows_after (fun recursive _ => ?_))
    refine follows_after (fun listing _ => follows_after (fun name field => ?_))
    exact follows_call (shown.withPath colPath)
      (show LibOp.Terminated (.insert name _) from zero_not_mem_field free field) trivial
  · refine follows_after (fun name field => ?_)
    exact follows_call shown
      (show LibOp.Terminated (.insert name _) from zero_not_mem_field free field) trivial

theorem follows_addToCollection (free : serverCmd.NulFree) (shown : state.Shows table gallery) :
    Follows (Shows table) (state.addToCollection serverCmd) (gallery.addToCollection serverCmd) := by
  refine follows_after (fun colName source => follows_after (fun wall target => ?_))
  dsimp only
  rcases getCacheMut_cases shown (.ofString colName) with
    ⟨cache, items, looked, found, kept, directory⟩ | ⟨⟨error, looked⟩, none_⟩
  · rw [looked, show gallery.items colName = some items from found]
    have after := (shown.withFlags kept directory).withPath (parentPath wall)
    have performed := follows_call after (show LibOp.Terminated
      (.insertItem colName (filename wall) (crc32 (parentPath wall))) from
      ⟨zero_not_mem_field free source, Manager.zero_not_mem_filename (zero_not_mem_field free target)⟩) trivial
    have present : cache.existsCache colName = true := by
      obtain ⟨_, there, _⟩ := CacheLib.contents_eq_some_iff.mp ((congrFun kept.2 colName).trans found)
      exact (cache.existsCache_iff colName).mpr there.listed
    have inserted : cache.insertItem colName (filename wall) (crc32 (parentPath wall)) =
        (cache.updateAt colName (·.insert (filename wall) (crc32 (parentPath wall))), .ok true) := by
      rw [CacheLib.insertItem, if_pos present]
    dsimp only [CacheLib.perform] at performed
    rw [inserted] at performed
    exact performed
  · rw [looked, show gallery.items colName = none from none_]
    exact ⟨shown, rfl⟩

theorem follows_removeCollection (free : serverCmd.NulFree) (shown : state.Shows table gallery) :
    Follows (Shows table) (state.removeCollection serverCmd) (gallery.removeCollection serverCmd) := by
  refine follows_after (fun wallOnly _ => follows_after (fun col field => ?_))
  split
  · rcases getCacheMut_cases shown (.ofString col) with
      ⟨cache, items, looked, found, kept, directory⟩ | ⟨⟨error, looked⟩, none_⟩
    · rw [looked, show gallery.items col = some items from found]
      exact follows_after (fun _ _ => ⟨shown.withFlags kept directory, rfl⟩)
    · rw [looked, show gallery.items col = none from none_]
      exact ⟨shown, rfl⟩
  · exact follows_call shown
      (show LibOp.Terminated (.remove _) from terminated_ofString (zero_not_mem_field free field)) trivial

theorem follows_listCollection (shown : state.Shows table gallery) :
    Follows (Shows table) (state.listCollection serverCmd) (gallery.listCollection serverCmd) := by
  refine follows_after (fun colOnly _ => ?_)
  split
  · rcases getCurrentMut_cases shown with ⟨cache, items, looked, found, kept⟩ | ⟨looked, none_⟩
    · rw [looked, found]
      exact ⟨kept, rfl⟩
    · rw [looked, none_]
      exact rfl
  · refine ⟨shown, congrArg Listing.names ?_⟩
    rw [← shown.same]
    rfl

theorem follows_mergeCollection (free : serverCmd.NulFree) (shown : state.Shows table gallery) :
    Follows (Shows table) (state.mergeCollection serverCmd) (gallery.mergeCollection serverCmd) :=
  follows_after (fun _ source => follows_after (fun _ target => follows_call shown
    (show LibOp.Terminated (.mergeCache _ _) from ⟨terminated_ofString (zero_not_mem_field free source),
      terminated_ofString (zero_not_mem_field free target)⟩) trivial))

theorem follows_moveCollectoion (free : serverCmd.NulFree) (shown : state.Shows table gallery) :
    Follows (Shows table) (state.moveCollectoion serverCmd) (gallery.moveCollectoion serverCmd) :=
  follows_after (fun _ source => follows_after (fun _ target => follows_after (fun _ item =>
    follows_call shown (show LibOp.Terminated (.moveCacheItem _ _ _) from
      ⟨terminated_ofString (zero_not_mem_field free source), terminated_ofString (zero_not_mem_field free target),
        terminated_ofString (zero_not_mem_field free item)⟩) trivial)))

/-- The operations on states answer what those on their galleries answer. -/
theorem api_follows (table : PathTable) : api.Follows (Shows table) Json.NulFree Gallery.api where
  getNextWallpaper env _ _ shown := follows_getNextWallpaper env shown
  getPreviousWallpaper shown := follows_getPreviousWallpaper shown
  markFavorate shown := follows_markFavorate shown
  changeActive free shown := follows_changeActive free shown
  createCollection env _ _ _ free shown := follows_createCollection env free shown
  addToCollection free shown := follows_addToCollection free shown
  renameCollection free shown := follows_renameCollection free shown
  removeCollection free shown := follows_removeCollection free shown
  listCollection _ shown := follows_listCollection shown
  mergeCollection free shown := follows_mergeCollection free shown
  moveCollectoion free shown := follows_moveCollectoion free shown

end State

/-! ### The service on its gallery -/

instance (serverCmd : Json) : Decidable serverCmd.NulFree :=
  inferInstanceAs (Decidable (∀ key ∈ _, ∀ text ∈ _, _))

instance (cbor : Cbor) (msg : Message) : Decidable (ChangeServer.Allowed Json.NulFree cbor msg) :=
  match decoded : MessageHelper.msgToJson cbor msg with
  | .error _ => isTrue (fun _ same => nomatch decoded.symm.trans same)
  | .ok serverCmd => decidable_of_iff serverCmd.NulFree
      ⟨fun free _ same => Except.ok.inj (decoded.symm.trans same) ▸ free, fun free => free serverCmd decoded⟩

namespace Service

variable {cbor : Cbor}

instance decidableAllowed (service : Service State) :
    (op : ServiceOp) → Decidable (Allowed Json.NulFree cbor service op)
  | .connect _ _ | .ask _ _ | .act _ _ _ => isTrue trivial
  | .update _ => inferInstanceAs (Decidable (∀ entry ∈ service.incomming.take 1,
      ChangeServer.Allowed Json.NulFree cbor entry.2))

/-- The service with what its clients can tell of the state in place of the state. -/
def gallery (service : Service State) : Service Gallery where
  server := { service.server with state := service.server.state.gallery }
  talks := service.talks
  incomming := service.incomming

theorem gallery_of_related {table : PathTable} {service : Service State} {other : Service Gallery}
    (related : Related (State.Shows table) service other) : service.gallery = other := by
  obtain ⟨⟨shown, connections, startTime⟩, talks, incomming⟩ := related
  obtain ⟨⟨_, _, _⟩, _, _⟩ := other
  simp only [gallery, shown.same, connections, startTime, talks, incomming]

/-- In whatever order connects, requests, handlers of the sockets and turns of the loop come,
the service over its library does what the one over the gallery does: it gets through the same
runs, its clients are sent the same, and what is left of the state is what is left there. -/
theorem serves_gallery {service : Service State} (distinct : service.server.state.cache.NamesDistinct)
    {ops : List ServiceOp} (free : Along (step State.api cbor) (Allowed Json.NulFree cbor) service ops) :
    (run (step State.api cbor) service ops).map gallery = run (step Gallery.api cbor) service.gallery ops := by
  have start : Related (State.Shows service.server.state.pathBuf) service service.gallery :=
    ⟨⟨⟨distinct, rfl, fun _ => rfl⟩, rfl, rfl⟩, rfl, rfl⟩
  have both := related_run (State.api_follows _) start free
  generalize run (step State.api cbor) service ops = reached at both ⊢
  generalize run (step Gallery.api cbor) service.gallery ops = wanted at both ⊢
  cases both with
  | none => rfl
  | some related => exact congrArg some (gallery_of_related related)

/-- The part of the CBOR conversions that making and listing a collection uses. -/
def collectionCbor : Cbor where
  fromCbor body :=
    if body = [1] then .ok (.object [("col_empty", .boolean true), ("new_col_name", .string (ascii "a"))])
    else if body = [2] then .ok (.object [("col_only", .boolean true)])
    else .error .parseError
  toCbor _ := [0]

/-- A client makes the collection `a` and lists the names. -/
def createAndList : List ServiceOp :=
  [.connect 7 0,
    .ask 0 (Message.finalize { header := { id := MessageType.createCollection.code }, body := [1] } 0),
    .ask 0 (Message.finalize { header := { id := MessageType.listCollections.code }, body := [2] } 0),
    .act 0 .client .handle, .act 0 .client .handle, .act 0 .client .written, .act 0 .client .written,
    .act 0 .client .written, .act 0 .client .written, .act 0 .server .received, .act 0 .server .received,
    .update {}, .act 0 .server .received, .act 0 .server .received, .update {}, .act 0 .server .handle]

theorem serves_gallery_createAndList : ∃ final,
    run (step State.api collectionCbor) { server := { state := {} } } createAndList = some final ∧
      some final.gallery = run (step Gallery.api collectionCbor)
        (gallery { server := { state := {} } }) createAndList := by
  have through : (run (step State.api collectionCbor) { server := { state := {} } } createAndList).isSome = true := by
    decide +kernel
  obtain ⟨final, reached⟩ := Option.isSome_iff_exists.mp through
  have distinct : CacheLib.NamesDistinct {} := List.nodup_nil
  have same := @serves_gallery collectionCbor { server := { state := {} } } distinct createAndList
    (by decide +kernel)
  rw [reached] at same
  exact ⟨final, reached, same⟩

end Service

end Wallchanger
