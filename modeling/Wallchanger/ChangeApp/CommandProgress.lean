import Wallchanger.ChangeApp.Invocations

/-! What can end the command line program before it stores: of the files it has stored itself
and of all commands on them, only what the file system answers to its queries. -/

namespace Wallchanger

open Foundation

/-- A collection can be made of no path, and of one at which nothing or a directory stands,
as long as no query throws; anything else cannot be iterated over. -/
def Creatable (world : World) (path : Bytes) : Prop :=
  path = [] ∨ (world.existsThrows path = false ∧ ∀ node, world.node path = some node →
    node.isDirectory = true ∧ world.iterationThrows path = false)

/-- What a call asks of the file system is answered. -/
def Manager.GetsThrough (world : World) (manager : Manager) : AppCall → Prop
  | .createCollection _ path => Creatable world path
  | .validateCollection collection =>
    ∀ path ∈ manager.wallpaperPaths { chars := collection }, world.existsThrows path = false
  | _ => True

/-- A program that starts on the files knows all directories. -/
def Disk.Whole (disk : Disk) : Prop :=
  ∃ state, Manager.start disk = .ok state ∧ Installation.Integrity { manager := state, disk }

theorem Disk.whole_empty : Disk.Whole {} := ⟨{}, rfl, Installation.integrity_empty⟩

namespace Manager
variable {manager : Manager} {disk : Disk} {world : World}

private theorem createCollection_defined_iff (name path : Bytes) :
    (∃ outcome, manager.request world (.createCollection name path) = some outcome) ↔ Creatable world path := by
  have returns : (∃ outcome, manager.request world (.createCollection name path) = some outcome) ↔
      world.creationThrows path = false ∧
        ∃ result, manager.createCollection name path (world.node path) false = some result := by
    simp only [request_createCollection_eq_some]
    constructor
    · rintro ⟨_, answered, result, created, _⟩
      exact ⟨answered, result, created⟩
    · rintro ⟨answered, result, created⟩
      exact ⟨_, answered, result, created, rfl⟩
  rw [returns]
  unfold createCollection Creatable World.creationThrows World.existsAt
  by_cases empty : path = []
  · simp [empty]
  · rw [if_neg (by simpa using empty)]
    cases there : world.node path with
    | none => simp [empty]
    | some node =>
      simp only [Option.map_some, empty, false_or, Option.some.injEq, forall_eq', Option.isSome_some,
        List.isEmpty_eq_false_iff.mpr empty, Bool.not_false, Bool.true_and, Bool.or_eq_false_iff]
      unfold Node.isDirectory
      cases node.resolve with
      | directory entries => simp
      | file => simp
      | link target => simp

private theorem validateCollection_defined_iff (integrity : Installation.Integrity { manager, disk })
    (collection : Bytes) :
    (∃ outcome, manager.request world (.validateCollection collection) = some outcome) ↔
      ∀ path ∈ manager.wallpaperPaths { chars := collection }, world.existsThrows path = false := by
  simp only [request_validateCollection_eq_some]
  constructor
  · rintro ⟨_, answered, _⟩
    exact answered
  · intro answered
    have located : ∀ item, manager.cache.Holds item → (manager.pathBuf.get item.loc).isSome = true := by
      rintro item ⟨store, member, inside⟩
      exact (PathTable.get_isSome_iff _ _).mpr (integrity.memory store member item inside)
    obtain ⟨result, validated⟩ := Option.isSome_iff_exists.mp
      (Installation.validateCollection_isSome located { chars := collection } world.existsAt)
    exact ⟨_, answered, result, validated, rfl⟩

/-- Every call keeps the integrity of the installation. -/
theorem integrity_request (integrity : Installation.Integrity { manager, disk }) {request : AppCall}
    (performed : manager.request world request = some (next, answer)) :
    Installation.Integrity { manager := next, disk } := by
  cases request with
  | createCollection name path =>
    obtain ⟨_, result, created, outcome⟩ := request_createCollection_eq_some.mp performed
    obtain ⟨rfl, rfl⟩ := Prod.mk.inj outcome
    exact Installation.integrity_createCollection integrity created
  | changeActive name =>
    obtain ⟨rfl, rfl⟩ := Prod.mk.inj (Option.some.inj performed)
    exact Installation.integrity_libraryCall integrity (.changeActive { chars := name }) rfl nofun nofun
  | listCollection | getCache _ =>
    cases performed
    exact integrity
  | addToCollection collectionName wall =>
    obtain ⟨rfl, rfl⟩ := Prod.mk.inj (Option.some.inj performed)
    exact Installation.integrity_addToCollection integrity { chars := collectionName } wall
  | removeWallpaper collection wallpaperName =>
    obtain ⟨rfl, rfl⟩ := Prod.mk.inj (Option.some.inj performed)
    exact Installation.integrity_libraryCall integrity
      (.removeCacheItem { chars := collection } { chars := wallpaperName }) rfl nofun nofun
  | removeCollection collection =>
    obtain ⟨rfl, rfl⟩ := Prod.mk.inj (Option.some.inj performed)
    exact Installation.integrity_libraryCall integrity (.remove { chars := collection }) rfl nofun nofun
  | renameCollection fromName toName =>
    obtain ⟨rfl, rfl⟩ := Prod.mk.inj (Option.some.inj performed)
    exact Installation.integrity_libraryCall integrity
      (.renameStore { chars := fromName } { chars := toName }) rfl nofun nofun
  | mergeCollection collection1 collection2 =>
    obtain ⟨managed, merged, outcome⟩ := Option.map_eq_some_iff.mp performed
    obtain ⟨result, library, rfl⟩ := Option.map_eq_some_iff.mp merged
    obtain ⟨rfl, rfl⟩ := Prod.mk.inj outcome
    exact Installation.integrity_libraryCall integrity
      (.mergeCache { chars := collection1 } { chars := collection2 }) library nofun nofun
  | moveWallpaper origin dest wallName =>
    obtain ⟨managed, moved, outcome⟩ := Option.map_eq_some_iff.mp performed
    obtain ⟨result, library, rfl⟩ := Option.map_eq_some_iff.mp moved
    obtain ⟨rfl, rfl⟩ := Prod.mk.inj outcome
    exact Installation.integrity_libraryCall integrity
      (.moveCacheItem { chars := origin } { chars := dest } { chars := wallName }) library nofun nofun
  | validateCollection collection =>
    obtain ⟨_, result, validated, outcome⟩ := request_validateCollection_eq_some.mp performed
    obtain ⟨rfl, rfl⟩ := Prod.mk.inj outcome
    unfold validateCollection at validated
    split at validated
    · rename_i present
      obtain ⟨cache, found⟩ := CacheLib.collection_of_mem ((manager.cache.existsCache_iff _).mp present)
      rw [CacheLib.getCacheMut_of_collection { chars := collection } found] at validated
      obtain ⟨_, _, validated⟩ := Option.bind_eq_some_iff.mp validated
      cases validated
      have wider : manager.cache.LocsIn (keys manager.pathBuf.mStore) := integrity.memory
      exact Installation.integrity_call integrity ((CacheLib.everywhere_updateAt_iff wider).mpr
        (fun cache found => wider _ found.mem))
    · cases validated
      exact integrity

/-- A call has an outcome exactly if the file system answers its queries. -/
theorem request_defined_iff (integrity : Installation.Integrity { manager, disk }) {request : AppCall}
    (free : request.NulFree) :
    (∃ outcome, manager.request world request = some outcome) ↔ manager.GetsThrough world request := by
  cases request with
  | createCollection name path => exact createCollection_defined_iff name path
  | changeActive _ | listCollection | getCache _ | addToCollection _ _ | removeWallpaper _ _
  | removeCollection _ | renameCollection _ _ => exact ⟨fun _ => trivial, fun _ => ⟨_, rfl⟩⟩
  | mergeCollection collection1 collection2 =>
    refine ⟨fun _ => trivial, fun _ => ?_⟩
    obtain ⟨result, merged⟩ :=
      manager.cache.mergeCache_defined { chars := collection1 } { chars := collection2 }
    exact ⟨_, by rw [Manager.request, mergeCollection, merged]; rfl⟩
  | moveWallpaper origin dest wallName =>
    refine ⟨fun _ => trivial, fun _ => ?_⟩
    have terminated : StringView.Terminated { chars := wallName } := ⟨free.2.2, .inl rfl⟩
    obtain ⟨next, result, moved⟩ :=
      manager.cache.moveCacheItem_defined { chars := origin } { chars := dest } terminated
    exact ⟨_, by rw [Manager.request, moveWallpaper, moved]; rfl⟩
  | validateCollection collection => exact validateCollection_defined_iff integrity collection

end Manager

namespace Application
variable {disk : Disk}

/-- The commands have an outcome exactly if, as far as they get, the file system answers the
queries of each. -/
theorem commands_defined_iff {state : Manager} (integrity : Installation.Integrity { manager := state, disk })
    {invocation : Invocation} (free : ∀ request ∈ invocation.requests, request.NulFree) :
    (∃ outcome, commands state invocation = some outcome) ↔
      Reaches Answer.goesOn (Manager.request invocation.world) (Manager.GetsThrough invocation.world) state
        invocation.requests := by
  have exact_ : ∀ (manager : Manager) (request : AppCall), Installation.Integrity { manager, disk } →
      request.NulFree → ((∃ outcome, manager.request invocation.world request = some outcome) ↔
        manager.GetsThrough invocation.world request) :=
    fun _ _ integrity free => Manager.request_defined_iff integrity free
  have keeps : ∀ (manager : Manager) (request : AppCall) next answer,
      Installation.Integrity { manager, disk } → request.NulFree →
        manager.request invocation.world request = some (next, answer) →
        Installation.Integrity { manager := next, disk } :=
    fun _ _ _ _ integrity _ taken => Manager.integrity_request integrity taken
  exact answered_defined_iff exact_ keeps integrity free

/-- A completed invocation leaves files on which the next one knows all directories again. -/
theorem whole_run {after : Disk} (whole : disk.Whole) {invocation : Invocation}
    (sound : invocation.outputs.Sound) (completed : run disk invocation = some (after, answers)) :
    after.Whole := by
  obtain ⟨state, begun, integrity⟩ := whole
  simp only [run, begun] at completed
  obtain ⟨⟨manager, given⟩, performed, completed⟩ := Option.bind_eq_some_iff.mp completed
  obtain ⟨⟨stored, ending⟩, saved, completed⟩ := Option.bind_eq_some_iff.mp completed
  have keeps : ∀ (manager : Manager) (request : AppCall) next answer,
      Installation.Integrity { manager, disk } → True →
        manager.request invocation.world request = some (next, answer) →
        Installation.Integrity { manager := next, disk } :=
    fun _ _ _ _ whole _ taken => Manager.integrity_request whole taken
  have still := answered_keeps keeps integrity (fun _ _ => trivial) performed
  cases ending with
  | completed =>
    cases completed
    obtain ⟨history, pathTable, libraries⟩ := Manager.store_completed sound.1 sound.2 saved []
    have final := Installation.integrity_store still []
    obtain ⟨next, restarted, again⟩ := Installation.integrity_started final
    have files : after = { history := manager.storedHistory disk.history
                           pathTable := manager.storedPathTable disk.pathTable
                           libraries := manager.storedLibraries [] disk.libraries } := by
      rw [← history, ← pathTable, ← libraries]
    change Installation.started { history := manager.storedHistory disk.history
                                  pathTable := manager.storedPathTable disk.pathTable
                                  libraries := manager.storedLibraries [] disk.libraries } = _ at restarted
    rw [← files] at restarted
    unfold Installation.started at restarted
    split at restarted
    · rename_i fresh freshly
      cases restarted
      exact ⟨fresh, freshly, again⟩
    · cases restarted
  | threw => cases completed
  | terminated => cases completed

/-- After any number of completed invocations, starting without files, the files can be read
and the commands of the next invocation have an outcome exactly if, as far as they get, the
file system answers their queries: no collection is made of something that is no directory,
and no query for its path, in it or for a wallpaper that is validated throws. -/
theorem next_invocation_gets_through {invocations : List Invocation}
    (sound : ∀ invocation ∈ invocations, invocation.outputs.Sound)
    (completed : answered always run {} invocations = some (disk, answers)) (invocation : Invocation)
    (free : ∀ request ∈ invocation.requests, request.NulFree) :
    ∃ state, Manager.start disk = .ok state ∧
      ((∃ outcome, commands state invocation = some outcome) ↔
        Reaches Answer.goesOn (Manager.request invocation.world) (Manager.GetsThrough invocation.world) state
          invocation.requests) := by
  have keeps : ∀ (disk : Disk) (invocation : Invocation) after answers, disk.Whole →
      invocation.outputs.Sound → run disk invocation = some (after, answers) → after.Whole :=
    fun _ _ _ _ whole sound taken => whole_run whole sound taken
  obtain ⟨state, begun, integrity⟩ := answered_keeps keeps Disk.whole_empty sound completed
  exact ⟨state, begun, commands_defined_iff integrity free⟩

/-- `/w/x.png` is there, but its directory cannot be searched any more. -/
def locked : World := { oneFile with existsThrows := fun path => path = ascii "/w/x.png" }

/-- After two invocations, one that validates a collection with that file. -/
theorem next_invocation_gets_through_locked : ∃ disk answers,
    answered always run {} createThenRename = some (disk, answers) ∧
      ∃ state, Manager.start disk = .ok state ∧
        ((∃ outcome, commands state { command := some (.collection { validate := ascii "b" }), world := locked } =
            some outcome) ↔
          Reaches Answer.goesOn (Manager.request locked) (Manager.GetsThrough locked) state
            [.validateCollection (ascii "b")]) :=
  ⟨_, _, rfl, next_invocation_gets_through (fun _ member => (createThenRename_regular _ member).sound) rfl _
    (by decide)⟩

end Application

end Wallchanger
