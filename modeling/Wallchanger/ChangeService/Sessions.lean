import Wallchanger.ChangeService.Gallery

/-! The command line program and the service over one data directory, one after the other: what
each finds there is what the ones before it have left. -/

namespace Wallchanger

open Foundation Net

/-- The data directory: the files of the command line program, of which the service has all but
the history, and the history of the service. -/
structure DataDirectory where
  disk : Disk := {}
  serviceHistory : File := none

namespace State

/-- `state(logger)`. -/
def start (disk : Disk) : Except JsonError State := do
  let cache ← CacheLib.load disk.libraries
  let pathBuf ← PathTable.load disk.pathTable
  return { cache, pathBuf }

/-- The state as a manager: both have the same members. -/
def manager (state : State) : Manager where
  cache := state.cache
  pathBuf := state.pathBuf
  previous := state.previous

/-- `store_state` does what `store` of the manager does, but for the file of the history; it is
`noexcept`, so that an exception ends the service. -/
def storeState (state : State) (out : Outputs) (files : DataDirectory) : Option (DataDirectory × Ending) :=
  (state.manager.store out { files.disk with history := files.serviceHistory }).map (fun (stored, ending) =>
    ({ disk := { stored with history := files.disk.history }, serviceHistory := stored.history },
      match ending with
      | .completed => .completed
      | .threw | .terminated => .terminated))

end State

/-- The service from its start to the end of its loop. -/
structure ServiceSession where
  startTime : UInt64 := 0
  ops : List ServiceOp
  outputs : Outputs := {}

/-- Either program, from its start to its end. -/
inductive Program where
  | invoke (invocation : Invocation)
  | serve (session : ServiceSession)

/-- What a program has given its users: the answers to the options, or what went over the
connections of the service. -/
inductive Display where
  | answers (answers : List Answer)
  | talks (talks : List Conversation)

namespace DataDirectory

/-- `main` of the service; `none` where an exception or undefined behaviour ends it before. -/
def serve (cbor : Cbor) (files : DataDirectory) (session : ServiceSession) : Option (DataDirectory × Display) :=
  match State.start files.disk with
  | .error _ => none
  | .ok state => do
    let server : ChangeServer State := { state, startTime := session.startTime }
    let final ← run (Service.step State.api cbor) { server } session.ops
    match ← final.server.state.storeState session.outputs files with
    | (stored, .completed) => some (stored, .talks final.talks)
    | _ => none

def turn (cbor : Cbor) (files : DataDirectory) : Program → Option (DataDirectory × Display)
  | .invoke invocation => (Application.run files.disk invocation).map (fun (disk, answers) =>
      ({ files with disk }, .answers answers))
  | .serve session => files.serve cbor session

end DataDirectory

namespace Catalogue

/-- A session over the catalogue, and the save at its end. -/
def serve (cbor : Cbor) (catalogue : Catalogue) (session : ServiceSession) : Catalogue × Display :=
  let server : ChangeServer Gallery := {
    state := { catalogue with previous := [] }, startTime := session.startTime }
  match run (Service.step Gallery.api cbor) { server } session.ops with
  | some final => (catalogue.stored final.server.state.toCatalogue, .talks final.talks)
  | none => (catalogue, .talks [])

def turn (cbor : Cbor) (catalogue : Catalogue) : Program → Catalogue × Display
  | .invoke invocation => Prod.map id .answers (catalogue.invoke invocation)
  | .serve session => catalogue.serve cbor session

end Catalogue

/-- The strings of an invocation, and of all commands a session handles, hold no NUL, and the
streams of the save work. -/
def Program.Regular (cbor : Cbor) (files : DataDirectory) : Program → Prop
  | .invoke invocation => invocation.Regular
  | .serve session => session.outputs.Sound ∧ ∀ state, State.start files.disk = .ok state →
      Along (Service.step State.api cbor) (Service.Allowed Json.NulFree cbor)
        { server := { state, startTime := session.startTime } } session.ops

instance (outputs : Outputs) : Decidable outputs.Sound := inferInstanceAs (Decidable (_ ∧ _))

instance (invocation : Invocation) : Decidable invocation.Regular :=
  decidable_of_iff ((∀ request ∈ invocation.requests, request.NulFree) ∧ invocation.outputs.Sound)
    ⟨fun ⟨free, sound⟩ => ⟨free, sound⟩, fun regular => ⟨regular.nulFree, regular.sound⟩⟩

instance (cbor : Cbor) (files : DataDirectory) : (program : Program) → Decidable (program.Regular cbor files)
  | .invoke invocation => inferInstanceAs (Decidable invocation.Regular)
  | .serve session =>
    have : Decidable (∀ state, State.start files.disk = .ok state →
        Along (Service.step State.api cbor) (Service.Allowed Json.NulFree cbor)
          { server := { state, startTime := session.startTime } } session.ops) :=
      match State.start files.disk with
      | .error _ => isTrue (fun _ same => nomatch same)
      | .ok state => decidable_of_iff (Along (Service.step State.api cbor) (Service.Allowed Json.NulFree cbor)
          { server := { state, startTime := session.startTime } } session.ops)
          ⟨fun allowed _ same => Except.ok.inj same ▸ allowed, fun all => all state rfl⟩
    inferInstanceAs (Decidable (_ ∧ _))

namespace DataDirectory

variable {cbor : Cbor} {files after : DataDirectory} {catalogue : Catalogue} {shown : Display}

/-- What a start of the service has read is what a start of the command line program reads. -/
theorem start_of_shows (seen : files.disk.Shows catalogue) {state : State}
    (started : State.start files.disk = .ok state) :
    Manager.start files.disk = .ok state.manager ∧ state.pathBuf.modified = false ∧
      state.manager.Shows state.pathBuf catalogue ∧ state.previous = [] := by
  obtain ⟨manager, begun, unmodified, shows⟩ := seen
  obtain ⟨cache, pathBuf, loadedLib, loadedTable, rfl⟩ := Manager.start_eq_ok.mp begun
  have same : state = { cache, pathBuf } := by
    rw [State.start, loadedLib, loadedTable] at started
    exact (Except.ok.inj started).symm
  subst same
  exact ⟨begun, unmodified, shows, rfl⟩

/-- A save of the service that completes is one of the manager that completes. -/
theorem storeState_completed {state : State} {out : Outputs}
    (stored : state.storeState out files = some (after, .completed)) : ∃ history disk,
      state.manager.store out { files.disk with history := files.serviceHistory } = some (disk, .completed) ∧
        after.disk = { disk with history } := by
  obtain ⟨⟨disk, ending⟩, saved, same⟩ := Option.map_eq_some_iff.mp stored
  obtain ⟨rfl, ended⟩ := Prod.mk.inj same
  cases ending with
  | completed => exact ⟨_, disk, saved, rfl⟩
  | threw | terminated => cases ended

/-- The service shows its clients the catalogue, and leaves files that show what is left of it. -/
theorem shows_serve (seen : files.disk.Shows catalogue) {session : ServiceSession}
    (regular : (Program.serve session).Regular cbor files)
    (completed : files.serve cbor session = some (after, shown)) :
    shown = (catalogue.serve cbor session).2 ∧ after.disk.Shows (catalogue.serve cbor session).1 := by
  obtain ⟨sound, allowed⟩ := regular
  unfold serve at completed
  split at completed
  · cases completed
  rename_i state started
  obtain ⟨begun, unmodified, before, previous⟩ := start_of_shows seen started
  obtain ⟨final, reached, completed⟩ := Option.bind_eq_some_iff.mp completed
  obtain ⟨⟨stored, ending⟩, saved, completed⟩ := Option.bind_eq_some_iff.mp completed
  have shows : state.Shows state.pathBuf { catalogue with previous := [] } := by
    refine ⟨before.library.1, ?_, fun _ => rfl⟩
    have directory := before.directory
    have items := before.library.2
    have paths := before.paths
    simp only [State.manager] at directory items paths
    simp only [State.gallery, directory, items, paths, previous]
  have related : Service.Related (State.Shows state.pathBuf)
      { server := { state, startTime := session.startTime } }
      { server := { state := { catalogue with previous := [] }, startTime := session.startTime } } :=
    ⟨⟨shows, rfl, rfl⟩, rfl, rfl⟩
  have both := Service.related_run (State.api_follows _) related (allowed state started)
  rw [reached] at both
  obtain ⟨wanted, reached', left⟩ := rel_some_left both
  have specified : catalogue.serve cbor session =
      (catalogue.stored wanted.server.state.toCatalogue, .talks wanted.talks) := by
    simp only [Catalogue.serve, reached']
  rw [specified]
  cases ending with
  | completed =>
    cases completed
    obtain ⟨history, disk, kept, same⟩ := storeState_completed saved
    obtain ⟨distinct, gallery, unsaved⟩ := left.server.state
    have manager : final.server.state.manager.Shows state.pathBuf wanted.server.state.toCatalogue := by
      rw [← gallery]
      exact ⟨⟨distinct, rfl⟩, rfl, rfl, unsaved⟩
    rw [same]
    exact ⟨congrArg Display.talks left.talks,
      @Manager.shows_stored _ _ _ { files.disk with history := files.serviceHistory } disk _ begun unmodified
        before manager _ sound kept⟩
  | threw => cases completed
  | terminated => cases completed

/-- Each program does to the files what it does to the catalogue. -/
theorem shows_turn (seen : files.disk.Shows catalogue) {program : Program} (regular : program.Regular cbor files)
    (completed : files.turn cbor program = some (after, shown)) :
    shown = (catalogue.turn cbor program).2 ∧ after.disk.Shows (catalogue.turn cbor program).1 := by
  cases program with
  | invoke invocation =>
    obtain ⟨⟨disk, answers⟩, ran, same⟩ := Option.map_eq_some_iff.mp completed
    obtain ⟨rfl, rfl⟩ := Prod.mk.inj same
    obtain ⟨given, kept⟩ := Application.shows_run seen regular ran
    exact ⟨congrArg Display.answers given, kept⟩
  | serve session => exact shows_serve seen regular completed

/-- From no files at all, however the command line program and the service take turns with the
data directory, each that completes shows its users what the catalogue shows, and the files
that are left show the catalogue that is left. -/
theorem programs_show_catalogue {programs : List Program} {given : List Display}
    (regular : Along (fun files program => (turn cbor files program).map Prod.fst) (Program.Regular cbor)
      {} programs)
    (completed : answered always (turn cbor) {} programs = some (files, given)) :
    given = (carriedOut always (Catalogue.turn cbor) {} programs).2 ∧
      files.disk.Shows (carriedOut always (Catalogue.turn cbor) {} programs).1 := by
  let Seen (files : DataDirectory) (catalogue : Catalogue) : Prop := files.disk.Shows catalogue
  have each : ∀ files catalogue program after shown, Seen files catalogue → program.Regular cbor files →
      turn cbor files program = some (after, shown) →
        shown = (catalogue.turn cbor program).2 ∧ Seen after (catalogue.turn cbor program).1 :=
    fun _ _ _ _ _ seen regular completed => shows_turn seen regular completed
  have begun : Seen {} {} := Disk.shows_empty
  change given = _ ∧ Seen files _
  exact answered_follows each begun regular completed

/-- The command line makes the collection `b`, a client of the service `a`, and the command line
lists both. -/
def makeAndList : List Program :=
  let create := some { head := ascii "b", rest := [ascii "/w"] }
  [.invoke { command := some (.collection { create }), world := Application.oneFile },
    .serve { ops := Service.createAndList },
    .invoke { command := some (.collection { list := some [] }), world := Application.oneFile }]

theorem programs_show_catalogue_makeAndList : ∃ files given,
    answered always (turn Service.collectionCbor) {} makeAndList = some (files, given) ∧
      given = (carriedOut always (Catalogue.turn Service.collectionCbor) {} makeAndList).2 ∧
      files.disk.Shows (carriedOut always (Catalogue.turn Service.collectionCbor) {} makeAndList).1 := by
  have through : (answered always (turn Service.collectionCbor) {} makeAndList).isSome = true := by
    decide +kernel
  obtain ⟨⟨files, given⟩, completed⟩ := Option.isSome_iff_exists.mp through
  exact ⟨files, given, completed, programs_show_catalogue (by decide +kernel) completed⟩

end DataDirectory

end Wallchanger
