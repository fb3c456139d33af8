import Wallchanger.ChangeService.ChangeState

/-! The two front ends of the library: the manager behind the command line, with its
arguments as strings, and the state behind the service, with the same strings in a command. -/

namespace Wallchanger

open Foundation

/-- An operation both front ends offer, with its arguments. -/
inductive FrontOp where
  | changeActive (name : Bytes)
  | renameCollection (fromName toName : Bytes)
  | mergeCollection (col1 col2 : Bytes)
  | move (originCollection destCollection wallName : Bytes)
  | removeCollection (collection : Bytes)
  | removeWallpaper (collection wallpaperName : Bytes)

/-- A command with some value under a key. -/
def Json.Has (serverCmd : Json) (key : String) (value : Json) : Prop := serverCmd.subscript key = .ok value

namespace FrontOp

/-- The command that asks the service for the operation. -/
def WellFormed (serverCmd : Json) : FrontOp → Prop
  | .changeActive name => serverCmd.Has "new_active_name" (.string name)
  | .renameCollection fromName toName =>
    serverCmd.Has "col_name" (.string fromName) ∧ serverCmd.Has "col_name_new" (.string toName)
  | .mergeCollection col1 col2 => serverCmd.Has "col1" (.string col1) ∧ serverCmd.Has "col2" (.string col2)
  | .move originCollection destCollection wallName =>
    serverCmd.Has "col_cur" (.string originCollection) ∧ serverCmd.Has "col_new" (.string destCollection) ∧
      serverCmd.Has "wall" (.string wallName)
  | .removeCollection collection =>
    serverCmd.Has "wall_only" (.boolean false) ∧ serverCmd.Has "col" (.string collection)
  | .removeWallpaper collection wallpaperName =>
    serverCmd.Has "wall_only" (.boolean true) ∧ serverCmd.Has "col" (.string collection) ∧
      serverCmd.Has "wall" (.string wallpaperName)

end FrontOp

/-- The library an operation leaves and its answer, `none` where it does not return. -/
def Manager.execute (manager : Manager) (op : FrontOp) : Option (CacheLib × Bool) :=
  let outcome := match op with
    | .changeActive name => some (manager.changeActive (.ofString name))
    | .renameCollection fromName toName =>
      some (manager.renameCollection (.ofString fromName) (.ofString toName))
    | .mergeCollection col1 col2 => manager.mergeCollection (.ofString col1) (.ofString col2)
    | .move originCollection destCollection wallName =>
      manager.moveWallpaper (.ofString originCollection) (.ofString destCollection) (.ofString wallName)
    | .removeCollection collection => some (manager.removeCollection (.ofString collection))
    | .removeWallpaper collection wallpaperName =>
      some (manager.removeWallpaper (.ofString collection) (.ofString wallpaperName))
  outcome.map (fun result => (result.1.cache, result.2))

def State.execute (state : State) (serverCmd : Json) (op : FrontOp) : Option (CacheLib × Bool) :=
  let outcome := match op with
    | .changeActive _ => state.changeActive serverCmd
    | .renameCollection _ _ => state.renameCollection serverCmd
    | .mergeCollection _ _ => state.mergeCollection serverCmd
    | .move _ _ _ => state.moveCollectoion serverCmd
    | .removeCollection _ | .removeWallpaper _ _ => state.removeCollection serverCmd
  outcome.toOption.map (fun result => (result.1.cache, result.2))

/-- After a successful removal the wallpaper is no longer in the collection. -/
def RemovesWallpaper (op : FrontOp) (outcome : CacheLib × Bool) : Prop :=
  ∀ collection wallpaperName cache, op = .removeWallpaper collection wallpaperName →
    outcome.2 = true → outcome.1.Collection collection cache → cache.contains wallpaperName = false

/-- Both front ends return, give the same answer and leave the same library. -/
def FrontEndsAgree (manager : Manager) (state : State) (serverCmd : Json) (op : FrontOp) : Prop :=
  ∃ outcome, manager.execute op = some outcome ∧ state.execute serverCmd op = some outcome ∧
    RemovesWallpaper op outcome

/-- The removal of a wallpaper from a collection that exists. -/
def RemovesFromListed (lib : CacheLib) (op : FrontOp) : Prop :=
  ∃ collection wallpaperName, op = .removeWallpaper collection wallpaperName ∧ collection ∈ lib.names

/-- The move of a wallpaper that is found by what its name holds before a NUL, and not by
the whole name: the iterator that is dereferenced is the end. -/
def MovesPastEnd (lib : CacheLib) (op : FrontOp) : Prop :=
  ∃ originCollection destCollection wallName cache,
    op = .move originCollection destCollection wallName ∧ originCollection ≠ destCollection ∧
      destCollection ≠ wallName ∧ destCollection ∈ lib.names ∧ lib.Collection originCollection cache ∧
      wallName.takeWhile (· ≠ 0) ∈ cache.values ∧ wallName ∉ cache.values

/-! ### What a command holds -/

theorem noThrow_eq_ok {computation : Except JsonError α} {value : α} :
    noThrow computation = .ok value ↔ computation = .ok value := by
  cases computation with
  | error thrown => exact ⟨(nomatch ·), (nomatch ·)⟩
  | ok other => simp [noThrow]

theorem fromJson_string {json : Json} {text : Bytes} : fromJson json = .ok text ↔ json = .string text := by
  cases json with
  | string other =>
    change Except.ok other = Except.ok text ↔ _
    simp
  | _ => exact ⟨(nomatch ·), (nomatch ·)⟩

theorem fromJson_boolean {json : Json} {value : Bool} :
    fromJson json = .ok value ↔ json = .boolean value := by
  cases json with
  | boolean other =>
    change Except.ok other = Except.ok value ↔ _
    simp
  | _ => exact ⟨(nomatch ·), (nomatch ·)⟩

theorem field_string_iff {serverCmd : Json} {key : String} {text : Bytes} :
    serverCmd.field Bytes key = .ok text ↔ serverCmd.Has key (.string text) := by
  simp [Json.field, noThrow_eq_ok, bind_eq_ok, fromJson_string, Json.Has]

theorem field_boolean_iff {serverCmd : Json} {key : String} {value : Bool} :
    serverCmd.field Bool key = .ok value ↔ serverCmd.Has key (.boolean value) := by
  simp [Json.field, noThrow_eq_ok, bind_eq_ok, fromJson_boolean, Json.Has]

/-! ### One operation -/

/-- The service answers a wallpaper removal by whether the collection exists. -/
theorem execute_removeWallpaper {state : State} {serverCmd : Json} {collection wallpaperName : Bytes}
    (formed : FrontOp.WellFormed serverCmd (.removeWallpaper collection wallpaperName)) :
    state.execute serverCmd (.removeWallpaper collection wallpaperName) =
      if collection ∈ state.cache.names then some (state.cache.updateAt collection Cache.data, true)
      else some (state.cache, false) := by
  have ⟨only, col, wall⟩ := formed
  by_cases listed : collection ∈ state.cache.names
  · obtain ⟨cache, found⟩ := CacheLib.collection_of_mem listed
    have looked := CacheLib.getCacheMut_of_collection (.ofString collection) found
    simp only [State.execute, State.removeCollection, field_boolean_iff.mpr only, field_string_iff.mpr col,
      field_string_iff.mpr wall, ok_bind, if_true, looked, if_pos listed]
    rfl
  · have looked := CacheLib.getCacheMut_of_not_mem (.ofString collection) listed
    simp only [State.execute, State.removeCollection, field_boolean_iff.mpr only, field_string_iff.mpr col,
      ok_bind, if_true, looked, if_neg listed]
    rfl

/-- The manager answers it by whether the wallpaper is there, and takes it out. -/
theorem execute_removeWallpaper_cases (manager : Manager) (collection wallpaperName : Bytes) :
    (∃ lib, manager.execute (.removeWallpaper collection wallpaperName) = some (lib, false) ∧
      (collection ∉ manager.cache.names → lib = manager.cache)) ∨
    ∃ cache, manager.cache.Collection collection cache ∧ wallpaperName ∈ cache.values ∧
      manager.execute (.removeWallpaper collection wallpaperName) =
        some (manager.cache.updateAt collection (·.erase (cache.findValue wallpaperName)), true) := by
  simp only [Manager.execute, Manager.removeWallpaper, Manager.withCache, Option.map_some]
  rcases manager.cache.removeCacheItem_cases (.ofString collection) (.ofString wallpaperName) with
    ⟨kept, error, failed⟩ | ⟨cache, found, ⟨_, outcome⟩ | ⟨inside, outcome⟩⟩
  · rw [kept, failed]
    exact .inl ⟨_, rfl, fun _ => rfl⟩
  · rw [outcome]
    exact .inl ⟨_, rfl, fun absent => absurd (CacheLib.Collection.listed found) absent⟩
  · rw [outcome]
    exact .inr ⟨cache, found, inside, rfl⟩

/-- The manager and the service agree on every other operation: both pass their strings
to the same library operation. -/
theorem execute_agree {manager : Manager} {state : State} {serverCmd : Json} {op : FrontOp}
    (same : state.cache = manager.cache) (formed : op.WellFormed serverCmd)
    (other : ¬ RemovesFromListed manager.cache op) : manager.execute op = state.execute serverCmd op := by
  cases op with
  | changeActive name =>
    simp only [Manager.execute, State.execute, State.changeActive, field_string_iff.mpr formed, ok_bind, same]
    rfl
  | renameCollection fromName toName =>
    simp only [Manager.execute, State.execute, State.renameCollection, field_string_iff.mpr formed.1,
      field_string_iff.mpr formed.2, ok_bind, same]
    rfl
  | mergeCollection col1 col2 =>
    simp only [Manager.execute, State.execute, State.mergeCollection, field_string_iff.mpr formed.1,
      field_string_iff.mpr formed.2, ok_bind, same, Manager.mergeCollection]
    cases manager.cache.mergeCache (.ofString col1) (.ofString col2) with
    | none => rfl
    | some merged => rfl
  | move originCollection destCollection wallName =>
    simp only [Manager.execute, State.execute, State.moveCollectoion, field_string_iff.mpr formed.1,
      field_string_iff.mpr formed.2.1, field_string_iff.mpr formed.2.2, ok_bind, same, Manager.moveWallpaper]
    cases manager.cache.moveCacheItem (.ofString originCollection) (.ofString destCollection)
      (.ofString wallName) with
    | none => rfl
    | some moved => rfl
  | removeCollection collection =>
    simp only [Manager.execute, State.execute, State.removeCollection, field_boolean_iff.mpr formed.1,
      field_string_iff.mpr formed.2, ok_bind, same]
    rfl
  | removeWallpaper collection wallpaperName =>
    have absent : collection ∉ manager.cache.names := fun listed => other ⟨_, _, rfl, listed⟩
    rw [execute_removeWallpaper formed, same, if_neg absent]
    rcases execute_removeWallpaper_cases manager collection wallpaperName with
      ⟨lib, outcome, kept⟩ | ⟨cache, found, _⟩
    · rw [outcome, kept absent]
    · exact absurd found.listed absent

/-- On a listed collection the answers differ, or the manager took an item out. -/
theorem execute_differ {manager : Manager} {state : State} {serverCmd : Json}
    {collection wallpaperName : Bytes} (same : state.cache = manager.cache)
    (formed : FrontOp.WellFormed serverCmd (.removeWallpaper collection wallpaperName))
    (listed : collection ∈ manager.cache.names) :
    manager.execute (.removeWallpaper collection wallpaperName) ≠
      state.execute serverCmd (.removeWallpaper collection wallpaperName) := by
  rw [execute_removeWallpaper formed, same, if_pos listed]
  rcases execute_removeWallpaper_cases manager collection wallpaperName with
    ⟨lib, outcome, _⟩ | ⟨cache, found, inside, outcome⟩
  · rw [outcome]
    intro equal
    cases (Prod.mk.inj (Option.some.inj equal)).2
  · rw [outcome]
    intro equal
    have libraries := (Prod.mk.inj (Option.some.inj equal)).1
    have erased := CacheLib.collection_updateAt found (·.erase (cache.findValue wallpaperName))
    rw [libraries] at erased
    have lists := congrArg (·.list.length) (erased.unique (CacheLib.collection_updateAt found Cache.data))
    obtain ⟨item, there, _⟩ := Cache.item_at_findValue inside
    have bound := (List.getElem?_eq_some_iff.mp there).1
    simp only [Cache.erase, Cache.data, Cache.begin, List.length_eraseIdx_of_lt bound] at lists
    omega

/-- The manager returns from a move exactly if `move_cache_item` does. -/
theorem execute_move_defined_iff (manager : Manager) (originCollection destCollection wallName : Bytes) :
    (∃ outcome, manager.execute (.move originCollection destCollection wallName) = some outcome) ↔
      ∃ moved, manager.cache.moveCacheItem (.ofString originCollection) (.ofString destCollection)
        (.ofString wallName) = some moved := by
  simp only [Manager.execute, Manager.moveWallpaper]
  cases manager.cache.moveCacheItem (.ofString originCollection) (.ofString destCollection)
    (.ofString wallName) with
  | none => exact ⟨nofun, nofun⟩
  | some moved => exact ⟨fun _ => ⟨_, rfl⟩, fun _ => ⟨_, rfl⟩⟩

/-- The manager returns from every operation but a move past the end of a collection. -/
theorem execute_defined_iff (manager : Manager) (op : FrontOp) :
    (∃ outcome, manager.execute op = some outcome) ↔ ¬ MovesPastEnd manager.cache op := by
  cases op with
  | changeActive _ | renameCollection _ _ | removeCollection _ | removeWallpaper _ _ =>
    exact ⟨fun _ ⟨_, _, _, _, other, _⟩ => (nomatch other), fun _ => ⟨_, rfl⟩⟩
  | mergeCollection col1 col2 =>
    refine ⟨fun _ ⟨_, _, _, _, other, _⟩ => (nomatch other), fun _ => ?_⟩
    obtain ⟨merged, outcome⟩ := manager.cache.mergeCache_defined (.ofString col1) (.ofString col2)
    exact ⟨_, by simp only [Manager.execute, Manager.mergeCollection, outcome]; rfl⟩
  | move originCollection destCollection wallName =>
    have before : StringView.data (.ofString wallName) = wallName.takeWhile (· ≠ 0) := by
      rw [StringView.data, StringView.ofString, List.append_nil]
    rw [execute_move_defined_iff, CacheLib.moveCacheItem_defined_iff, before]
    constructor
    · rintro defined ⟨_, _, _, cache, same, different, other, listed, found, contained, absent⟩
      cases same
      exact absent (defined different other listed cache found contained)
    · intro inside different other listed cache found contained
      by_contra absent
      exact inside ⟨_, _, _, cache, rfl, different, other, listed, found, contained, absent⟩

/-- The two front ends agree exactly on everything but the removal of a wallpaper from a
collection that exists, and the move past the end that neither returns from. -/
theorem front_ends_agree_iff {manager : Manager} {state : State} {serverCmd : Json} {op : FrontOp}
    (same : state.cache = manager.cache) (formed : op.WellFormed serverCmd) :
    FrontEndsAgree manager state serverCmd op ↔
      ¬ RemovesFromListed manager.cache op ∧ ¬ MovesPastEnd manager.cache op := by
  constructor
  · intro ⟨outcome, managed, served, _⟩
    refine ⟨?_, (execute_defined_iff manager op).mp ⟨outcome, managed⟩⟩
    rintro ⟨collection, wallpaperName, rfl, listed⟩
    exact execute_differ same formed listed (managed.trans served.symm)
  · intro ⟨other, inside⟩
    obtain ⟨outcome, managed⟩ := (execute_defined_iff manager op).mpr inside
    refine ⟨outcome, managed, (execute_agree same formed other).symm.trans managed, ?_⟩
    rintro collection wallpaperName cache rfl answer found
    have absent : collection ∉ manager.cache.names := fun listed => other ⟨_, _, rfl, listed⟩
    rcases execute_removeWallpaper_cases manager collection wallpaperName with
      ⟨_, failed, _⟩ | ⟨_, there, _⟩
    · cases Option.some.inj (managed.symm.trans failed)
      cases answer
    · exact absurd there.listed absent

/-- A library with one collection of one wallpaper. -/
def oneWallpaper : CacheLib :=
  { cacheVec := [(ascii "nature", { list := [⟨ascii "lake", .unused, 0⟩] })], activeName := ascii "nature" }

def removalCommand : Json :=
  .object [("col", .string (ascii "nature")), ("wall", .string (ascii "lake")), ("wall_only", .boolean true)]

/-- The service reports the removal of a wallpaper that it leaves where it is. -/
theorem service_keeps_wallpaper :
    FrontOp.WellFormed removalCommand (.removeWallpaper (ascii "nature") (ascii "lake")) ∧
      State.execute { cache := oneWallpaper } removalCommand (.removeWallpaper (ascii "nature") (ascii "lake")) =
        some (oneWallpaper.updateAt (ascii "nature") Cache.data, true) ∧
      ¬ FrontEndsAgree { cache := oneWallpaper } { cache := oneWallpaper } removalCommand
        (.removeWallpaper (ascii "nature") (ascii "lake")) := by
  have formed : FrontOp.WellFormed removalCommand (.removeWallpaper (ascii "nature") (ascii "lake")) :=
    ⟨rfl, rfl, rfl⟩
  refine ⟨formed, rfl, fun ⟨outcome, managed, served, _⟩ => ?_⟩
  exact execute_differ rfl formed (List.mem_singleton.mpr rfl) (managed.trans served.symm)

theorem front_ends_agree_rename :
    FrontEndsAgree { cache := oneWallpaper } { cache := oneWallpaper }
      (.object [("col_name", .string (ascii "nature")), ("col_name_new", .string (ascii "city"))])
      (.renameCollection (ascii "nature") (ascii "city")) := by
  have formed : FrontOp.WellFormed
      (.object [("col_name", .string (ascii "nature")), ("col_name_new", .string (ascii "city"))])
      (.renameCollection (ascii "nature") (ascii "city")) := ⟨rfl, rfl⟩
  refine (front_ends_agree_iff rfl formed).mpr ⟨?_, ?_⟩
  · intro ⟨_, _, removes, _⟩
    cases removes
  · intro ⟨_, _, _, _, moves, _⟩
    cases moves

end Wallchanger
