import Wallchanger.ChangeService.ChangeServer
import Wallchanger.ChangeService.FrontEnds

/-! Which messages the loop in `update` gets through: the body of every message that is
not corrupt is decoded, and the operations behind the kinds check nothing. -/

namespace Wallchanger

open Foundation Net

/-! ### Calls that return -/

def Returns (outcome : Outcome α) : Prop := ∃ value, outcome = .ok value

@[simp] theorem returns_pure (value : α) : Returns (pure value) := ⟨value, rfl⟩

@[simp] theorem returns_ok (value : α) : Returns (.ok value) := ⟨value, rfl⟩

@[simp] theorem not_returns_error (fault : Fault) : ¬ Returns (.error fault : Outcome α) :=
  fun ⟨_, absurdity⟩ => nomatch absurdity

theorem returns_bind {outcome : Outcome α} {continuation : α → Outcome β} :
    Returns (outcome >>= continuation) ↔ ∃ value, outcome = .ok value ∧ Returns (continuation value) := by
  constructor
  · intro ⟨result, returned⟩
    obtain ⟨value, here, later⟩ := bind_eq_ok.mp returned
    exact ⟨value, here, result, later⟩
  · intro ⟨value, here, result, later⟩
    exact ⟨result, bind_eq_ok.mpr ⟨value, here, later⟩⟩

@[simp] theorem unchecked_eq_ok {option : Option α} {value : α} :
    unchecked option = .ok value ↔ option = some value := by
  cases option with
  | none => simp [unchecked]
  | some other => simp [unchecked]

/-! ### When the operations return -/

/-- A command with a string under a key. -/
def Json.HasString (serverCmd : Json) (key : String) : Prop := ∃ text, serverCmd.Has key (.string text)

/-- The draws pass used items up to an unused one. -/
def DrawsTo (items : List (CacheItem Bytes)) (draws : List Int) (chosen : CacheItem Bytes) : Prop :=
  ∃ skipped draw later, draws = skipped ++ draw :: later ∧
    (∀ other ∈ skipped, ∃ item, items[castSize other]? = some item ∧ item.cacheState ≠ .unused) ∧
    items[castSize draw]? = some chosen ∧ chosen.cacheState = .unused

theorem drawsTo_iff {items : List (CacheItem Bytes)} {draws : List Int} {chosen : CacheItem Bytes} :
    DrawsTo items draws chosen ↔
      ∃ idx, redraw (pick items) draws = some (.taken idx) ∧ items[idx]? = some chosen := by
  constructor
  · intro ⟨skipped, draw, later, same, others, found, unused⟩
    refine ⟨castSize draw, redraw_eq_some_iff.mpr ⟨skipped, draw, later, same, ?_, ?_⟩, found⟩
    · intro other member
      exact pick_none_iff.mpr (others other member)
    · exact pick_taken_iff.mpr ⟨rfl, chosen, found, unused⟩
  · intro ⟨idx, drawn, found⟩
    obtain ⟨skipped, draw, later, same, others, picked⟩ := redraw_eq_some_iff.mp drawn
    obtain ⟨place, item, there, unused⟩ := pick_taken_iff.mp picked
    cases found.symm.trans there
    subst place
    refine ⟨skipped, draw, later, same, ?_, found, unused⟩
    intro other member
    exact pick_none_iff.mp (others other member)

namespace State

/-- The active collection exists, the draws end at an unused item of it and its path is known. -/
def HasNext (env : Environment) (state : State) : Prop :=
  ∃ cache item path, state.cache.Collection state.cache.activeName cache ∧
    (wallDistribution cache.list.length).Valid ∧ DrawsTo cache.list env.draws item ∧
    state.pathBuf.get item.loc = some path

/-- The wallpaper of the last record is in the collection at the current index. -/
def HasCurrent (state : State) : Prop :=
  ∃ cur store wallpaper, state.previous.getLast? = some cur ∧
    state.cache.cacheVec[state.cache.current.toNat]? = some store ∧
    cur.subscriptMut "wallpaper" = .ok (.string wallpaper) ∧ wallpaper ∈ store.2.values

/-- What `move_cache_item` moves it also finds: the text up to a NUL and the whole text are
values of the collection. -/
def Movable (state : State) (colFrm colTo wall : Bytes) : Prop :=
  colFrm ≠ colTo → colTo ≠ wall → colTo ∈ state.cache.names → ∀ cache, state.cache.Collection colFrm cache →
    (StringView.ofString wall).data ∈ cache.values → wall ∈ cache.values

theorem getNextWallpaper_returns {env : Environment} {state : State} :
    Returns (state.getNextWallpaper env) ↔ state.HasNext env := by
  unfold getNextWallpaper HasNext
  dsimp only
  by_cases listed : state.cache.activeName ∈ state.cache.names
  · obtain ⟨cache, found⟩ := CacheLib.collection_of_mem listed
    have looked := CacheLib.getCacheMut_of_collection ⟨state.cache.activeCacheName, []⟩ found
    rw [looked]
    dsimp only
    constructor
    · intro returned
      split at returned
      · rename_i valid
        split at returned
        · rename_i idx drawn
          obtain ⟨item, there, returned⟩ := returns_bind.mp returned
          split at returned
          · rename_i path known
            have chosen := drawsTo_iff.mpr ⟨idx, drawn, unchecked_eq_ok.mp there⟩
            exact ⟨cache, item, path, found, valid, chosen, known⟩
          · exact absurd returned (not_returns_error _)
        · exact absurd returned (not_returns_error _)
        · exact absurd returned (not_returns_error _)
      · exact absurd returned (not_returns_error _)
    · intro ⟨cache', item, path, found', valid, drawsTo, known⟩
      cases found.unique found'
      obtain ⟨idx, drawn, there⟩ := drawsTo_iff.mp drawsTo
      rw [if_pos valid, drawn]
      refine returns_bind.mpr ⟨item, unchecked_eq_ok.mpr there, ?_⟩
      rw [known]
      exact returns_pure _
  · have looked := CacheLib.getCacheMut_of_not_mem ⟨state.cache.activeCacheName, []⟩ listed
    rw [looked]
    constructor
    · intro returned
      exact absurd returned (not_returns_error _)
    · intro ⟨cache, _, _, found, _⟩
      exact absurd found.listed listed

theorem markFavorate_returns {state : State} : Returns state.markFavorate ↔ state.HasCurrent := by
  unfold markFavorate HasCurrent
  simp only [returns_bind, unchecked_eq_ok, noThrow_eq_ok, bind_eq_ok, fromJson_string]
  constructor
  · intro ⟨cur, last, ⟨cache, items⟩, current, wallpaper, ⟨value, named, same⟩, item, found, _⟩
    obtain ⟨store, there, same'⟩ := Option.map_eq_some_iff.mp current
    cases same'
    rw [same] at named
    have value := List.find?_some found
    refine ⟨cur, store, wallpaper, last, there, named, ?_⟩
    exact List.mem_map.mpr ⟨item, List.mem_of_find?_eq_some found, of_decide_eq_true value⟩
  · intro ⟨cur, store, wallpaper, last, there, named, listed⟩
    obtain ⟨item, member, value⟩ := List.mem_map.mp listed
    have some_ : (store.2.list.find? (fun item => item.cacheValue = wallpaper)).isSome = true :=
      List.find?_isSome.mpr ⟨item, member, decide_eq_true value⟩
    obtain ⟨first, found⟩ := Option.isSome_iff_exists.mp some_
    exact ⟨cur, last, _, Option.map_eq_some_iff.mpr ⟨store, there, rfl⟩, wallpaper, ⟨_, named, rfl⟩,
      first, found, returns_pure _⟩

theorem changeActive_returns {state : State} {serverCmd : Json} :
    Returns (state.changeActive serverCmd) ↔ serverCmd.HasString "new_active_name" := by
  unfold changeActive
  simp only [returns_bind, field_string_iff, returns_pure, and_true]
  exact Iff.rfl

theorem renameCollection_returns {state : State} {serverCmd : Json} :
    Returns (state.renameCollection serverCmd) ↔
      serverCmd.HasString "col_name" ∧ serverCmd.HasString "col_name_new" := by
  unfold renameCollection
  simp only [returns_bind, field_string_iff, returns_pure, and_true]
  exact exists_and_right

/-- Iterating returns over directories. -/
theorem iterate_eq_ok {env : Environment} {path : Bytes} {recursive : Bool} :
    Returns (iterate env path recursive) ↔
      ∃ entries, (env.found path).map Node.resolve = some (.directory entries) := by
  unfold iterate
  split
  · rename_i entries there
    exact ⟨fun _ => ⟨entries, there⟩, fun _ => returns_ok _⟩
  · rename_i other
    constructor
    · intro returned
      exact absurd returned (not_returns_error _)
    · intro ⟨entries, there⟩
      exact absurd there (other entries)

theorem createCollection_returns {env : Environment} {state : State} {serverCmd : Json} :
    Returns (state.createCollection env serverCmd) ↔ serverCmd.HasString "new_col_name" ∧
      ∃ colEmpty, serverCmd.Has "col_empty" (.boolean colEmpty) ∧ (colEmpty = false →
        ∃ colPath recursive entries, serverCmd.Has "col_path" (.string colPath) ∧
          serverCmd.Has "recursive" (.boolean recursive) ∧
          (env.found colPath).map Node.resolve = some (.directory entries)) := by
  unfold createCollection
  simp only [returns_bind, field_boolean_iff]
  constructor
  · intro ⟨colEmpty, flag, returned⟩
    cases colEmpty with
    | true =>
      obtain ⟨name, named, _⟩ := returns_bind.mp returned
      refine ⟨⟨name, field_string_iff.mp named⟩, true, flag, fun impossible => ?_⟩
      cases impossible
    | false =>
      obtain ⟨colPath, path, returned⟩ := returns_bind.mp returned
      obtain ⟨recursive, deep, returned⟩ := returns_bind.mp returned
      obtain ⟨listing, listed, returned⟩ := returns_bind.mp returned
      obtain ⟨name, named, _⟩ := returns_bind.mp returned
      obtain ⟨entries, there⟩ := iterate_eq_ok.mp ⟨listing, listed⟩
      exact ⟨⟨name, field_string_iff.mp named⟩, false, flag, fun _ =>
        ⟨colPath, recursive, entries, field_string_iff.mp path, field_boolean_iff.mp deep, there⟩⟩
  · intro ⟨⟨name, named⟩, colEmpty, flag, given⟩
    refine ⟨colEmpty, flag, ?_⟩
    cases colEmpty with
    | true => exact returns_bind.mpr ⟨name, field_string_iff.mpr named, returns_pure _⟩
    | false =>
      obtain ⟨colPath, recursive, entries, path, deep, there⟩ := given rfl
      obtain ⟨listing, listed⟩ := iterate_eq_ok.mpr ⟨entries, there⟩
      refine returns_bind.mpr ⟨colPath, field_string_iff.mpr path, ?_⟩
      refine returns_bind.mpr ⟨recursive, field_boolean_iff.mpr deep, ?_⟩
      refine returns_bind.mpr ⟨listing, listed, ?_⟩
      exact returns_bind.mpr ⟨name, field_string_iff.mpr named, returns_pure _⟩

theorem addToCollection_returns {state : State} {serverCmd : Json} :
    Returns (state.addToCollection serverCmd) ↔
      serverCmd.HasString "col_name" ∧ serverCmd.HasString "wall" := by
  unfold addToCollection
  simp only [returns_bind, field_string_iff]
  constructor
  · intro ⟨colName, named, wall, given, _⟩
    exact ⟨⟨colName, named⟩, wall, given⟩
  · intro ⟨⟨colName, named⟩, wall, given⟩
    refine ⟨colName, named, wall, given, ?_⟩
    split
    · exact returns_pure _
    · exact returns_pure _

theorem listCollection_returns {state : State} {serverCmd : Json} :
    Returns (state.listCollection serverCmd) ↔ ∃ colOnly, serverCmd.Has "col_only" (.boolean colOnly) ∧
      (colOnly = false → state.cache.current.toNat < state.cache.cacheVec.length) := by
  unfold listCollection
  simp only [returns_bind, field_boolean_iff]
  refine exists_congr (fun colOnly => and_congr_right (fun _ => ?_))
  cases colOnly with
  | true =>
    refine ⟨fun _ impossible => ?_, fun _ => returns_pure _⟩
    cases impossible
  | false =>
    constructor
    · intro returned _
      obtain ⟨⟨cache, items⟩, current, _⟩ := returns_bind.mp returned
      obtain ⟨store, there, _⟩ := Option.map_eq_some_iff.mp (unchecked_eq_ok.mp current)
      exact (List.getElem?_eq_some_iff.mp there).1
    · intro inside
      have there := List.getElem?_eq_getElem (inside rfl)
      refine returns_bind.mpr ⟨_, unchecked_eq_ok.mpr (Option.map_eq_some_iff.mpr ⟨_, there, rfl⟩), ?_⟩
      exact returns_pure _

theorem mergeCollection_returns {state : State} {serverCmd : Json} :
    Returns (state.mergeCollection serverCmd) ↔ serverCmd.HasString "col1" ∧ serverCmd.HasString "col2" := by
  unfold mergeCollection
  simp only [returns_bind, field_string_iff, unchecked_eq_ok, returns_pure, and_true,
    CacheLib.mergeCache_defined]
  exact exists_and_right

theorem moveCollectoion_returns {state : State} {serverCmd : Json} :
    Returns (state.moveCollectoion serverCmd) ↔ ∃ colFrm colTo wall,
      serverCmd.Has "col_cur" (.string colFrm) ∧ serverCmd.Has "col_new" (.string colTo) ∧
        serverCmd.Has "wall" (.string wall) ∧ state.Movable colFrm colTo wall := by
  unfold moveCollectoion
  simp only [returns_bind, field_string_iff, unchecked_eq_ok, returns_pure, and_true,
    CacheLib.moveCacheItem_defined_iff]
  constructor
  · intro ⟨colFrm, source, colTo, dest, wall, item, movable⟩
    exact ⟨colFrm, colTo, wall, source, dest, item, movable⟩
  · intro ⟨colFrm, colTo, wall, source, dest, item, movable⟩
    exact ⟨colFrm, source, colTo, dest, wall, item, movable⟩

theorem removeCollection_returns {state : State} {serverCmd : Json} :
    Returns (state.removeCollection serverCmd) ↔ ∃ wallOnly col,
      serverCmd.Has "wall_only" (.boolean wallOnly) ∧ serverCmd.Has "col" (.string col) ∧
        (wallOnly = true → col ∈ state.cache.names → serverCmd.HasString "wall") := by
  unfold removeCollection
  simp only [returns_bind, field_boolean_iff, field_string_iff]
  constructor
  · intro ⟨wallOnly, only, col, given, returned⟩
    refine ⟨wallOnly, col, only, given, fun same listed => ?_⟩
    obtain ⟨cache, found⟩ := CacheLib.collection_of_mem listed
    have looked := CacheLib.getCacheMut_of_collection (.ofString col) found
    rw [if_pos same, looked] at returned
    obtain ⟨wall, named, _⟩ := returns_bind.mp returned
    exact ⟨wall, field_string_iff.mp named⟩
  · intro ⟨wallOnly, col, only, given, named⟩
    refine ⟨wallOnly, only, col, given, ?_⟩
    split
    · rename_i same
      by_cases listed : col ∈ state.cache.names
      · obtain ⟨cache, found⟩ := CacheLib.collection_of_mem listed
        obtain ⟨wall, named⟩ := named same listed
        rw [CacheLib.getCacheMut_of_collection (.ofString col) found]
        exact returns_bind.mpr ⟨wall, field_string_iff.mpr named, returns_pure _⟩
      · rw [CacheLib.getCacheMut_of_not_mem (.ofString col) listed]
        exact returns_pure _
    · exact returns_pure _

/-- What the operation behind a kind of message needs of the command, the state and the
outside. -/
def Serves (env : Environment) (state : State) (serverCmd : Json) : MessageType → Prop
  | .getNextWallpaper | .getCurrent => state.HasNext env
  | .markFavorate => state.HasCurrent
  | .changeActiveCollection => serverCmd.HasString "new_active_name"
  | .createCollection => serverCmd.HasString "new_col_name" ∧
      ∃ colEmpty, serverCmd.Has "col_empty" (.boolean colEmpty) ∧ (colEmpty = false →
        ∃ colPath recursive entries, serverCmd.Has "col_path" (.string colPath) ∧
          serverCmd.Has "recursive" (.boolean recursive) ∧
          (env.found colPath).map Node.resolve = some (.directory entries))
  | .addToCollection => serverCmd.HasString "col_name" ∧ serverCmd.HasString "wall"
  | .renameCollection => serverCmd.HasString "col_name" ∧ serverCmd.HasString "col_name_new"
  | .remove => ∃ wallOnly col,
      serverCmd.Has "wall_only" (.boolean wallOnly) ∧ serverCmd.Has "col" (.string col) ∧
        (wallOnly = true → col ∈ state.cache.names → serverCmd.HasString "wall")
  | .listCollections => ∃ colOnly, serverCmd.Has "col_only" (.boolean colOnly) ∧
      (colOnly = false → state.cache.current.toNat < state.cache.cacheVec.length)
  | .mergeCollection => serverCmd.HasString "col1" ∧ serverCmd.HasString "col2"
  | .move => ∃ colFrm colTo wall,
      serverCmd.Has "col_cur" (.string colFrm) ∧ serverCmd.Has "col_new" (.string colTo) ∧
        serverCmd.Has "wall" (.string wall) ∧ state.Movable colFrm colTo wall
  | .getPreviousWallpaper | .serverGetStatus | .serverGetPing | .clientAccepted | .clientAssignID
  | .clientRegisterWithServer | .clientUnregisterWithServer | .statusSuccess | .statusFailure => True

end State

/-! ### Messages that the server gets through -/

namespace ChangeServer

variable {cbor : Cbor}

/-- A message the server gets through: a corrupt one, or one with a body that decodes to
what the operation behind its kind needs. -/
def Harmless (cbor : Cbor) (server : ChangeServer State) (incoming : Environment × Message) : Prop :=
  incoming.2.validate = false ∨ ∃ serverCmd, MessageHelper.msgToJson cbor incoming.2 = .ok serverCmd ∧
    ∀ type, MessageType.ofCode incoming.2.header.id = some type →
      server.state.Serves incoming.1 serverCmd type

/-- A message that is corrupt or whose body is not a CBOR value. -/
def Rejected (cbor : Cbor) (msg : Message) : Prop :=
  msg.validate = false ∨ ∃ thrown, MessageHelper.msgToJson cbor msg = .error thrown

/-- `update` over a queue of messages returns, and a message it has to reject leaves the
server as it was. -/
def Survives (cbor : Cbor) (server : ChangeServer State) (incomming : List (Environment × Message)) : Prop :=
  (∃ final, run (step State.api cbor) server incomming = some final) ∧
    Meets (step State.api cbor) (fun server incoming => Rejected cbor incoming.2 →
      ∀ next, step State.api cbor server incoming = some next → next = server) server incomming

/-- An operation followed by a reply. -/
theorem replied_returns {outcome : Outcome α} {reply : α → β} :
    Returns (outcome >>= fun result => pure (reply result)) ↔ Returns outcome := by
  rw [returns_bind]
  constructor
  · intro ⟨result, here, _⟩
    exact ⟨result, here⟩
  · intro ⟨result, here⟩
    exact ⟨result, here, returns_pure _⟩

theorem reported_returns {server : ChangeServer State} {now : UInt64} {outcome : Outcome (State × Bool)} :
    Returns (server.reported now outcome) ↔ Returns outcome := replied_returns

/-- What `m_process` needs of a message that decodes. -/
theorem process_returns {env : Environment} {server : ChangeServer State} {msg : Message} {serverCmd : Json}
    (decoded : MessageHelper.msgToJson cbor msg = .ok serverCmd) :
    Returns (process State.api cbor env server msg) ↔
      ∀ type, MessageType.ofCode msg.header.id = some type → server.state.Serves env serverCmd type := by
  unfold process
  rw [decoded]
  cases kind : MessageType.ofCode msg.header.id with
  | none => exact ⟨fun _ _ absurdity => (nomatch absurdity), fun _ => returns_ok _⟩
  | some type =>
    simp only [Option.some.injEq, forall_eq']
    cases type with
    | getNextWallpaper | getCurrent => exact replied_returns.trans State.getNextWallpaper_returns
    | getPreviousWallpaper => exact ⟨fun _ => trivial, fun _ => returns_pure _⟩
    | markFavorate => exact replied_returns.trans State.markFavorate_returns
    | changeActiveCollection => exact reported_returns.trans State.changeActive_returns
    | createCollection => exact reported_returns.trans State.createCollection_returns
    | addToCollection => exact reported_returns.trans State.addToCollection_returns
    | renameCollection => exact reported_returns.trans State.renameCollection_returns
    | remove => exact reported_returns.trans State.removeCollection_returns
    | listCollections => exact replied_returns.trans State.listCollection_returns
    | mergeCollection => exact reported_returns.trans State.mergeCollection_returns
    | move => exact reported_returns.trans State.moveCollectoion_returns
    | serverGetStatus | serverGetPing | clientAccepted | clientAssignID | clientRegisterWithServer
    | clientUnregisterWithServer | statusSuccess | statusFailure =>
      exact ⟨fun _ => trivial, fun _ => returns_ok _⟩

/-- `on_message` returns exactly from harmless messages. -/
theorem step_defined_iff (server : ChangeServer State) (incoming : Environment × Message) :
    (∃ next, step State.api cbor server incoming = some next) ↔ Harmless cbor server incoming := by
  have defined : (∃ next, step State.api cbor server incoming = some next) ↔
      Returns (onMessage State.api cbor incoming.1 server incoming.2) := by
    constructor
    · intro ⟨next, taken⟩
      obtain ⟨sent, returned⟩ := step_eq_some.mp taken
      exact ⟨_, returned⟩
    · intro ⟨⟨next, sent⟩, returned⟩
      exact ⟨next, step_eq_some.mpr ⟨sent, returned⟩⟩
  rw [defined, onMessage]
  unfold Harmless
  cases valid : incoming.2.validate with
  | false => exact ⟨fun _ => .inl rfl, fun _ => returns_ok _⟩
  | true =>
    cases decoded : MessageHelper.msgToJson cbor incoming.2 with
    | error thrown =>
      rw [if_pos rfl, process, decoded]
      constructor
      · intro returned
        exact absurd returned (not_returns_error _)
      · intro harmless
        rcases harmless with corrupt | ⟨serverCmd, other, _⟩
        · cases corrupt
        · cases other
    | ok serverCmd =>
      rw [if_pos rfl, process_returns decoded]
      constructor
      · intro serves
        exact .inr ⟨serverCmd, rfl, serves⟩
      · intro harmless
        rcases harmless with corrupt | ⟨other, same, serves⟩
        · cases corrupt
        · cases same
          exact serves

/-- A message that has to be rejected changes nothing where the server gets through it. -/
theorem rejected_unchanged {server next : ChangeServer State} {incoming : Environment × Message}
    (rejected : Rejected cbor incoming.2) (taken : step State.api cbor server incoming = some next) :
    next = server := by
  obtain ⟨sent, returned⟩ := step_eq_some.mp taken
  rw [onMessage] at returned
  cases valid : incoming.2.validate with
  | false =>
    rw [valid] at returned
    cases returned
    rfl
  | true =>
    rcases rejected with corrupt | ⟨thrown, undecoded⟩
    · cases valid.symm.trans corrupt
    · rw [valid, if_pos rfl, process, undecoded] at returned
      cases returned

/-- The part of the CBOR conversions for booleans. -/
def flagCbor : Cbor where
  fromCbor
    | [0xf4] => .ok (.boolean false)
    | [0xf5] => .ok (.boolean true)
    | _ => .error .parseError
  toCbor
    | .boolean true => [0xf5]
    | _ => [0xf4]

end ChangeServer

end Wallchanger
