import Wallchanger.ChangeLib.OperationSpec
import Wallchanger.ChangeService.Survival

/-! Requests that only ask. `m_process` handles `Get_Current` by the call that draws the next
wallpaper: it answers with another one and adds it to the history. -/

namespace Wallchanger

open Foundation Net

def MessageType.isQuery : MessageType → Bool
  | .getCurrent | .listCollections | .serverGetStatus | .serverGetPing => true
  | _ => false

/-- A request of a kind that only asks, with what the server meets outside while it
handles it. -/
structure Query where
  env : Environment
  msg : Message
  kind : MessageType
  coded : MessageType.ofCode msg.header.id = some kind
  asks : kind.isQuery = true

/-- The item states, the collections, the active one, the directories and the history, so
all but the flags. -/
structure State.SameData (next state : State) : Prop where
  cache : next.cache.SameData state.cache
  pathBuf : next.pathBuf = state.pathBuf
  previous : next.previous = state.previous

/-- A server, with the record that `Get_Next_Wallpaper` was answered with last. -/
structure Serving where
  server : ChangeServer State
  lastServed : Option Json := none

namespace ChangeServer

/-- The record that a message is answered with if it is a `Get_Next_Wallpaper`. -/
def servedRecord (server : ChangeServer State) (env : Environment) (msg : Message) : Option Json :=
  if MessageType.ofCode msg.header.id = some .getNextWallpaper then
    (server.state.getNextWallpaper env).toOption.map Prod.snd
  else none

end ChangeServer

namespace Serving

variable (cbor : Cbor)

/-- `m_process` on any message, `none` where it does not return. -/
def handle (serving : Serving) (incoming : Environment × Message) : Option Serving :=
  (ChangeServer.process State.api cbor incoming.1 serving.server incoming.2).toOption.map (fun result =>
    { server := result.1
      lastServed := (serving.server.servedRecord incoming.1 incoming.2).or serving.lastServed })

def ask (serving : Serving) (query : Query) : Option Serving := serving.handle cbor (query.env, query.msg)

/-- A `Get_Current` is answered with the given record. -/
def CurrentIs (record : Json) (serving : Serving) (query : Query) : Prop :=
  query.kind = .getCurrent → ∀ next sent,
    ChangeServer.process State.api cbor query.env serving.server query.msg = .ok (next, sent) →
      sent = [MessageHelper.jsonToMsg cbor .getCurrent record query.env.now]

/-- The queries leave the data of the state as it is, and every `Get_Current` among them is
answered with one record, which is the one served last if one was. -/
structure ReadOnly (serving : Serving) (queries : List Query) : Prop where
  unchanged : Throughout (ask cbor) (fun reached => reached.server.state.SameData serving.server.state)
    serving queries
  current : ∃ record, (∀ served, serving.lastServed = some served → record = served) ∧
    Meets (ask cbor) (CurrentIs cbor record) serving queries

/-- A `List_Collections` for the items of the current collection finds its flag set. -/
def ListsFlagged (serving : Serving) (query : Query) : Prop :=
  query.kind = .listCollections → ∀ serverCmd store,
    MessageHelper.msgToJson cbor query.msg = .ok serverCmd → serverCmd.Has "col_only" (.boolean false) →
      serving.server.state.cache.cacheVec[serving.server.state.cache.current.toNat]? = some store →
        store.2.modified = true

end Serving

/-! ### One call -/

namespace State

theorem SameData.refl (state : State) : state.SameData state := ⟨.refl state.cache, rfl, rfl⟩

theorem SameData.symm {state next : State} (same : next.SameData state) : state.SameData next where
  cache := ⟨same.cache.1.symm, same.cache.2.1.symm, same.cache.2.2.symm⟩
  pathBuf := same.pathBuf.symm
  previous := same.previous.symm

theorem SameData.trans {state next last : State} (later : last.SameData next) (first : next.SameData state) :
    last.SameData state where
  cache := later.cache.trans first.cache
  pathBuf := later.pathBuf.trans first.pathBuf
  previous := later.previous.trans first.previous

/-- Every wallpaper that is served is added to the history. -/
theorem previous_getNextWallpaper {env : Environment} {state next : State} {send : Json}
    (served : state.getNextWallpaper env = .ok (next, send)) : next.previous = state.previous ++ [send] := by
  unfold getNextWallpaper at served
  dsimp only at served
  split at served
  · cases served
  · split at served
    · split at served
      · obtain ⟨ret, _, served⟩ := bind_eq_ok.mp served
        split at served
        · cases served
          rfl
        · cases served
      · cases served
      · cases served
    · cases served

/-- A listing of names changes nothing; one of items takes a mutable iterator. -/
theorem listCollection_cases {state next : State} {serverCmd : Json} {listing : Listing}
    (listed : state.listCollection serverCmd = .ok (next, listing)) :
    (serverCmd.Has "col_only" (.boolean true) ∧ next = state) ∨
    ∃ store, serverCmd.Has "col_only" (.boolean false) ∧
      state.cache.cacheVec[state.cache.current.toNat]? = some store ∧
      next = { state with cache := { state.cache with
        cacheVec := state.cache.cacheVec.modify state.cache.current.toNat (Prod.map id Cache.begin) } } := by
  obtain ⟨colOnly, flag, listed⟩ := bind_eq_ok.mp listed
  have named := field_boolean_iff.mp flag
  cases colOnly with
  | true =>
    cases listed
    exact .inl ⟨named, rfl⟩
  | false =>
    obtain ⟨result, current, listed⟩ := bind_eq_ok.mp listed
    obtain ⟨store, there, same⟩ := Option.map_eq_some_iff.mp (unchecked_eq_ok.mp current)
    subst same
    cases listed
    exact .inr ⟨store, named, there, rfl⟩

theorem sameData_listCollection {state next : State} {serverCmd : Json} {listing : Listing}
    (listed : state.listCollection serverCmd = .ok (next, listing)) : next.SameData state := by
  rcases listCollection_cases listed with ⟨_, same⟩ | ⟨store, _, _, same⟩
  · exact same ▸ .refl state
  · subst same
    exact ⟨state.cache.sameData_modify _ (fun _ => rfl), rfl, rfl⟩

/-- A listing leaves the state as it was exactly if the flag it would set is set. -/
theorem listCollection_eq_iff {state next : State} {serverCmd : Json} {listing : Listing}
    (listed : state.listCollection serverCmd = .ok (next, listing)) :
    next = state ↔ ∀ store, serverCmd.Has "col_only" (.boolean false) →
      state.cache.cacheVec[state.cache.current.toNat]? = some store → store.2.modified = true := by
  rcases listCollection_cases listed with ⟨named, same⟩ | ⟨store, named, there, same⟩
  · refine iff_of_true same (fun store items _ => ?_)
    cases named.symm.trans items
  · rw [same]
    constructor
    · intro kept other _ there'
      cases there.symm.trans there'
      exact (CacheLib.modify_begin_eq_iff there).mp (congrArg State.cache kept)
    · intro flagged
      have kept := (CacheLib.modify_begin_eq_iff there).mpr (flagged store named there)
      exact congrArg (fun cache => { state with cache }) kept

end State

namespace Serving

variable {cbor : Cbor}

/-- What a query does to the state, by its kind. -/
theorem ask_cases {serving next : Serving} {query : Query} (asked : serving.ask cbor query = some next) :
    (query.kind = .getCurrent ∧ ∃ send,
      serving.server.state.getNextWallpaper query.env = .ok (next.server.state, send)) ∨
    (query.kind = .listCollections ∧ ∃ serverCmd listing,
      MessageHelper.msgToJson cbor query.msg = .ok serverCmd ∧
      serving.server.state.listCollection serverCmd = .ok (next.server.state, listing)) ∨
    (query.kind ≠ .getCurrent ∧ query.kind ≠ .listCollections ∧
      next.server.state = serving.server.state) := by
  obtain ⟨result, processed, rfl⟩ := Option.map_eq_some_iff.mp asked
  have returned := toOption_eq_some.mp processed
  obtain ⟨env, msg, kind, coded, asks⟩ := query
  dsimp only at returned
  unfold ChangeServer.process at returned
  cases decoded : MessageHelper.msgToJson cbor msg with
  | error thrown =>
    rw [decoded] at returned
    cases returned
  | ok serverCmd =>
    rw [decoded, coded] at returned
    cases kind with
    | getCurrent =>
      obtain ⟨⟨state, cur⟩, served, returned⟩ := bind_eq_ok.mp returned
      cases returned
      exact .inl ⟨rfl, cur, served⟩
    | listCollections =>
      obtain ⟨⟨state, listing⟩, listed, returned⟩ := bind_eq_ok.mp returned
      cases returned
      exact .inr (.inl ⟨rfl, serverCmd, listing, rfl, listed⟩)
    | serverGetStatus | serverGetPing =>
      cases returned
      exact .inr (.inr ⟨(nomatch ·), (nomatch ·), rfl⟩)
    | _ => cases asks

/-- A query leaves the data as it is exactly if it is no `Get_Current`. -/
theorem sameData_ask_iff {serving next : Serving} {query : Query}
    (asked : serving.ask cbor query = some next) :
    next.server.state.SameData serving.server.state ↔ query.kind ≠ .getCurrent := by
  rcases ask_cases asked with ⟨current, send, served⟩ | ⟨kind, _, _, _, listed⟩ | ⟨other, _, same⟩
  · refine iff_of_false (fun kept => ?_) (fun other => other current)
    have longer := State.previous_getNextWallpaper served
    rw [kept.previous] at longer
    exact List.cons_ne_nil send [] (List.self_eq_append_right.mp longer)
  · refine iff_of_true (State.sameData_listCollection listed) (fun current => ?_)
    cases current.symm.trans kind
  · exact iff_of_true (same ▸ .refl _) other

/-- It leaves all of the state as it is exactly if it sets no flag either. -/
theorem ask_eq_iff {serving next : Serving} {query : Query} (asked : serving.ask cbor query = some next) :
    next.server.state = serving.server.state ↔
      query.kind ≠ .getCurrent ∧ ListsFlagged cbor serving query := by
  have data := sameData_ask_iff asked
  rcases ask_cases asked with ⟨current, _⟩ | ⟨kind, serverCmd, listing, decoded, listed⟩ | ⟨other, unlisted, same⟩
  · refine iff_of_false (fun same => ?_) (fun both => both.1 current)
    exact data.mp (same ▸ .refl _) current
  · rw [State.listCollection_eq_iff listed]
    constructor
    · intro flagged
      refine ⟨data.mp (State.sameData_listCollection listed), fun _ other store decoded' => ?_⟩
      cases decoded.symm.trans decoded'
      exact flagged store
    · intro ⟨_, flagged⟩ store
      exact flagged kind serverCmd store decoded
  · exact iff_of_true same ⟨other, fun kind => absurd kind unlisted⟩

/-! ### Queries in a row -/

/-- Queries leave the data of the state as it is, with the last record served as the current
one, exactly if no `Get_Current` among them is answered; they leave the flags too exactly if
the listings of items find theirs set. -/
theorem queries_readOnly_iff (cbor : Cbor) (serving : Serving) (queries : List Query) :
    (ReadOnly cbor serving queries ↔
      Meets (ask cbor) (fun _ query => query.kind ≠ .getCurrent) serving queries) ∧
    (Throughout (ask cbor) (fun reached => reached.server.state = serving.server.state) serving queries ↔
      Meets (ask cbor) (fun reached query => query.kind ≠ .getCurrent ∧ ListsFlagged cbor reached query)
        serving queries) := by
  have data : Throughout (ask cbor) (fun reached => reached.server.state.SameData serving.server.state)
      serving queries ↔ Meets (ask cbor) (fun _ query => query.kind ≠ .getCurrent) serving queries := by
    refine throughout_iff_of_exact (fun state query next here asked => ?_) (.refl serving.server.state)
    rw [← sameData_ask_iff asked]
    exact ⟨fun kept => kept.trans here.symm, fun kept => kept.trans here⟩
  refine ⟨⟨fun readOnly => data.mp readOnly.unchanged, fun others => ⟨data.mpr others, ?_⟩⟩, ?_⟩
  · refine ⟨serving.lastServed.getD .null, fun served last => ?_, ?_⟩
    · rw [last]
      rfl
    · exact others.imp (fun _ _ other current => absurd current other)
  · refine throughout_iff_of_exact (fun state query next here asked => ?_) rfl
    rw [← here]
    exact ask_eq_iff asked

/-- The CBOR of a short string or a number below 24. -/
def shortCbor : Json → Bytes
  | .string text => UInt8.ofNat (0x60 + text.length) :: text
  | .number value => [UInt8.ofNat value.toNat]
  | _ => [0xf6]

/-- The part of the CBOR conversions that records need. -/
def recordCbor : Cbor where
  fromCbor := ChangeServer.flagCbor.fromCbor
  toCbor
    | .object fields => UInt8.ofNat (0xa0 + fields.length) ::
        fields.flatMap (fun (key, value) => shortCbor (.string (ascii key)) ++ shortCbor value)
    | other => shortCbor other

/-- A server with one collection of three wallpapers, all unused. -/
def threeWallpapers : ChangeServer State where
  state :=
    { cache := {
        cacheVec := [(ascii "nature",
          { list := [⟨ascii "a", .unused, 0⟩, ⟨ascii "b", .unused, 0⟩, ⟨ascii "c", .unused, 0⟩] })]
        activeName := ascii "nature" }
      pathBuf := { mStore := [(0, ascii "/wall")] } }

/-- A message of a kind, over the CBOR of `true`. -/
def requestOf (type : MessageType) : Message :=
  Message.finalize { header := { id := type.code }, body := [0xf5] } 0

/-- A `Get_Current` under a draw. -/
def currentQuery (draw : Int) : Query where
  env := { draws := [draw] }
  msg := requestOf .getCurrent
  kind := .getCurrent
  coded := MessageType.ofCode_code .getCurrent
  asks := rfl

/-- The record of a wallpaper of the collection. -/
def natureRecord (idx : Nat) (wallpaper : String) : Json :=
  Manager.wallRecord (ascii "nature") idx (ascii "/wall") (ascii wallpaper)

/-- After `b` was served, `Get_Current` is answered with `c`, and both are in the history. -/
theorem current_serves_next : ∃ serving next,
    run (handle recordCbor) { server := threeWallpapers } [({ draws := [1] }, requestOf .getNextWallpaper)] =
      some serving ∧
    serving.lastServed = some (natureRecord 1 "b") ∧
    ChangeServer.process State.api recordCbor (currentQuery 2).env serving.server (currentQuery 2).msg =
      .ok (next, [MessageHelper.jsonToMsg recordCbor .getCurrent (natureRecord 2 "c") 0]) ∧
    MessageHelper.jsonToMsg recordCbor .getCurrent (natureRecord 2 "c") 0 ≠
      MessageHelper.jsonToMsg recordCbor .getCurrent (natureRecord 1 "b") 0 ∧
    next.state.previous = [natureRecord 1 "b", natureRecord 2 "c"] ∧
    ¬ ReadOnly recordCbor serving [currentQuery 2] := by
  refine ⟨_, _, rfl, rfl, rfl, fun same => ?_, rfl, fun readOnly => ?_⟩
  · have bodies : recordCbor.toCbor (natureRecord 2 "c") = recordCbor.toCbor (natureRecord 1 "b") :=
      congrArg Message.body same
    exact absurd bodies (by decide)
  · have kept := (readOnly.unchanged.2 _ rfl).first
    exact (@sameData_ask_iff recordCbor _ _ (currentQuery 2) rfl).mp kept rfl

end Serving

end Wallchanger
