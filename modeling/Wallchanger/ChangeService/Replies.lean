import Wallchanger.ChangeApp.ChangeClient
import Wallchanger.ChangeService.ChangeServer

/-! Requests and replies: what the server sends for each request of a client, whatever
the operations of the state report. -/

namespace Wallchanger

open Foundation Net

/-- The kinds of messages that ask the server for something. -/
def MessageType.isRequest : MessageType → Bool
  | .clientAccepted | .clientAssignID | .clientRegisterWithServer | .clientUnregisterWithServer
  | .statusSuccess | .statusFailure => false
  | _ => true

/-- The kinds of replies that end the wait of a client. -/
def MessageType.endsWait : MessageType → Bool
  | .serverGetStatus | .serverGetPing | .statusSuccess | .statusFailure | .getNextWallpaper
  | .getPreviousWallpaper | .getCurrent | .listCollections => true
  | _ => false

namespace StateApi

variable {σ : Type}

/-- The operation behind a kind of request reports that it failed, or gives nothing. -/
def Fails (api : StateApi σ) (env : Environment) (serverCmd : Json) (state : σ) : MessageType → Prop
  | .getNextWallpaper | .getCurrent =>
    ∃ next json, api.getNextWallpaper env state = .ok (next, json) ∧ json.isEmpty = true
  | .getPreviousWallpaper =>
    ∃ next json, api.getPreviousWallpaper state = .ok (next, json) ∧ json.isEmpty = true
  | .listCollections => ∃ next, api.listCollection serverCmd state = .ok (next, .monostate)
  | .changeActiveCollection => ∃ next, api.changeActive serverCmd state = .ok (next, false)
  | .createCollection => ∃ next, api.createCollection env serverCmd state = .ok (next, false)
  | .addToCollection => ∃ next, api.addToCollection serverCmd state = .ok (next, false)
  | .renameCollection => ∃ next, api.renameCollection serverCmd state = .ok (next, false)
  | .remove => ∃ next, api.removeCollection serverCmd state = .ok (next, false)
  | .mergeCollection => ∃ next, api.mergeCollection serverCmd state = .ok (next, false)
  | .move => ∃ next, api.moveCollectoion serverCmd state = .ok (next, false)
  | _ => False

/-- The operation behind a kind of request returns, whatever it reports. -/
def Returns (api : StateApi σ) (env : Environment) (serverCmd : Json) (state : σ) : MessageType → Prop
  | .getNextWallpaper | .getCurrent => ∃ result, api.getNextWallpaper env state = .ok result
  | .getPreviousWallpaper => ∃ result, api.getPreviousWallpaper state = .ok result
  | .markFavorate => ∃ result, api.markFavorate state = .ok result
  | .listCollections => ∃ result, api.listCollection serverCmd state = .ok result
  | .changeActiveCollection => ∃ result, api.changeActive serverCmd state = .ok result
  | .createCollection => ∃ result, api.createCollection env serverCmd state = .ok result
  | .addToCollection => ∃ result, api.addToCollection serverCmd state = .ok result
  | .renameCollection => ∃ result, api.renameCollection serverCmd state = .ok result
  | .remove => ∃ result, api.removeCollection serverCmd state = .ok result
  | .mergeCollection => ∃ result, api.mergeCollection serverCmd state = .ok result
  | .move => ∃ result, api.moveCollectoion serverCmd state = .ok result
  | _ => True

end StateApi

namespace ChangeServer

variable {σ : Type} (api : StateApi σ) (cbor : Cbor)

/-- A request that is not corrupt. -/
def IsRequest (msg : Message) : Prop :=
  msg.validate = true ∧ ∃ type, MessageType.ofCode msg.header.id = some type ∧ type.isRequest = true

/-- The operation behind a request fails. -/
def Failed (server : ChangeServer σ) (request : Environment × Message) : Prop :=
  ∃ type serverCmd, MessageType.ofCode request.2.header.id = some type ∧
    MessageHelper.msgToJson cbor request.2 = .ok serverCmd ∧
    api.Fails request.1 serverCmd server.state type

/-- A failure behind a request, if there is one, is that of `get_previous_wallpaper`. -/
def FailureAnswered (server : ChangeServer σ) (request : Environment × Message) : Prop :=
  Failed api cbor server request → MessageType.ofCode request.2.header.id = some .getPreviousWallpaper

/-- The body of a request decodes, and the operation behind it returns. -/
def Returned (server : ChangeServer σ) (request : Environment × Message) : Prop :=
  ∃ type serverCmd, MessageType.ofCode request.2.header.id = some type ∧
    MessageHelper.msgToJson cbor request.2 = .ok serverCmd ∧
    api.Returns request.1 serverCmd server.state type

/-- The condition under which a request is answered. -/
def Answerable (server : ChangeServer σ) (request : Environment × Message) : Prop :=
  Returned api cbor server request ∧ FailureAnswered api cbor server request

/-- The reply to a request: it is a failure exactly if the operation failed, and the client
does not go on waiting after it. -/
def Answers (failed : Prop) (reply : Message) : Prop :=
  (MessageType.ofCode reply.header.id = some .statusFailure ↔ failed) ∧
    ∀ background, ¬ ChangeClient.LeftWaiting cbor background [reply]

/-- The messages sent to the client over its requests, as long as `on_message` returns. -/
def replies : ChangeServer σ → List (Environment × Message) → List Message
  | _, [] => []
  | server, request :: rest =>
    match onMessage api cbor request.1 server request.2 with
    | .ok (next, sent) => sent ++ replies next rest
    | .error _ => []

/-- The messages are one reply to each request, in order. A request that `on_message` does
not return from has none. -/
def AnsweredInOrder : ChangeServer σ → List (Environment × Message) → List Message → Prop
  | _, [], sent => sent = []
  | server, request :: rest, sent =>
    match onMessage api cbor request.1 server request.2 with
    | .ok (next, _) => ∃ reply later, sent = reply :: later ∧
        Answers cbor (Failed api cbor server request) reply ∧ AnsweredInOrder next rest later
    | .error _ => False

/-- Every request of a client is answered: the replies are what is posted to its connection. -/
def Answered (server : ChangeServer σ) (client : Peer) (requests : List (Environment × Message)) : Prop :=
  ∃ sent, ((replies api cbor server requests).foldl Peer.sendMessage client).posted = client.posted ++ sent ∧
    AnsweredInOrder api cbor server requests sent

variable {api : StateApi σ} {cbor : Cbor}

/-! ### One request -/

theorem process_endsWait {type : MessageType} {msg : Message} (background : Background)
    (kind : MessageType.ofCode msg.header.id = some type) (ends : type.endsWait = true) :
    (ChangeClient.process cbor background msg).2 = true := by
  unfold ChangeClient.process
  rw [kind]
  cases type with
  | serverGetStatus | serverGetPing | statusSuccess | statusFailure | getNextWallpaper
  | getPreviousWallpaper | getCurrent | listCollections => rfl
  | _ => cases ends

/-- A reply that is not corrupt and of a kind that ends the wait answers a request exactly
if it is a failure when the operation failed. -/
theorem answers_iff {type : MessageType} {reply : Message} {failed : Prop} (valid : reply.validate = true)
    (kind : MessageType.ofCode reply.header.id = some type) (ends : type.endsWait = true) :
    Answers cbor failed reply ↔ (type = .statusFailure ↔ failed) := by
  unfold Answers
  rw [kind, Option.some_inj]
  constructor
  · intro ⟨failure, _⟩
    exact failure
  · intro failure
    refine ⟨failure, fun background => ?_⟩
    exact ChangeClient.not_leftWaiting valid (process_endsWait background kind ends)

/-- What is sent for a request: at most one message, an answer exactly under a condition. -/
structure Sent (cbor : Cbor) (failed answered : Prop) (sent : List Message) : Prop where
  atMostOne : sent.length ≤ 1
  answers_iff : (∃ reply, sent = [reply] ∧ Answers cbor failed reply) ↔ answered

theorem sent_nothing {failed answered : Prop} (unanswered : ¬ answered) : Sent cbor failed answered [] where
  atMostOne := Nat.zero_le 1
  answers_iff := by
    constructor
    · intro ⟨reply, nothing, _⟩
      cases nothing
    · intro answer
      exact absurd answer unanswered

theorem sent_reply {type : MessageType} {reply : Message} {failed answered : Prop}
    (valid : reply.validate = true) (kind : MessageType.ofCode reply.header.id = some type)
    (ends : type.endsWait = true) (condition : (type = .statusFailure ↔ failed) ↔ answered) :
    Sent cbor failed answered [reply] where
  atMostOne := Nat.le_refl 1
  answers_iff := by
    rw [← condition, ← @answers_iff cbor _ _ _ valid kind ends]
    constructor
    · intro ⟨other, same, answers⟩
      cases same
      exact answers
    · intro answers
      exact ⟨reply, rfl, answers⟩

/-- A reply of its own kind to a request whose failure has no reply of its own. -/
theorem sent_own {type : MessageType} {reply : Message} {failed : Prop} (valid : reply.validate = true)
    (kind : MessageType.ofCode reply.header.id = some type) (ends : type.endsWait = true)
    (other : type ≠ .statusFailure) : Sent cbor failed (¬ failed) [reply] := by
  refine sent_reply valid kind ends ?_
  constructor
  · intro same failure
    exact other (same.mpr failure)
  · intro succeeded
    exact ⟨fun same => absurd same other, fun failure => absurd failure succeeded⟩

theorem ofCode_flagMessage (type : MessageType) (flag : Bool) (now : UInt64) :
    MessageType.ofCode (flagMessage type flag now).header.id = some type := MessageType.ofCode_code type

theorem ofCode_jsonToMsg (type : MessageType) (json : Json) (now : UInt64) :
    MessageType.ofCode (MessageHelper.jsonToMsg cbor type json now).header.id = some type :=
  MessageType.ofCode_code type

/-- A request whose operation reports success or failure is answered if it succeeds. -/
theorem sent_reported {server next : ChangeServer σ} {now : UInt64} {outcome : Outcome (σ × Bool)}
    {sent : List Message} (returned : server.reported now outcome = .ok (next, sent)) :
    Sent cbor (∃ state, outcome = .ok (state, false)) (¬ ∃ state, outcome = .ok (state, false)) sent := by
  cases outcome with
  | error fault => cases returned
  | ok result =>
    obtain ⟨state, done⟩ := result
    cases returned
    cases done with
    | false => exact sent_nothing (fun succeeded => succeeded ⟨state, rfl⟩)
    | true => exact sent_own (validate_push _ _ _) (ofCode_flagMessage _ _ _) rfl (fun same => nomatch same)

theorem failed_iff {server : ChangeServer σ} {env : Environment} {msg : Message} {type : MessageType}
    {serverCmd : Json} (kind : MessageType.ofCode msg.header.id = some type)
    (decoded : MessageHelper.msgToJson cbor msg = .ok serverCmd) :
    Failed api cbor server (env, msg) ↔ api.Fails env serverCmd server.state type := by
  constructor
  · intro ⟨type', serverCmd', kind', decoded', fails⟩
    cases kind.symm.trans kind'
    cases decoded.symm.trans decoded'
    exact fails
  · intro fails
    exact ⟨type, serverCmd, kind, decoded, fails⟩

/-- Only the failure of `get_previous_wallpaper` has a reply of its own. -/
theorem failureAnswered_iff {server : ChangeServer σ} {env : Environment} {msg : Message} {type : MessageType}
    {serverCmd : Json} (kind : MessageType.ofCode msg.header.id = some type)
    (decoded : MessageHelper.msgToJson cbor msg = .ok serverCmd) :
    FailureAnswered api cbor server (env, msg) ↔
      (api.Fails env serverCmd server.state type → type = .getPreviousWallpaper) := by
  unfold FailureAnswered
  rw [failed_iff kind decoded, kind, Option.some_inj]

/-- The kinds of requests without a reply to their failure. -/
theorem sent_other {type : MessageType} {failed : Prop} {sent : List Message}
    (other : type ≠ .getPreviousWallpaper) (own : Sent cbor failed (¬ failed) sent) :
    Sent cbor failed (failed → type = .getPreviousWallpaper) sent where
  atMostOne := own.atMostOne
  answers_iff := by
    rw [own.answers_iff]
    constructor
    · intro succeeded failure
      exact absurd failure succeeded
    · intro previous failure
      exact other (previous failure)

/-- A request for the wallpaper before: its failure has a reply of its own. -/
theorem sent_previous {prev : Json} {failed answered : Prop} (empty : failed ↔ prev.isEmpty = true)
    (always : answered) (now : UInt64) :
    Sent cbor failed answered
      (if !prev.isEmpty then [MessageHelper.jsonToMsg cbor .getPreviousWallpaper prev now]
        else [flagMessage .statusFailure false now]) := by
  cases given : prev.isEmpty with
  | true =>
    have failure := empty.mpr given
    refine sent_reply (validate_push _ _ _) (ofCode_flagMessage .statusFailure _ _) rfl ?_
    exact ⟨fun _ => always, fun _ => ⟨fun _ => failure, fun _ => rfl⟩⟩
  | false =>
    have succeeded : ¬ failed := fun failure => nomatch given.symm.trans (empty.mp failure)
    refine sent_reply (validate_finalize _ _) (ofCode_jsonToMsg .getPreviousWallpaper _ _) rfl ?_
    exact ⟨fun _ => always, fun _ => ⟨(nomatch ·), fun failure => absurd failure succeeded⟩⟩

/-- What is sent for a request that `on_message` returns from. -/
theorem sent_iff {server next : ChangeServer σ} {env : Environment} {msg : Message} {sent : List Message}
    (request : IsRequest msg) (returned : onMessage api cbor env server msg = .ok (next, sent)) :
    Sent cbor (Failed api cbor server (env, msg)) (FailureAnswered api cbor server (env, msg)) sent := by
  obtain ⟨valid, type, kind, asks⟩ := request
  rw [onMessage, if_pos valid, process] at returned
  cases decoded : MessageHelper.msgToJson cbor msg with
  | error thrown =>
    rw [decoded] at returned
    cases returned
  | ok serverCmd =>
    rw [decoded, kind] at returned
    rw [propext (failed_iff kind decoded), propext (failureAnswered_iff kind decoded)]
    by_cases previous : type = .getPreviousWallpaper
    · subst previous
      obtain ⟨⟨state, prev⟩, gives, returned⟩ := bind_eq_ok.mp returned
      cases returned
      refine sent_previous ?_ (fun _ => rfl) env.now
      constructor
      · intro ⟨next, json, gives', empty⟩
        cases gives.symm.trans gives'
        exact empty
      · intro empty
        exact ⟨state, prev, gives, empty⟩
    refine sent_other previous ?_
    cases type with
    | getPreviousWallpaper => exact absurd rfl previous
    | getNextWallpaper =>
      obtain ⟨⟨state, send⟩, _, returned⟩ := bind_eq_ok.mp returned
      cases returned
      exact sent_own (validate_finalize _ _) (ofCode_jsonToMsg _ _ _) rfl (fun same => nomatch same)
    | getCurrent =>
      obtain ⟨⟨state, cur⟩, _, returned⟩ := bind_eq_ok.mp returned
      cases returned
      exact sent_own (validate_finalize _ _) (ofCode_jsonToMsg _ _ _) rfl (fun same => nomatch same)
    | markFavorate =>
      obtain ⟨state, _, returned⟩ := bind_eq_ok.mp returned
      cases returned
      exact sent_own (validate_push _ _ _) (ofCode_flagMessage _ _ _) rfl (fun same => nomatch same)
    | listCollections =>
      obtain ⟨⟨state, listing⟩, gives, returned⟩ := bind_eq_ok.mp returned
      cases returned
      cases listing with
      | monostate => exact sent_nothing (fun succeeded => succeeded ⟨state, gives⟩)
      | cache | names =>
        exact sent_own (validate_finalize _ _) (ofCode_jsonToMsg _ _ _) rfl (fun same => nomatch same)
    | serverGetStatus =>
      cases returned
      exact sent_own (validate_finalize _ _) (ofCode_jsonToMsg _ _ _) rfl (fun same => nomatch same)
    | serverGetPing =>
      cases returned
      exact sent_own (validate_push _ _ _) kind rfl (fun same => nomatch same)
    | changeActiveCollection | createCollection | addToCollection | renameCollection | remove
    | mergeCollection | move => exact sent_reported returned
    | clientAccepted | clientAssignID | clientRegisterWithServer | clientUnregisterWithServer
    | statusSuccess | statusFailure => cases asks

/-- A computation goes through if its first part does and the second always does. -/
private theorem bind_returns_iff {α β : Type} {first : Outcome α} {second : α → Outcome β}
    (total : ∀ value, ∃ result, second value = .ok result) :
    (∃ result, first >>= second = .ok result) ↔ ∃ value, first = .ok value := by
  constructor
  · intro ⟨result, returned⟩
    obtain ⟨value, same, _⟩ := bind_eq_ok.mp returned
    exact ⟨value, same⟩
  · intro ⟨value, same⟩
    obtain ⟨result, rest⟩ := total value
    exact ⟨result, bind_eq_ok.mpr ⟨value, same, rest⟩⟩

/-- `on_message` returns from a request exactly if its body decodes and its operation returns. -/
theorem onMessage_returns_iff {server : ChangeServer σ} {env : Environment} {msg : Message}
    (request : IsRequest msg) :
    (∃ result, onMessage api cbor env server msg = .ok result) ↔ Returned api cbor server (env, msg) := by
  obtain ⟨valid, type, kind, asks⟩ := request
  rw [onMessage, if_pos valid, process, Returned]
  cases decoded : MessageHelper.msgToJson cbor msg with
  | error thrown => exact ⟨nofun, nofun⟩
  | ok serverCmd =>
    have behind : (∃ type' serverCmd', MessageType.ofCode msg.header.id = some type' ∧
        (Except.ok serverCmd : Except JsonError Json) = .ok serverCmd' ∧
          api.Returns env serverCmd' server.state type') ↔ api.Returns env serverCmd server.state type := by
      constructor
      · rintro ⟨type', serverCmd', kind', same, returns⟩
        cases kind.symm.trans kind'
        cases same
        exact returns
      · exact fun returns => ⟨type, serverCmd, kind, rfl, returns⟩
    rw [behind, kind]
    cases type with
    | serverGetStatus | serverGetPing => exact ⟨fun _ => trivial, fun _ => ⟨_, rfl⟩⟩
    | getNextWallpaper | getPreviousWallpaper | getCurrent | markFavorate | listCollections
    | changeActiveCollection | createCollection | addToCollection | renameCollection | remove
    | mergeCollection | move => exact bind_returns_iff (fun _ => ⟨_, rfl⟩)
    | clientAccepted | clientAssignID | clientRegisterWithServer | clientUnregisterWithServer
    | statusSuccess | statusFailure => cases asks

/-! ### The requests of a client -/

/-- Messages that answer all requests are no fewer than those the server sends. -/
theorem replies_le {server : ChangeServer σ} {requests : List (Environment × Message)} {sent : List Message}
    (asked : ∀ request ∈ requests, IsRequest request.2)
    (inOrder : AnsweredInOrder api cbor server requests sent) :
    (replies api cbor server requests).length ≤ sent.length := by
  induction requests generalizing server sent with
  | nil => exact Nat.zero_le _
  | cons request rest ih =>
    unfold AnsweredInOrder at inOrder
    unfold replies
    split at inOrder
    · rename_i next here returned
      obtain ⟨reply, later, same, _, inOrder⟩ := inOrder
      have bound := ih (fun other member => asked other (List.mem_cons_of_mem _ member)) inOrder
      have one := (sent_iff (asked request List.mem_cons_self) returned).atMostOne
      rw [same, List.length_append, List.length_cons]
      omega
    · exact inOrder.elim

/-- The replies answer the requests in order exactly if every operation returns and no
failure goes without a reply. -/
theorem replies_inOrder_iff {server : ChangeServer σ} {requests : List (Environment × Message)}
    (asked : ∀ request ∈ requests, IsRequest request.2) :
    AnsweredInOrder api cbor server requests (replies api cbor server requests) ↔
      Along (step api cbor) (Answerable api cbor) server requests := by
  induction requests generalizing server with
  | nil => exact ⟨fun _ => trivial, fun _ => rfl⟩
  | cons request rest ih =>
    have others : ∀ other ∈ rest, IsRequest other.2 :=
      fun other member => asked other (List.mem_cons_of_mem _ member)
    have here := asked request List.mem_cons_self
    have returns := @onMessage_returns_iff _ api cbor server request.1 request.2 here
    unfold AnsweredInOrder replies
    cases returned : onMessage api cbor request.1 server request.2 with
    | error fault =>
      refine ⟨False.elim, fun ⟨answerable, _⟩ => ?_⟩
      obtain ⟨result, absurdity⟩ := returns.mpr answerable.1
      cases returned.symm.trans absurdity
    | ok result =>
      obtain ⟨next, replied⟩ := result
      have sent := sent_iff here returned
      have taken : step api cbor server request = some next := step_eq_some.mpr ⟨replied, returned⟩
      constructor
      · intro ⟨reply, later, same, answers, inOrder⟩
        -- with no message for this request, those for the others would not be enough
        have enough := replies_le others inOrder
        cases replied with
        | nil =>
          have lengths := congrArg List.length same
          simp only [List.nil_append, List.length_cons] at lengths
          omega
        | cons first more =>
          have alone : more = [] :=
            List.eq_nil_of_length_eq_zero (Nat.le_zero.mp (Nat.le_of_succ_le_succ sent.atMostOne))
          subst alone
          cases same
          refine ⟨⟨returns.mp ⟨_, returned⟩, sent.answers_iff.mp ⟨reply, rfl, answers⟩⟩, ?_⟩
          intro next' taken'
          cases taken.symm.trans taken'
          exact (ih others).mp inOrder
      · intro ⟨answerable, onward⟩
        obtain ⟨reply, one, answers⟩ := sent.answers_iff.mpr answerable.2
        rw [one]
        exact ⟨reply, _, rfl, answers, (ih others).mpr (onward next taken)⟩

/-- Every message sent to a connected client is posted to its connection. -/
theorem posted_sendMessages {client : Peer} (connected : client.isConnected = true) (sent : List Message) :
    (sent.foldl Peer.sendMessage client).posted = client.posted ++ sent := by
  induction sent generalizing client with
  | nil => exact (List.append_nil _).symm
  | cons msg rest ih =>
    have posted : client.sendMessage msg =
        { client with offered := client.offered ++ [msg], posted := client.posted ++ [msg] } := if_pos connected
    have still : (client.sendMessage msg).isConnected = true := by
      rw [posted]
      exact connected
    rw [List.foldl_cons, ih still, posted]
    exact List.append_assoc client.posted [msg] rest

/-- In every run of requests each one is answered, in order, exactly if every operation
returns and those that fail are `get_previous_wallpaper`. -/
theorem requests_answered_iff {server : ChangeServer σ} {client : Peer}
    {requests : List (Environment × Message)} (connected : client.isConnected = true)
    (asked : ∀ request ∈ requests, IsRequest request.2) :
    Answered api cbor server client requests ↔
      Along (step api cbor) (Answerable api cbor) server requests := by
  rw [← replies_inOrder_iff asked]
  unfold Answered
  rw [posted_sendMessages connected]
  constructor
  · intro ⟨sent, same, inOrder⟩
    rw [List.append_cancel_left same]
    exact inOrder
  · intro inOrder
    exact ⟨_, rfl, inOrder⟩

/-- A client whose only request is met with silence. -/
theorem replies_silence {server next : ChangeServer σ} {request : Environment × Message}
    (returned : onMessage api cbor request.1 server request.2 = .ok (next, [])) :
    replies api cbor server [request] = [] := by
  unfold replies
  rw [returned]
  rfl

theorem not_answered_silence {server next : ChangeServer σ} {client : Peer} {request : Environment × Message}
    (returned : onMessage api cbor request.1 server request.2 = .ok (next, [])) :
    ¬ Answered api cbor server client [request] := by
  unfold Answered AnsweredInOrder
  rw [replies_silence returned, returned]
  intro ⟨sent, same, reply, later, answer, _⟩
  rw [answer] at same
  have lengths := congrArg List.length same
  simp at lengths

/-! ### Two clients -/

/-- The CBOR encoding of `{"new_active_name": "a"}`. -/
def activeBody : Bytes := [0xa1, 0x6f] ++ ascii "new_active_name" ++ [0x61, 0x61]

/-- The part of the CBOR conversions that a run over these bytes uses. -/
def activeCbor : Cbor where
  fromCbor body :=
    if body = activeBody then .ok (.object [("new_active_name", .string (ascii "a"))]) else .error .parseError
  toCbor _ := []

/-- A request with this body. -/
def activeRequest (type : MessageType) : Environment × Message :=
  ({}, Message.finalize { header := { id := type.code }, body := activeBody } 0)

def connectedPeer : Peer := { connection := { owner := .server, connected := true } }

theorem isRequest_activeRequest {type : MessageType} (asks : type.isRequest = true) :
    IsRequest (activeRequest type).2 :=
  ⟨validate_finalize _ _, type, MessageType.ofCode_code type, asks⟩

/-- To make a collection active that does not exist is answered by nothing: the client
goes on waiting. -/
theorem unknown_collection_unanswered :
    IsRequest (activeRequest .changeActiveCollection).2 ∧ connectedPeer.isConnected = true ∧
      onMessage State.api activeCbor {} { state := {} } (activeRequest .changeActiveCollection).2 =
        .ok ({ state := {} }, []) ∧
      (∀ background, ChangeClient.LeftWaiting activeCbor background
        (replies State.api activeCbor { state := {} } [activeRequest .changeActiveCollection])) ∧
      ¬ Answered State.api activeCbor { state := {} } connectedPeer [activeRequest .changeActiveCollection] := by
  have request : IsRequest (activeRequest .changeActiveCollection).2 := isRequest_activeRequest rfl
  have returned : onMessage State.api activeCbor {} { state := {} } (activeRequest .changeActiveCollection).2 =
      .ok ({ state := {} }, []) := by
    rw [onMessage, if_pos request.1]
    rfl
  refine ⟨request, rfl, returned, ?_, not_answered_silence returned⟩
  intro background
  rw [replies_silence returned]
  exact ChangeClient.leftWaiting_nil

/-- The request for the wallpaper before, of a server that has none, and a ping. -/
theorem previous_and_ping_answered :
    Answered State.api activeCbor { state := {} } connectedPeer
      [activeRequest .getPreviousWallpaper, activeRequest .serverGetPing] := by
  refine (requests_answered_iff rfl ?_).mpr ?_
  · intro request member
    rcases List.mem_cons.mp member with same | member
    · rw [same]
      exact isRequest_activeRequest rfl
    · rw [List.mem_singleton.mp member]
      exact isRequest_activeRequest rfl
  · have decoded : ∀ type, MessageHelper.msgToJson activeCbor (activeRequest type).2 =
        .ok (.object [("new_active_name", .string (ascii "a"))]) := fun _ => rfl
    refine ⟨⟨⟨_, _, MessageType.ofCode_code _, decoded _, _, rfl⟩, fun _ => MessageType.ofCode_code _⟩, ?_⟩
    intro next _
    refine ⟨⟨⟨_, _, MessageType.ofCode_code _, decoded _, trivial⟩, ?_⟩, fun _ _ => trivial⟩
    intro ⟨type, serverCmd, kind, _, fails⟩
    cases (MessageType.ofCode_code _).symm.trans kind
    exact False.elim fails

end ChangeServer

end Wallchanger
