import Wallchanger.ChangeLib.MessageType
import Wallchanger.ChangeService.ChangeState

/-! `change_client.hpp`: the client that waits for the reply to its request. -/

namespace Wallchanger

open Net

/-- Numbers and booleans convert to `uint64_t` by a cast, and to `size_t`. -/
instance : AdlSerializer UInt64 where
  toJson value := .number value.toNat
  fromJson
    | .number value => .ok (UInt64.ofInt value)
    | .boolean value => .ok (if value then 1 else 0)
    | _ => .error .typeError

/-- An exception that leaves the function. -/
def throwing (computation : Except JsonError α) : Outcome α := computation.mapError .thrown

/-- What `background_handler::create` gives: on both platforms there is a handler. -/
structure Background where
  isActive : Bool
  setWallpaper : Bytes → Bool

/-- What the client prints or logs, and the wallpapers it sets. -/
inductive Shown where
  | status (connections uptime : UInt64)
  | ping (timeThen : Bytes)
  | serverError
  | wallpaper (path : Bytes)
  | backgroundError
  | names (list : List Bytes)
  | collection (col : Cache Bytes)

structure ChangeClient where
  processing : Bool := true
  shown : List Shown := []

namespace ChangeClient

variable (cbor : Cbor) (background : Background)

/-- The body of the cases `Get_Next_Wallpaper` and `Get_Previous_Wallpaper`. -/
def setWallpaper (msg : Message) : Outcome (List Shown) := do
  let get ← throwing (MessageHelper.msgToJson cbor msg)
  if background.isActive then
    let path : Bytes ← throwing (do fromJson (← get.subscriptMut "path"))
    let wallpaper : Bytes ← throwing (do fromJson (← get.subscriptMut "wallpaper"))
    let file := path ++ ascii "/" ++ wallpaper
    return if !background.setWallpaper file then [.wallpaper file, .backgroundError] else [.wallpaper file]
  else return [.backgroundError]

/-- The body of the case `Server_GetStatus`. -/
def showStatus (msg : Message) : Outcome (List Shown) := do
  let statusMsg ← throwing (MessageHelper.msgToJson cbor msg)
  let connections ← throwing (do fromJson (← statusMsg.subscriptMut "connections"))
  let uptime ← throwing (do fromJson (← statusMsg.subscriptMut "uptime"))
  return [.status connections uptime]

/-- The body of the case `Server_GetPing`: the time point read starts at zero. -/
def showPing (msg : Message) : Outcome (List Shown) := do
  let (_, timeThen) ← unchecked (msg.pull (List.replicate 8 0))
  return [.ping timeThen]

/-- The body of the case `List_Collections`. -/
def showList (msg : Message) : Outcome (List Shown) := do
  let obj ← throwing (MessageHelper.msgToJson cbor msg)
  let listOnly : Bool ← throwing (do fromJson (← obj.subscriptMut "list-only"))
  if listOnly then
    return [.names (← throwing (do vectorFromJson (← obj.subscriptMut "list")))]
  else
    return [.collection (← throwing (do fromJson (← obj.subscriptMut "list")))]

/-- What the switch over the message does, and the value of `msg_processed` after it. -/
def process (msg : Message) : Outcome (List Shown) × Bool :=
  match MessageType.ofCode msg.header.id with
  | some .serverGetStatus => (showStatus cbor msg, true)
  | some .serverGetPing => (showPing msg, true)
  | some .statusSuccess => (.ok [], true)
  | some .statusFailure => (.ok [.serverError], true)
  | some .getNextWallpaper | some .getPreviousWallpaper => (setWallpaper cbor background msg, true)
  | some .getCurrent => (do
      let _ ← throwing (MessageHelper.msgToJson cbor msg)
      return [], true)
  | some .listCollections => (showList cbor msg, true)
  | some .createCollection | some .changeActiveCollection | some .markFavorate | some .renameCollection
  | some .clientAccepted | some .clientAssignID | some .clientRegisterWithServer
  | some .clientUnregisterWithServer => (.ok [], false)
  | some .addToCollection | some .remove | some .mergeCollection | some .move | none => (.ok [], false)

/-- `m_process_server_commands`, with a message in the queue. -/
def processServerCommands (client : ChangeClient) (msg : Message) : Outcome ChangeClient :=
  if msg.validate then do
    let (outcome, msgProcessed) := process cbor background msg
    let shown ← outcome
    return { processing := !msgProcessed, shown := client.shown ++ shown }
  else .ok { client with processing := true }

/-- `run` of a connected client, up to where it waits for the message after those given. -/
def run : ChangeClient → List Message → Outcome ChangeClient
  | client, [] => .ok client
  | client, msg :: incomming =>
    if client.processing then do
      let next ← processServerCommands cbor background client msg
      run next incomming
    else .ok client

/-- The client has used up its messages and goes on waiting. -/
def LeftWaiting (incomming : List Message) : Prop :=
  ∃ client, run cbor background {} incomming = .ok client ∧ client.processing = true

variable {cbor : Cbor} {background : Background}

theorem leftWaiting_nil : LeftWaiting cbor background [] := ⟨{}, rfl, rfl⟩

/-- One message is waited for no longer if it is not corrupt and of a kind that ends the wait. -/
theorem not_leftWaiting {msg : Message} (valid : msg.validate = true)
    (ends : (process cbor background msg).2 = true) : ¬ LeftWaiting cbor background [msg] := by
  intro ⟨client, reached, waits⟩
  change processServerCommands cbor background {} msg >>= _ = _ at reached
  rw [processServerCommands, if_pos valid] at reached
  dsimp only at reached
  rw [ends] at reached
  cases shown : (process cbor background msg).1 with
  | error fault =>
    rw [shown] at reached
    cases reached
  | ok shown' =>
    rw [shown] at reached
    cases reached
    cases waits

end ChangeClient

end Wallchanger
