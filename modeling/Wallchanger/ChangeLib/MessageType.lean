import Wallchanger.ChangeLib.Json
import Wallchanger.Net.Message

/-! `message_type.hpp`: the kinds of messages, and messages that carry a JSON value. -/

namespace Wallchanger

inductive MessageType where
  | serverGetStatus
  | serverGetPing
  | clientAccepted
  | clientAssignID
  | clientRegisterWithServer
  | clientUnregisterWithServer
  | getNextWallpaper
  | getPreviousWallpaper
  | markFavorate
  | getCurrent
  | createCollection
  | changeActiveCollection
  | renameCollection
  | listCollections
  | addToCollection
  | remove
  | mergeCollection
  | move
  | statusSuccess
  | statusFailure
deriving DecidableEq

namespace MessageType

/-- The enumerators in order: the underlying value is the position. -/
def enumerators : List MessageType :=
  [.serverGetStatus, .serverGetPing, .clientAccepted, .clientAssignID, .clientRegisterWithServer,
    .clientUnregisterWithServer, .getNextWallpaper, .getPreviousWallpaper, .markFavorate, .getCurrent,
    .createCollection, .changeActiveCollection, .renameCollection, .listCollections, .addToCollection,
    .remove, .mergeCollection, .move, .statusSuccess, .statusFailure]

/-- The underlying `uint32_t`. -/
def code (type : MessageType) : UInt32 := UInt32.ofNat (enumerators.idxOf type)

/-- The enumerator of a header, `none` for a value that is none. -/
def ofCode (id : UInt32) : Option MessageType := enumerators[id.toNat]?

@[simp] theorem ofCode_code (type : MessageType) : ofCode type.code = some type := by
  cases type with
  | _ => rfl

end MessageType

/-- `nlohmann::json::from_cbor` and `to_cbor`. -/
structure Cbor where
  fromCbor : Bytes → Except JsonError Json
  toCbor : Json → Bytes

namespace MessageHelper

open Net (Message)

def msgToJson (cbor : Cbor) (msg : Message) : Except JsonError Json := cbor.fromCbor msg.body

def jsonToMsg (cbor : Cbor) (type : MessageType) (json : Json) (now : UInt64) : Message :=
  Message.finalize { header := { id := type.code }, body := cbor.toCbor json } now

end MessageHelper

end Wallchanger
