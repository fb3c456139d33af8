import Wallchanger.ChangeLib.Crc32

/-! `net_message.hpp`: messages, and their header as it lies in memory. The message
type is an enumeration over `uint32_t`; both peers are little-endian. -/

namespace Wallchanger.Net

/-- The bytes of a `uint32_t` in memory. -/
def littleEndian (value : UInt32) : Bytes :=
  [UInt8.ofNat value.toNat, UInt8.ofNat (value.toNat / 256), UInt8.ofNat (value.toNat / 65536),
    UInt8.ofNat (value.toNat / 16777216)]

/-- The `uint32_t` over four bytes of memory. -/
def ofLittleEndian : Bytes → UInt32
  | [byte0, byte1, byte2, byte3] => UInt32.ofNat
      (byte0.toNat + 256 * byte1.toNat + 65536 * byte2.toNat + 16777216 * byte3.toNat)
  | _ => 0

theorem ofLittleEndian_littleEndian (value : UInt32) : ofLittleEndian (littleEndian value) = value := by
  have bound := value.toNat_lt
  apply UInt32.toNat_inj.mp
  simp only [ofLittleEndian, littleEndian, UInt32.toNat_ofNat', UInt8.toNat_ofNat']
  omega

structure MessageHeader where
  id : UInt32 := 0
  size : UInt32 := 0
  hash : UInt32 := 0
deriving DecidableEq

/-- `sizeof(message_header<T>)`. -/
def headerSize : Nat := 12

namespace MessageHeader

/-- The header as the socket writes it. -/
def bytes (header : MessageHeader) : Bytes :=
  littleEndian header.id ++ littleEndian header.size ++ littleEndian header.hash

/-- A header the socket has read over. -/
def ofBytes (bytes : Bytes) : MessageHeader where
  id := ofLittleEndian (bytes.take 4)
  size := ofLittleEndian ((bytes.drop 4).take 4)
  hash := ofLittleEndian ((bytes.drop 8).take 4)

@[simp] theorem length_bytes (header : MessageHeader) : header.bytes.length = headerSize := rfl

theorem bytes_ne_nil (header : MessageHeader) : header.bytes ≠ [] :=
  List.ne_nil_of_length_pos (header.length_bytes ▸ Nat.succ_pos 11)

@[simp] theorem ofBytes_bytes (header : MessageHeader) : ofBytes header.bytes = header := by
  have id := ofLittleEndian_littleEndian header.id
  have size := ofLittleEndian_littleEndian header.size
  have hash := ofLittleEndian_littleEndian header.hash
  cases header
  exact congr (congr (congrArg MessageHeader.mk id) size) hash

end MessageHeader

/-- `time` counts the ticks of the clock; it stays with the sender. -/
structure Message where
  header : MessageHeader := {}
  time : UInt64 := 0
  body : Bytes := []
deriving DecidableEq

namespace Message

/-- `finalize`, at the clock's `now`. -/
def finalize (msg : Message) (now : UInt64) : Message :=
  { msg with
    header := { msg.header with hash := crc32 msg.body, size := UInt32.ofNat msg.body.length }
    time := now }

def validate (msg : Message) : Bool := crc32 msg.body = msg.header.hash

/-- `operator<<`, over the bytes of a value of a standard-layout type. -/
def push (msg : Message) (data : Bytes) (now : UInt64) : Message :=
  let body := msg.body ++ data
  finalize { msg with body, header := { msg.header with size := UInt32.ofNat body.length } } now

/-- `operator>>` into a value, over its bytes; `none` where the body is too short and
bytes before it would be read. The hash stays. -/
def pull (msg : Message) (data : Bytes) : Option (Message × Bytes) :=
  if msg.validate then
    if data.length ≤ msg.body.length then
      let bodySize := msg.body.length - data.length
      let body := msg.body.take bodySize
      some ({ msg with body, header := { msg.header with size := UInt32.ofNat body.length } },
        msg.body.drop bodySize)
    else none
  else some (msg, data)

/-- The header tells the length of the body. -/
def Sized (msg : Message) : Prop := msg.header.size.toNat = msg.body.length

instance (msg : Message) : Decidable msg.Sized := inferInstanceAs (Decidable (_ = _))

/-- A finalized message is sized, as long as `uint32_t` holds the length. -/
theorem sized_finalize {msg : Message} (small : msg.body.length < 2 ^ 32) (now : UInt64) :
    (msg.finalize now).Sized := by
  change (UInt32.ofNat msg.body.length).toNat = msg.body.length
  rw [UInt32.toNat_ofNat', Nat.mod_eq_of_lt small]

/-- What a connection writes for a message. -/
def bytes (msg : Message) : Bytes := msg.header.bytes ++ msg.body

end Message

end Wallchanger.Net
