import Wallchanger.Net.Message

/-! `connection.hpp`: one end of a socket. Its handlers run one at a time; the reads
and writes they start complete later, each with a handler of its own. -/

namespace Wallchanger.Net

inductive Owner where
  | server
  | client
deriving DecidableEq

/-- Which part of a message a read or a write transfers. -/
inductive Part where
  | header
  | body
deriving DecidableEq

/-- A received message; a server notes the connection it came by. -/
structure OwnedMessage where
  remote : Option UInt32
  msg : Message
deriving DecidableEq

/-- `writes` and `reads` are started and not completed: the bytes of a write, the
number of bytes of a read. `closing` is a posted close of the socket. -/
structure Connection where
  owner : Owner
  id : UInt32 := 0
  isOpen : Bool := true
  connected : Bool := false
  closing : Bool := false
  outbound : List Message := []
  tempIn : Message := {}
  writes : List (Part × Bytes) := []
  reads : List (Part × Nat) := []

namespace Connection

def isConnected (connection : Connection) : Bool := connection.isOpen && connection.connected

def disconnect (connection : Connection) : Connection :=
  if connection.isConnected then { connection with connected := false, closing := true } else connection

/-! ### Writing -/

/-- `write_header`; `none` where the queue is empty. -/
def writeHeader (connection : Connection) : Option Connection := do
  let front ← connection.outbound.head?
  return { connection with writes := connection.writes ++ [(.header, front.header.bytes)] }

def writeBody (connection : Connection) : Option Connection := do
  let front ← connection.outbound.head?
  return { connection with writes := connection.writes ++ [(.body, front.body)] }

/-- The handler that `send_message` posts. -/
def sendMessage (connection : Connection) (msg : Message) : Option Connection :=
  let writingHeader := !connection.outbound.isEmpty
  let queued := { connection with outbound := connection.outbound ++ [msg] }
  if !writingHeader then queued.writeHeader else some queued

/-- The front message is done: the next one's header follows, if there is one. -/
def nextMessage (connection : Connection) : Option Connection :=
  match connection.outbound with
  | [] => none
  | _ :: rest =>
    if rest.isEmpty then some { connection with outbound := rest }
    else { connection with outbound := rest }.writeHeader

/-- The completion of `write_header`. -/
def headerWritten (connection : Connection) (ok : Bool) : Option Connection :=
  if ok then do
    let front ← connection.outbound.head?
    if front.body.length > 0 then connection.writeBody else connection.nextMessage
  else some connection.disconnect

/-- The completion of `write_body`. -/
def bodyWritten (connection : Connection) (ok : Bool) : Option Connection :=
  if ok then connection.nextMessage else some connection.disconnect

/-- The completion of the write that was started first. -/
def written (connection : Connection) (ok : Bool) : Option Connection :=
  match connection.writes with
  | [] => none
  | (.header, _) :: writes => { connection with writes }.headerWritten ok
  | (.body, _) :: writes => { connection with writes }.bodyWritten ok

/-! ### Reading -/

def readHeader (connection : Connection) : Connection :=
  { connection with reads := connection.reads ++ [(.header, headerSize)] }

def readBody (connection : Connection) : Connection :=
  { connection with reads := connection.reads ++ [(.body, connection.tempIn.body.length)] }

/-- `add_to_incomming`: what it pushes, and the next read. -/
def addToIncomming (connection : Connection) : Connection × Option OwnedMessage :=
  (connection.readHeader, some {
    remote := match connection.owner with
      | .server => some connection.id
      | .client => none
    msg := connection.tempIn })

/-- `resize` cuts a vector or fills it with zeros. -/
def resize (body : Bytes) (size : Nat) : Bytes := body.take size ++ List.replicate (size - body.length) 0

/-- The completion of `read_header`. An empty body is not read, and `m_temp_in` keeps
the body it has. -/
def headerRead (connection : Connection) (data : Bytes) : Connection × Option OwnedMessage :=
  let header := MessageHeader.ofBytes data
  if header.size > 0 then
    ({ connection with tempIn := { connection.tempIn with
        header, body := resize connection.tempIn.body header.size.toNat } }.readBody, none)
  else { connection with tempIn := { connection.tempIn with header } }.addToIncomming

/-- The completion of `read_body`. -/
def bodyRead (connection : Connection) (data : Bytes) : Connection × Option OwnedMessage :=
  { connection with tempIn := { connection.tempIn with body := data } }.addToIncomming

/-- The completion of the read that was started first, over the bytes it has taken. -/
def received (connection : Connection) (data : Bytes) : Option (Connection × Option OwnedMessage) :=
  match connection.reads with
  | [] => none
  | (.header, _) :: reads => some ({ connection with reads }.headerRead data)
  | (.body, _) :: reads => some ({ connection with reads }.bodyRead data)

/-- `connect_to_client`. -/
def connectToClient (connection : Connection) (id : UInt32) : Connection :=
  if connection.owner = .server ∧ connection.isOpen = true then
    { connection with connected := true, id }.readHeader
  else connection

/-- `connect_to_server`, when the connect succeeds. -/
def connectToServer (connection : Connection) : Connection :=
  if connection.owner = .client then { connection with connected := true }.readHeader else connection

@[simp] theorem length_resize (body : Bytes) (size : Nat) : (resize body size).length = size := by
  simp only [resize, List.length_append, List.length_take, List.length_replicate]
  omega

/-- The header of a message without a body completes it; the body in the buffer stays. -/
theorem headerRead_blank (connection : Connection) {header : MessageHeader} (blank : header.size.toNat = 0) :
    connection.headerRead header.bytes =
      { connection with tempIn := { connection.tempIn with header } }.addToIncomming := by
  have none_ : ¬ header.size > 0 := by
    rw [gt_iff_lt, UInt32.lt_iff_toNat_lt, blank]
    exact Nat.lt_irrefl 0
  rw [headerRead, MessageHeader.ofBytes_bytes, if_neg none_]

/-- The header of a message with a body makes room for it and leads to its read. -/
theorem headerRead_sized (connection : Connection) {header : MessageHeader} (sized : 0 < header.size.toNat) :
    connection.headerRead header.bytes =
      ({ connection with tempIn := { connection.tempIn with
          header, body := resize connection.tempIn.body header.size.toNat } }.readBody, none) := by
  have some_ : header.size > 0 := UInt32.lt_iff_toNat_lt.mpr sized
  rw [headerRead, MessageHeader.ofBytes_bytes, if_pos some_]

theorem nextMessage_eq (connection : Connection) (msg : Message) (rest : List Message)
    (queue : connection.outbound = msg :: rest) : connection.nextMessage = some { connection with
      outbound := rest
      writes := connection.writes ++
        (rest.head?.map (fun next => (Part.header, next.header.bytes))).toList } := by
  unfold nextMessage
  rw [queue]
  cases rest with
  | nil => simp
  | cons next others => rfl

/-! ### Whether a handler leaves the connection connected -/

theorem isConnected_disconnect (connection : Connection) : connection.disconnect.isConnected = false := by
  unfold disconnect
  split
  · exact Bool.and_false _
  · rename_i gone
    exact Bool.not_eq_true _ ▸ gone

theorem isConnected_writeHeader {connection next : Connection}
    (begun : connection.writeHeader = some next) : next.isConnected = connection.isConnected := by
  obtain ⟨front, _, begun⟩ := Option.bind_eq_some_iff.mp begun
  cases begun
  rfl

theorem isConnected_sendMessage {connection next : Connection} {msg : Message}
    (handled : connection.sendMessage msg = some next) : next.isConnected = connection.isConnected := by
  unfold sendMessage at handled
  dsimp only at handled
  split at handled
  · have same := isConnected_writeHeader handled
    exact same
  · cases handled
    rfl

theorem isConnected_nextMessage {connection next : Connection}
    (moved : connection.nextMessage = some next) : next.isConnected = connection.isConnected := by
  cases queue : connection.outbound with
  | nil =>
    unfold nextMessage at moved
    rw [queue] at moved
    cases moved
  | cons front rest =>
    rw [nextMessage_eq connection front rest queue] at moved
    cases moved
    rfl

/-- A write that fails disconnects; one that succeeds changes nothing about it. -/
theorem isConnected_written {connection next : Connection} {ok : Bool}
    (handled : connection.written ok = some next) : next.isConnected = (ok && connection.isConnected) := by
  unfold written at handled
  cases ok with
  | false =>
    split at handled
    · cases handled
    · cases handled
      exact isConnected_disconnect _
    · cases handled
      exact isConnected_disconnect _
  | true =>
    split at handled
    · cases handled
    · obtain ⟨front, _, handled⟩ := Option.bind_eq_some_iff.mp handled
      split at handled
      · obtain ⟨_, _, handled⟩ := Option.bind_eq_some_iff.mp handled
        cases handled
        rfl
      · have same := isConnected_nextMessage handled
        exact same
    · have same := isConnected_nextMessage handled
      exact same

end Connection

end Wallchanger.Net
