import AnyRpc.Library.StateError
import AnyRpc.Stream.WriteSegmented

/-! # Connections

The part of a server's connection that sends a response: `TcpSocket::Send`,
`Connection::WriteResponse` and the branch of `Connection::Process` that calls it. What the kernel
does is a sequence of answers; where the next answer is still outstanding, so is the computation. -/

namespace AnyRpc

open Library

/-! ## The socket -/

/-- What the kernel's `send` does with the bytes it is offered. -/
inductive KernelSend where
  /-- It accepts them, except for a number of them at the end. -/
  | accepted (left : ℕ)
  /-- It reports an error, which may be fatal to the connection. -/
  | failed (fatal : Bool)
  deriving DecidableEq, Repr

/-- One attempt of `Send`: the kernel's answer, the time in milliseconds since `Send` was called, and
whether `WaitWritable` finds the socket writable in the time that is left. -/
structure SendAttempt where
  result : KernelSend
  elapsed : ℕ := 0
  writable : Bool := true
  deriving DecidableEq, Repr

/-- The kernel has not answered yet. -/
inductive Pending where
  | pending
  deriving DecidableEq, Repr

/-- `TcpSocket`, with what it has put on the wire and the answers that the kernel is going to
give. -/
structure TcpSocket where
  sent : Bytes := []
  attempts : List SendAttempt := []
  timeout : ℕ := 0
  deriving Repr

namespace TcpSocket

/-- The loop of `Send`, with the number of bytes that are already written. -/
def sendLoop (buffer : Bytes) (timeout : ℕ) :
    List SendAttempt → ℕ → Bytes → EStateM.Result Pending TcpSocket (Bool × ℕ)
  | [], _, sent => .error .pending { sent, attempts := [], timeout }
  | attempt :: attempts, bytesWritten, sent =>
    -- Whether the loop goes on when not all is written.
    let retry := attempt.elapsed < timeout && attempt.writable
    match attempt.result with
    | .failed fatal =>
      if !fatal && retry then sendLoop buffer timeout attempts bytesWritten sent
      else .ok (false, bytesWritten) { sent, attempts, timeout }
    | .accepted left =>
      let numBytes := buffer.length - bytesWritten - left
      let sent := sent ++ (buffer.drop bytesWritten).take numBytes
      if buffer.length ≤ bytesWritten + numBytes then
        .ok (true, bytesWritten + numBytes) { sent, attempts, timeout }
      else if retry then sendLoop buffer timeout attempts (bytesWritten + numBytes) sent
      else .ok (false, bytesWritten + numBytes) { sent, attempts, timeout }

/-- `Send(buffer, length, bytesWritten)`: whether all was written, and how much. -/
def send (buffer : Bytes) : EStateM Pending TcpSocket (Bool × ℕ) := fun socket =>
  sendLoop buffer socket.timeout socket.attempts 0 socket.sent

end TcpSocket

/-! ## The connection -/

/-- `ConnectionState`. -/
inductive ConnectionState where
  | readHeader
  | readRequest
  | executeRequest
  | writeResponse
  | closeConnection
  deriving DecidableEq, Repr

/-- Where `request_` points. -/
inductive RequestPointer where
  | null
  /-- Into `buffer_`, at an offset. -/
  | inBuffer (offset : ℕ)
  /-- To an allocation of its own, `requestAllocated_`. -/
  | allocated
  deriving DecidableEq, Repr

/-- `Connection`. -/
structure Connection where
  socket : TcpSocket
  connectionState : ConnectionState
  /-- The first `bufferLength_` bytes of `buffer_`. -/
  buffer : Bytes := []
  /-- Number of bytes for the request body. -/
  contentLength : ℕ := 0
  keepAlive : Bool
  request : RequestPointer := .null
  /-- Number of bytes of the request body in the buffer. -/
  contentAvail : ℕ := 0
  header : WriteSegmentedStream
  headerBytesWritten : ℕ := 0
  response : WriteSegmentedStream
  resultBytesWritten : ℕ := 0

namespace Connection

/-- The data that `Initialize` leaves in `buffer_`. -/
def preservedBuffer (c : Connection) : Bytes :=
  match c.request with
  | .null => c.buffer
  | .inBuffer offset =>
    if c.contentLength < c.contentAvail then
      (c.buffer.drop (offset + c.contentLength)).take (c.contentAvail - c.contentLength)
    else []
  | .allocated => []

/-- `Initialize`. -/
def initializeData (preserveBufferData : Bool) (c : Connection) : Connection :=
  { c with
    buffer := if preserveBufferData then c.preservedBuffer else []
    contentLength := 0
    request := .null
    header := c.header.clear
    response := c.response.clear
    contentAvail := 0
    headerBytesWritten := 0
    resultBytesWritten := 0 }

/-- A call of `Send` on the socket of the connection. -/
def send (buffer : Bytes) : EStateM Pending Connection (Bool × ℕ) := fun c =>
  match c.socket.send buffer with
  | .ok r socket => .ok r { c with socket }
  | .error e socket => .error e { c with socket }

/-! ## Writing the response -/

/-- The loop over the header, where `some result` returns from `WriteResponse`. The offset into the
header is the number of bytes written of the body. -/
def writeHeader : ℕ → EStateM Pending Connection (Option Bool)
  | 0 => throw .pending
  | fuel + 1 => do
    let c ← get
    if c.headerBytesWritten < c.header.length then
      let buffer := c.header.getBuffer c.resultBytesWritten
      let (success, bytesWritten) ← send buffer
      if !success then
        modify (initializeData false)
        return some false
      modify fun c => { c with headerBytesWritten := c.headerBytesWritten + bytesWritten }
      if buffer.length < bytesWritten then
        return some true
      writeHeader fuel
    else return none

/-- The loop over the body, where `some result` returns from `WriteResponse`. -/
def writeBody : ℕ → EStateM Pending Connection (Option Bool)
  | 0 => throw .pending
  | fuel + 1 => do
    let c ← get
    if c.resultBytesWritten < c.response.length then
      let buffer := c.response.getBuffer c.resultBytesWritten
      let (success, bytesWritten) ← send buffer
      if !success then
        modify (initializeData false)
        return some false
      modify fun c => { c with resultBytesWritten := c.resultBytesWritten + bytesWritten }
      if buffer.length < bytesWritten then
        return some true
      writeBody fuel
    else return none

/-- `WriteResponse`. Every round of a loop uses up an answer of the kernel, so the loops end or wait
within as many rounds as there are answers, and one. -/
def writeResponse : EStateM Pending Connection Bool := do
  match ← writeHeader ((← get).socket.attempts.length + 1) with
  | some result => return result
  | none =>
    match ← writeBody ((← get).socket.attempts.length + 1) with
    | some result => return result
    | none =>
      modify fun c => { c with connectionState := .readHeader }
      let c ← get
      modify (initializeData c.keepAlive)
      return c.keepAlive

section

variable (readHeader readRequest executeRequest : EStateM Pending Connection Bool)

/-- One step of the loop of `Process`, given the other functions of the connection: the connection
is closed unless the function of the state it is in succeeds, and the result is `newMessage`. -/
def processState (executeAfterRead : Bool) : EStateM Pending Connection Bool := do
  if (← get).connectionState = .readHeader then
    if !(← readHeader) then
      return ← close
  if (← get).connectionState = .readRequest then
    if !(← readRequest) then
      return ← close
  let mut newMessage := false
  if executeAfterRead && (← get).connectionState = .executeRequest then
    if !(← executeRequest) then
      return ← close
    newMessage ← moreData
  if (← get).connectionState = .writeResponse then
    if !(← writeResponse) then
      return ← close
    newMessage ← moreData
  return newMessage
where
  /-- The connection is to be closed, and the loop is left. -/
  close : EStateM Pending Connection Bool := do
    modify fun c => { c with connectionState := .closeConnection }
    return false
  /-- Whether the buffer holds the beginning of another message. -/
  moreData : EStateM Pending Connection Bool := do
    let c ← get
    return c.connectionState = .readHeader && c.buffer != []

/-- The rounds of `Process`, over all the calls of it, while the connection writes its response. -/
def serve (executeAfterRead : Bool) : ℕ → EStateM Pending Connection Unit
  | 0 => pure ()
  | n + 1 => do
    if (← get).connectionState = .writeResponse then
      let _ ← processState readHeader readRequest executeRequest executeAfterRead
      serve executeAfterRead n

end

end Connection

end AnyRpc
