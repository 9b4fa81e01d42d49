import AnyRpc.Client.Header
import AnyRpc.Connection.Process

/-! # Clients

`Client` with its two derived classes, `TcpClient` and `HttpClient`: what `Call`, `Post`,
`GetPostResult` and `Notify` do with the connection, the list of ids and the buffer for the response.
The protocol of the messages is a parameter, and so is the peer, which answers what is written to it.
What the kernel and the clock answer is given beforehand. -/

namespace AnyRpc

open Library

/-- `ProcessResponseEnum`. -/
inductive ProcessResponseEnum where
  | success
  | errorKeepOpen
  | errorClose
  deriving DecidableEq, Repr

/-- The `result` of an operation, over the values `υ` of a protocol. -/
inductive ClientResult (υ : Type) where
  | invalid
  | null
  /-- `GenerateFaultResult`. -/
  | fault (code : ℤ) (message : Bytes)
  | value (v : υ)
  deriving DecidableEq, Repr

/-- `AnyRpcErrorTransportError`. -/
def transportError : ℤ := -32300

/-- A request that is generated, with the state of the counter for ids behind it. -/
structure GeneratedRequest where
  success : Bool
  request : Bytes
  requestId : ℕ
  nextId : ℕ

/-- What a handler makes of a response of so many bytes. -/
structure ProcessedResponse (υ : Type) (n : ℕ) where
  outcome : ProcessResponseEnum
  result : ClientResult υ
  /-- What it leaves in the place of the response. -/
  response : Bytes
  length_response : response.length = n

/-- `ClientHandler`, over requests `π`, which are a method with its parameters. -/
structure ClientHandler (π υ : Type) where
  /-- `GenerateRequest`, for a call or a notification and with the counter for ids. -/
  generateRequest : π → Bool → ℕ → GeneratedRequest
  /-- `ProcessResponse`, with the id that is expected. -/
  processResponse : (response : Bytes) → ℕ → ProcessedResponse υ response.length

/-- A response that is handed to `ProcessResponse`. -/
structure Handed where
  requestId : ℕ
  response : Bytes
  contentLength : ℕ
  contentAvail : ℕ
  deriving DecidableEq, Repr

/-- `Client`, with the members `ρ` of a derived class. A record of the messages that are written and of
the responses that are handed over is kept beside it. -/
structure Client (ρ υ : Type) where
  /-- The socket is open, and `connect` was called. -/
  opened : Bool := false
  /-- What `IsConnected` is going to find of a socket that is open. -/
  checks : List Bool := []
  /-- What `GetTimeLeft` is going to return. -/
  timeLeft : List ℕ := []
  socket : TcpSocket := {}
  incoming : Incoming := {}
  header : WriteSegmentedStream := .newDefault
  request : WriteSegmentedStream := .newDefault
  requestId : List ℕ := []
  /-- `buffer_` with the members for the response. -/
  message : MessageBuffer
  responseProcessed : Bool := false
  /-- The counter of `ClientHandler` for ids. -/
  nextId : ℕ := 1
  /-- The argument `result` of the operation. -/
  result : ClientResult υ := .invalid
  /-- The members of the derived class. -/
  derived : ρ
  written : List Bytes := []
  handed : List Handed := []

/-- A computation on a client. -/
abbrev ClientM (ρ υ : Type) := EStateM Stop (Client ρ υ)

/-- What a derived class of `Client` provides. -/
structure ClientTransport (ρ υ : Type) where
  /-- `GenerateHeader`, on the streams for the header and for the request. -/
  generateHeader : WriteSegmentedStream → WriteSegmentedStream →
    WriteSegmentedStream × WriteSegmentedStream
  /-- `ProcessHeader(eof)`. -/
  processHeader : Bool → ClientM ρ υ HeaderResult
  /-- What it adds to `ResetTransaction`. -/
  resetTransaction : ρ → ρ
  /-- What it adds to `Close`. -/
  close : ρ → ρ
  /-- Whether the connection is left open behind a response. -/
  keepAlive : ρ → Bool
  /-- `TransportHasNotifyResponse`. -/
  hasNotifyResponse : Bool

namespace Client

variable {ρ υ : Type}

/-! ## Parts -/

/-- Change the buffer, if everything it stores lies inside. -/
def store (f : MessageBuffer → Option MessageBuffer) : ClientM ρ υ Unit := fun s =>
  match f s.message with
  | some message => .ok () { s with message }
  | none => .error .outOfBounds s

/-- `GetTimeLeft`. -/
def getTimeLeft : ClientM ρ υ ℕ := fun s =>
  match s.timeLeft with
  | [] => .error .pending s
  | t :: timeLeft => .ok t { s with timeLeft }

/-- `IsConnected`. -/
def isConnected : ClientM ρ υ Bool := fun s =>
  if s.opened then
    match s.checks with
    | [] => .error .pending s
    | check :: checks => .ok check { s with checks }
  else .ok false s

/-- `Receive` at an offset of `buffer_` or of `response_`, given by the way to store there. -/
def receive (storeAt : Bytes → MessageBuffer → Option MessageBuffer) (maxLength timeout : ℕ) :
    ClientM ρ υ Received := do
  match (← get).incoming.receive maxLength timeout with
  | none => throw .pending
  | some (received, incoming) =>
    modify fun s => { s with incoming }
    store fun m => if received.data = [] then some m else storeAt (received.data ++ [0]) m
    return received

/-- `Send`. -/
def send (buffer : Bytes) (timeout : ℕ) : ClientM ρ υ (Bool × ℕ) := fun s =>
  match TcpSocket.send buffer { s.socket with timeout } with
  | .ok sent socket => .ok sent { s with socket }
  | .error _ socket => .error .pending { s with socket }

/-! ## The functions of `Client` -/

variable (transport : ClientTransport ρ υ)

/-- `Close`. -/
def close : ClientM ρ υ Unit :=
  modify fun s => { s with opened := false, derived := transport.close s.derived }

/-- `ResetReceiveBuffer`. -/
def resetReceiveBuffer : ClientM ρ υ Unit := modify fun s => { s with message := s.message.discard }

/-- `ResetTransaction`. -/
def resetTransaction : ClientM ρ υ Unit := modify fun s => { s with
  message := s.message.clear
  responseProcessed := false
  header := s.header.clear
  request := s.request.clear
  derived := transport.resetTransaction s.derived }

/-- `PreserveReceiveBuffer`. -/
def preserveReceiveBuffer : ClientM ρ υ Unit := do
  store MessageBuffer.preserve
  modify fun s => { s with responseProcessed := true }

/-- `Reset`. -/
def reset : ClientM ρ υ Unit := do
  close transport
  resetReceiveBuffer
  resetTransaction transport
  modify fun s => { s with requestId := [] }

/-- `Connect`. A connection that is new has nothing to be received yet. -/
def connect : ClientM ρ υ Bool := do
  if ← isConnected then return true
  else
    close transport
    resetReceiveBuffer
    modify fun s => { s with opened := true, incoming.unread := [] }
    let _ ← getTimeLeft
    if ← isConnected then return true
    else
      modify fun s => { s with opened := false }
      return false

variable {π : Type} (handler : ClientHandler π υ)

/-- `GenerateRequest`. -/
def generateRequest (p : π) (notification : Bool) : ClientM ρ υ Bool := do
  let s ← get
  let generated := handler.generateRequest p notification s.nextId
  modify fun s => { s with
    request := s.request.put generated.request
    requestId := s.requestId ++ [generated.requestId]
    nextId := generated.nextId }
  return generated.success

/-- `GenerateHeader`. -/
def generateHeader : ClientM ρ υ Unit := modify fun s =>
  let (header, request) := transport.generateHeader s.header s.request
  { s with header, request }

/-- A loop of `WriteRequest`, over the segments of a stream; a segment that is sent uses up an answer
of the clock. -/
def writeStream (stream : WriteSegmentedStream) : ℕ → ℕ → ClientM ρ υ Bool
  | 0, _ => throw .pending
  | fuel + 1, bytesWritten => do
    if bytesWritten < stream.length then
      let timeLeft ← getTimeLeft
      let (success, written) ← send (stream.getBuffer bytesWritten) timeLeft
      if success then writeStream stream fuel (bytesWritten + written) else return false
    else return true

/-- What the peer sends for the messages that were written to it, which is appended for the last one. -/
abbrev Peer := List Bytes → Bytes

variable (peer : Peer)

/-- `WriteRequest`. The peer answers a message that is written. -/
def writeRequest : ClientM ρ υ Bool := do
  let s ← get
  if !(← writeStream s.header (s.timeLeft.length + 1) 0) then return false
  else if !(← writeStream s.request ((← get).timeLeft.length + 1) 0) then return false
  else
    modify fun s =>
      let written := s.written ++ [s.header.bytes ++ s.request.bytes]
      { s with written, incoming.unread := s.incoming.unread ++ peer written }
    return true

/-- The loop of `ReadHeader`. -/
def readHeaderLoop : ℕ → ClientM ρ υ Bool
  | 0 => throw .pending
  | fuel + 1 => do
    let bufferLength := (← get).message.bufferLength
    let received ← receive (MessageBuffer.storeBuffer bufferLength) (maxBufferLength - bufferLength) 0
    if received.fatal then return false
    else
      modify fun s => { s with message.bufferLength := bufferLength + received.data.length }
      match ← transport.processHeader received.eof with
      | .complete => return true
      | .fault => return false
      | .incomplete =>
        if (← getTimeLeft) = 0 then
          modify fun s => { s with
            result := .fault transportError (ascii "Timeout reading response header") }
          return false
        else readHeaderLoop fuel

/-- `ReadHeader`. Every round that another one follows uses up an answer of the clock. -/
def readHeader : ClientM ρ υ Bool := do readHeaderLoop transport ((← get).timeLeft.length + 1)

/-- `ReadResponse`. -/
def readResponse : ClientM ρ υ Bool := do
  let m := (← get).message
  if m.contentLength ≤ m.contentAvail then return true
  else
    let timeLeft ← getTimeLeft
    let received ← receive (MessageBuffer.storeContent m.contentAvail)
      (m.contentLength - m.contentAvail) timeLeft
    let contentAvail := m.contentAvail + received.data.length
    modify fun s => { s with message.contentAvail := contentAvail }
    store (MessageBuffer.storeContent contentAvail [0])
    if !received.success then
      modify fun s => { s with result := .fault transportError (ascii "Failed reading response") }
      return false
    else return true

/-- `ProcessResponse`. -/
def processResponse : ClientM ρ υ ProcessResponseEnum := do
  let s ← get
  -- There should be an id in the list, but in case there isn't the default id is 0.
  let requestId := s.requestId.head?.getD 0
  let response := s.message.body s.message.contentLength
  let processed := handler.processResponse response requestId
  store (MessageBuffer.storeContent 0 processed.response)
  modify fun s => { s with
    requestId := s.requestId.tail
    responseProcessed := true
    result := processed.result
    handed := s.handed ++
      [⟨requestId, response, s.message.contentLength, s.message.contentAvail⟩] }
  if !transport.keepAlive s.derived then close transport
  return processed.outcome

/-! ## The operations -/

/-- What `Call`, `Post` and `Notify` do until the request is written. -/
def sendRequest (p : π) (notification : Bool) : ClientM ρ υ Bool := do
  modify fun s => { s with result := .invalid }
  preserveReceiveBuffer
  resetTransaction transport
  if !(← connect transport) then return false
  else if !(← generateRequest handler p notification) then return false
  else
    generateHeader transport
    if ← writeRequest peer then return true
    else
      -- Retry the connection.
      close transport
      if !(← connect transport) then return false else writeRequest peer

/-- The way out of an operation that fails. -/
def fail : ClientM ρ υ Bool := do
  reset transport
  return false

/-- What `Call` and `GetPostResult` do once the header is there. -/
def finish : ClientM ρ υ Bool := do
  if !(← readResponse) then fail transport
  else
    match ← processResponse transport handler with
    | .success => return true
    | .errorKeepOpen => return false
    | .errorClose => fail transport

/-- What `Notify` does once the header is there. -/
def finishNotify : ClientM ρ υ Bool := do
  if !(← readResponse) then fail transport
  else
    -- The response for a notification is not processed.
    modify fun s => { s with requestId := s.requestId.tail, result := .null }
    return true

/-- `Call`. -/
def call (p : π) : ClientM ρ υ Bool := do
  if !(← sendRequest transport handler peer p false) then fail transport
  else if !(← readHeader transport) then fail transport
  else finish transport handler

/-- `Post`. -/
def post (p : π) : ClientM ρ υ Bool := do
  if !(← sendRequest transport handler peer p false) then fail transport
  else return true

/-- `GetPostResult`. -/
def getPostResult : ClientM ρ υ Bool := do
  modify fun s => { s with result := .invalid }
  if (← get).responseProcessed then
    preserveReceiveBuffer
    resetTransaction transport
  if !(← isConnected) then fail transport
  else if !(← readHeader transport) then fail transport
  else finish transport handler

/-- `Notify`. -/
def notify (p : π) : ClientM ρ υ Bool := do
  if !(← sendRequest transport handler peer p true) then fail transport
  else if !transport.hasNotifyResponse then
    modify fun s => { s with requestId := s.requestId.tail }
    return true
  else if !(← readHeader transport) then fail transport
  else finishNotify transport

end Client

open Client

/-- An operation of `Client`. -/
inductive Operation (π : Type) where
  | call (p : π)
  | post (p : π)
  | getPostResult
  | notify (p : π)
  deriving DecidableEq, Repr

/-- An operation is carried out. -/
def Operation.run {ρ υ π : Type} (transport : ClientTransport ρ υ) (handler : ClientHandler π υ)
    (peer : Peer) : Operation π → ClientM ρ υ Bool
  | .call p => Client.call transport handler peer p
  | .post p => Client.post transport handler peer p
  | .getPostResult => Client.getPostResult transport handler
  | .notify p => Client.notify transport handler peer p

/-! ## Clients over TCP -/

namespace TcpClient

variable [IntOverflow] {υ : Type}

/-- `TcpClient::ProcessHeader`. -/
def processHeader (eof : Bool) : ClientM TcpFields υ HeaderResult := do
  let s ← get
  let header := s.message.data
  -- Search for the length/body separator.
  match findChar header 0x3a with
  | none => return if eof then .fault else .incomplete
  | some n =>
    if s.derived.commaExpected && header.head? != some 0x2c then return .fault
    else
      let contentLength := atoi (if s.derived.commaExpected then header.drop 1 else header)
      if contentLength ≤ 0 then return .fault
      else
        modify fun s => { s with
          message.contentLength := toSize contentLength
          message.contentAvail := header.length - (n + 1) }
        if maxContentLength < toSize contentLength then return .fault
        else
          store fun m => m.place m.heap (n + 1)
          store (MessageBuffer.storeContent (header.length - (n + 1)) [0])
          modify fun s => { s with derived.commaExpected := true }
          return .complete

/-- `TcpClient`. -/
def transport : ClientTransport TcpFields υ where
  generateHeader := generateHeader
  processHeader := processHeader
  resetTransaction := id
  close derived := { derived with commaExpected := false }
  keepAlive _ := true
  hasNotifyResponse := false

end TcpClient

/-! ## Clients over HTTP -/

namespace HttpClient

variable [IntOverflow] {υ : Type}

/-- `HttpClient::GenerateHeader`. -/
def generateHeader (contentType host : Bytes) (port : ℕ) (header request : WriteSegmentedStream) :
    WriteSegmentedStream × WriteSegmentedStream :=
  ([ascii "POST /RPC2 HTTP/1.1\r\n",
    ascii "User-Agent: ", ascii "AnyRPC", ascii " v", HttpConnection.versionString, ascii "\r\n",
    ascii "Host: ", host, ascii ":", decimal port, ascii "\r\n",
    ascii "Content-Type: ", contentType, ascii "\r\n",
    ascii "Accept: ", contentType, ascii "\r\n",
    ascii "Content-length: ", decimal request.length, ascii "\r\n",
    ascii "\r\n"].foldl .put header, request)

/-- `HttpClient::ProcessHeader`. -/
def processHeader (eof : Bool) : ClientM HttpResponse υ HeaderResult := do
  let s ← get
  let response := s.derived.processHeaderData s.message.data eof
  modify fun s => { s with derived := response }
  match response.headerResult with
  | .fault => return .fault
  | .incomplete => return .incomplete
  | .complete =>
    let contentLength := (max 0 response.contentLength).toNat
    let contentAvail := s.message.bufferLength - response.startIndex
    modify fun s => { s with
      message.contentLength := contentLength
      message.contentAvail := contentAvail }
    if maxContentLength < contentLength then return .fault
    else
      store fun m => m.place m.heap response.startIndex
      store (MessageBuffer.storeContent contentAvail [0])
      if response.derived.responseCode != ascii "200" then return .fault
      else return .complete

/-- `HttpClient`, for a content type and the address of a server. -/
def transport (contentType host : Bytes) (port : ℕ) : ClientTransport HttpResponse υ where
  generateHeader := generateHeader contentType host port
  processHeader := processHeader
  resetTransaction _ := .initial
  close := id
  keepAlive response := response.keepAlive
  hasNotifyResponse := true

end HttpClient

end AnyRpc
