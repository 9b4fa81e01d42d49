import AnyRpc.Connection.MessageBuffer
import AnyRpc.Internal.Http

/-! # Connections that receive requests

`Connection` with its two derived classes, `TcpConnection` and `HttpConnection`: what `Process` does
with the bytes that arrive, from the header of a request to the response. Sending is the part of
`Connection` that is modelled on its own; memory is checked at every store. -/

namespace AnyRpc

open Library

/-- What ends a computation before it returns. -/
inductive Stop where
  /-- The kernel has not answered yet. -/
  | pending
  /-- Something would be stored outside of its block of memory. -/
  | outOfBounds
  deriving DecidableEq, Repr

/-- A handler's answer to a request whose body has so many bytes. -/
structure Reply (ω : Type) (n : ℕ) where
  /-- What the handler leaves in the place of the body. -/
  request : Bytes
  /-- What it writes to the response. -/
  response : Bytes
  /-- What it returns. -/
  sendResponse : Bool
  world : ω
  length_request : request.length = n

/-- `RpcHandler`, over what the methods of the manager keep. -/
abbrev RpcHandler (ω : Type) := (request : Bytes) → ω → Reply ω request.length

/-- What a derived class adds to `Initialize`. -/
class Transport (ρ : Type) where
  initializeData : ρ → ρ

/-- `Connection`, with the members `ρ` of a derived class. A record of the results of `Receive` and of
the requests that are executed is kept beside it. -/
structure ServerConnection (ρ ω ε : Type) where
  socket : TcpSocket := {}
  incoming : Incoming := {}
  connectionState : ConnectionState := .readHeader
  message : MessageBuffer
  keepAlive : Bool := false
  header : WriteSegmentedStream := .newDefault
  headerBytesWritten : ℕ := 0
  response : WriteSegmentedStream := .newDefault
  resultBytesWritten : ℕ := 0
  /-- The members of the derived class. -/
  derived : ρ
  world : ω
  /-- The bytes that each call of `Receive` returned. -/
  received : List Bytes := []
  /-- The requests that were executed. -/
  executed : List ε := []

/-- A computation on a connection. -/
abbrev ConnectionM (ρ ω ε : Type) := EStateM Stop (ServerConnection ρ ω ε)

namespace ServerConnection

variable {ρ ω ε : Type}

/-! ## Parts -/

/-- Change the buffer, if everything it stores lies inside. -/
def store (f : MessageBuffer → Option MessageBuffer) : ConnectionM ρ ω ε Unit := fun s =>
  match f s.message with
  | some message => .ok () { s with message }
  | none => .error .outOfBounds s

/-- `Receive` at an offset of `buffer_` or of `request_`, given by the way to store there. A null byte
is stored behind the bytes, once any have arrived. -/
def receive (storeAt : Bytes → MessageBuffer → Option MessageBuffer) (maxLength : ℕ) :
    ConnectionM ρ ω ε Received := do
  match (← get).incoming.receive maxLength 0 with
  | none => throw .pending
  | some (received, incoming) =>
    modify fun s => { s with
      incoming
      received := if received.success then s.received ++ [received.data] else s.received }
    store fun m => if received.data = [] then some m else storeAt (received.data ++ [0]) m
    return received

/-- The view of a connection that sends a response. -/
def sending (s : ServerConnection ρ ω ε) : Connection where
  socket := s.socket
  connectionState := s.connectionState
  buffer := s.message.data
  contentLength := s.message.contentLength
  keepAlive := s.keepAlive
  request := s.message.content
  contentAvail := s.message.contentAvail
  header := s.header
  headerBytesWritten := s.headerBytesWritten
  response := s.response
  resultBytesWritten := s.resultBytesWritten

/-- A computation of the part that sends. -/
def liftSending {α : Type} (p : EStateM Pending Connection α) : ConnectionM ρ ω ε α := fun s =>
  let sent (c : Connection) : ServerConnection ρ ω ε :=
    { s with
      socket := c.socket
      header := c.header
      headerBytesWritten := c.headerBytesWritten
      response := c.response
      resultBytesWritten := c.resultBytesWritten }
  match p s.sending with
  | .ok a c => .ok a (sent c)
  | .error _ c => .error .pending (sent c)

/-! ## The functions of `Connection` -/

section

variable [Transport ρ]

/-- `Initialize`. -/
def initializeData (preserveBufferData : Bool) : ConnectionM ρ ω ε Unit := do
  store fun m => (if preserveBufferData then m.preserve else some m.discard).map .clear
  modify fun s => { s with
    header := s.header.clear
    response := s.response.clear
    headerBytesWritten := 0
    resultBytesWritten := 0
    derived := Transport.initializeData s.derived }

/-- The way out of a function that gives up. -/
def giveUp : ConnectionM ρ ω ε Bool := do
  initializeData false
  return false

/-- `ReadRequest`. -/
def readRequest : ConnectionM ρ ω ε Bool := do
  let m := (← get).message
  if m.contentAvail < m.contentLength then
    let received ← receive (MessageBuffer.storeContent m.contentAvail)
      (m.contentLength - m.contentAvail)
    if !received.success then giveUp
    else
      let contentAvail := m.contentAvail + received.data.length
      modify fun s => { s with message := { s.message with contentAvail } }
      if contentAvail < m.contentLength then
        -- The end of the stream in the middle of a request is an error.
        if received.eof then giveUp else return true
      else finish
  else finish
where
  /-- The request is there; it is terminated, and ready to be executed. -/
  finish : ConnectionM ρ ω ε Bool := do
    let m := (← get).message
    store (MessageBuffer.storeContent m.contentAvail [0])
    modify fun s => { s with connectionState := .executeRequest }
    return true

/-- `WriteResponse`. -/
def writeResponse : ConnectionM ρ ω ε Bool := do
  match ← liftSending (Connection.writeHeader ((← get).socket.attempts.length + 1)) with
  | some result => if result then return true else giveUp
  | none =>
    match ← liftSending (Connection.writeBody ((← get).socket.attempts.length + 1)) with
    | some result => if result then return true else giveUp
    | none =>
      modify fun s => { s with connectionState := .readHeader }
      let keepAlive := (← get).keepAlive
      initializeData keepAlive
      return keepAlive

variable (readHeader executeRequest : ConnectionM ρ ω ε Bool)

/-- One round of the loop of `Process`, with `newMessage` as the result. -/
def processState (executeAfterRead : Bool) : ConnectionM ρ ω ε Bool := do
  if !(← inState .readHeader readHeader) then close
  else if !(← inState .readRequest readRequest) then close
  else
    let executing := executeAfterRead && (← get).connectionState = .executeRequest
    if !(← guarded executing executeRequest) then close
    else
      let writing := decide ((← get).connectionState = .writeResponse)
      if !(← inState .writeResponse writeResponse) then close
      -- After either of them there may be more data to process.
      else if executing || writing then moreData else return false
where
  /-- A function is called under a condition. -/
  guarded (condition : Bool) (f : ConnectionM ρ ω ε Bool) : ConnectionM ρ ω ε Bool :=
    if condition then f else pure true
  /-- The function for a state is called in this state. -/
  inState (state : ConnectionState) (f : ConnectionM ρ ω ε Bool) : ConnectionM ρ ω ε Bool := do
    guarded ((← get).connectionState = state) f
  /-- The connection is to be closed, and the loop is left. -/
  close : ConnectionM ρ ω ε Bool := do
    modify fun s => { s with connectionState := .closeConnection }
    return false
  /-- Whether the buffer holds the beginning of another message. -/
  moreData : ConnectionM ρ ω ε Bool := do
    let s ← get
    return s.connectionState = .readHeader && decide (0 < s.message.bufferLength)

/-- The loop of `Process`. -/
def processLoop (executeAfterRead : Bool) : ℕ → ConnectionM ρ ω ε Unit
  | 0 => throw .pending
  | fuel + 1 => do
    if ← processState readHeader executeRequest executeAfterRead then
      processLoop executeAfterRead fuel

/-- `Process`. A round that another one follows uses up an answer of the kernel, so the loop ends or
waits within as many rounds as there are answers, and one. -/
def process (executeAfterRead : Bool) : ConnectionM ρ ω ε Unit := do
  processLoop readHeader executeRequest executeAfterRead ((← get).incoming.attempts.length + 1)

end

end ServerConnection

open ServerConnection

/-! ## Connections over TCP -/

/-- The members that `TcpConnection` adds. -/
structure TcpFields where
  /-- A comma separator is expected before the next message. -/
  commaExpected : Bool := false
  deriving DecidableEq, Repr

instance : Transport TcpFields where
  initializeData := id

namespace TcpConnection

variable [IntOverflow] {ω : Type}

/-- `TcpConnection::ReadHeader`. -/
def readHeader : ConnectionM TcpFields ω Bytes Bool := do
  let bufferLength := (← get).message.bufferLength
  let received ← receive (MessageBuffer.storeBuffer bufferLength) (maxBufferLength - bufferLength)
  if !received.success then giveUp
  else
    modify fun s => { s with message.bufferLength := bufferLength + received.data.length }
    let s ← get
    let header := s.message.data
    -- Search for the length/body separator.
    match findChar header 0x3a with
    | none => if received.eof then giveUp else return true
    | some n =>
      if s.derived.commaExpected && header.head? != some 0x2c then giveUp
      else
        let contentLength := atoi (if s.derived.commaExpected then header.drop 1 else header)
        if contentLength ≤ 0 then giveUp
        else
          modify fun s => { s with
            message.contentLength := toSize contentLength
            message.contentAvail := header.length - (n + 1) }
          if maxContentLength < toSize contentLength then giveUp
          else
            store fun m => m.place m.heap (n + 1)
            store (MessageBuffer.storeContent (header.length - (n + 1)) [0])
            modify fun s => { s with
              derived.commaExpected := true
              keepAlive := true
              connectionState := .readRequest }
            return true

/-- `TcpConnection::ExecuteRequest`. -/
def executeRequest (handler : RpcHandler ω) : ConnectionM TcpFields ω Bytes Bool := do
  let s ← get
  let request := s.message.body s.message.contentLength
  let reply := handler request s.world
  store (MessageBuffer.storeContent 0 reply.request)
  modify fun s => { s with
    response := s.response.put reply.response
    world := reply.world
    executed := s.executed ++ [request] }
  if reply.sendResponse then
    modify fun s => { s with
      header := (s.header.put (decimal s.response.length)).put [0x3a]
      response := s.response.putChar 0x2c
      connectionState := .writeResponse }
    return true
  else
    modify fun s => { s with connectionState := .readHeader }
    initializeData true
    return true

/-- `Process` of a `TcpConnection`. -/
def process (handler : RpcHandler ω) (executeAfterRead : Bool) :
    ConnectionM TcpFields ω Bytes Unit :=
  ServerConnection.process readHeader (executeRequest handler) executeAfterRead

end TcpConnection

/-! ## Connections over HTTP -/

/-- `RpcContentHandler`. -/
structure RpcContentHandler (ω : Type) where
  handler : RpcHandler ω
  /-- `CanProcessContentType`, which matches a regular expression or searches for a text. -/
  canProcessContentType : Bytes → Bool
  responseContentType : Bytes

/-- The members that `HttpConnection` adds, with the list of handlers of the server. -/
structure HttpFields (ω : Type) where
  httpRequestState : HttpRequest
  handlers : List (RpcContentHandler ω)

instance [IntOverflow] {ω : Type} : Transport (HttpFields ω) where
  initializeData derived := { derived with httpRequestState := .initial }

/-- A request that is executed: method, content type and body. -/
structure HttpExecuted where
  method : Bytes
  contentType : Bytes
  body : Bytes
  deriving DecidableEq, Repr

namespace HttpConnection

variable [IntOverflow] {ω : Type}

/-- `HttpConnection::ReadHeader`. -/
def readHeader : ConnectionM (HttpFields ω) ω HttpExecuted Bool := do
  let bufferLength := (← get).message.bufferLength
  let received ← receive (MessageBuffer.storeBuffer bufferLength) (maxBufferLength - bufferLength)
  if !received.success then giveUp
  else
    modify fun s => { s with message.bufferLength := bufferLength + received.data.length }
    let s ← get
    let request := s.derived.httpRequestState.processHeaderData s.message.data received.eof
    modify fun s => { s with derived.httpRequestState := request }
    match request.headerResult with
    | .fault => giveUp
    | .incomplete => return true
    | .complete =>
      let contentLength := toSize request.contentLength
      modify fun s => { s with
        message.contentLength := contentLength
        message.contentAvail := s.message.bufferLength - request.startIndex
        keepAlive := request.keepAlive }
      if maxContentLength < contentLength then giveUp
      else
        store (MessageBuffer.place (fun _ => 0) request.startIndex)
        modify fun s => { s with connectionState := .readRequest }
        return true

/-- `ANYRPC_VERSION_STRING`. -/
def versionString : Bytes := ascii "1.0.2 (Release)"

/-- `GeneratePOSTResponseHeader`. -/
def generatePOSTResponseHeader (bodySize : ℕ) (contentType : Bytes) (keepAlive : Bool)
    (header : WriteSegmentedStream) : WriteSegmentedStream :=
  [ascii "HTTP/1.1 200 OK\r\n",
    ascii "Server: ", ascii "AnyRPC", ascii " v", versionString, ascii "\r\n",
    ascii (if keepAlive then "Connection: keep-alive\r\n" else "Connection: close\r\n"),
    ascii "Content-Type: ", contentType, ascii "\r\n",
    ascii "Content-length: ", decimal bodySize, ascii "\r\n",
    ascii "\r\n"].foldl .put header

/-- `GenerateOPTIONSResponseHeader`. -/
def generateOPTIONSResponseHeader (header : WriteSegmentedStream) : WriteSegmentedStream :=
  [ascii "HTTP/1.1 200 OK\r\n",
    ascii "Access-Control-Allow-Origin: *\r\n",
    ascii "Access-Control-Allow-Methods: POST\r\n",
    ascii "Access-Control-Max-Age: 1728000\r\n",
    ascii "Access-Control-Allow-Headers: Content-Type\r\n",
    ascii "Vary: Accept-Encoding, Origin\r\n",
    ascii "Keep-Alive: timeout=2, max=100\r\n",
    ascii "Connection: keep-alive\r\n",
    ascii "\r\n"].foldl .put header

/-- `GenerateErrorResponseHeader`. -/
def generateErrorResponseHeader (code : ℕ) (message : Bytes) (header : WriteSegmentedStream) :
    WriteSegmentedStream :=
  [ascii "HTTP/1.1 ", decimal code, ascii " ", message, ascii "\r\n",
    ascii "Connection: close\r\n",
    ascii "\r\n"].foldl .put header

/-- The handler for a content type, and the list of handlers after it has been used. A handler
without a content type for its responses takes over the one of the request. -/
def selectHandler (contentType : Bytes) :
    List (RpcContentHandler ω) → Option (RpcContentHandler ω × List (RpcContentHandler ω))
  | [] => none
  | h :: hs =>
    if h.canProcessContentType contentType then
      let h := if h.responseContentType = [] then { h with responseContentType := contentType }
        else h
      some (h, h :: hs)
    else (selectHandler contentType hs).map fun (h', hs) => (h', h :: hs)

/-- `HttpConnection::ExecuteRequest`. -/
def executeRequest : ConnectionM (HttpFields ω) ω HttpExecuted Bool := do
  let s ← get
  let state := s.derived.httpRequestState
  let request := s.message.body s.message.contentLength
  let method := state.derived.method
  if method = ascii "POST" then
    match selectHandler state.contentType s.derived.handlers with
    | none => giveUp
    | some (h, handlers) =>
      let reply := h.handler request s.world
      store (MessageBuffer.storeContent 0 reply.request)
      modify fun s => { s with
        response := s.response.put reply.response
        world := reply.world
        derived.handlers := handlers }
      modify fun s => { s with
        header := generatePOSTResponseHeader s.response.length h.responseContentType s.keepAlive
          s.header }
      finish ⟨method, state.contentType, request⟩
  else if method = ascii "OPTIONS" then
    modify fun s => { s with header := generateOPTIONSResponseHeader s.header }
    finish ⟨method, state.contentType, request⟩
  else
    modify fun s => { s with
      header := generateErrorResponseHeader 501 (ascii "Not Implemented") s.header }
    finish ⟨method, state.contentType, request⟩
where
  /-- The response is to be written. -/
  finish (request : HttpExecuted) : ConnectionM (HttpFields ω) ω HttpExecuted Bool := do
    modify fun s => { s with
      executed := s.executed ++ [request]
      connectionState := .writeResponse }
    return true

/-- `Process` of an `HttpConnection`. -/
def process (executeAfterRead : Bool) : ConnectionM (HttpFields ω) ω HttpExecuted Unit :=
  ServerConnection.process readHeader executeRequest executeAfterRead

end HttpConnection

end AnyRpc
