import AnyRpc.Json.Reader
import AnyRpc.Json.Writer
import AnyRpc.Server.Method
import AnyRpc.Value.Copy

/-! # The JSON-RPC request handler

`JsonRpcHandler`. A request is a map, and an array of requests is answered by an array of the
responses. Looking up a member that a request lacks adds it, and the members that are already
referred to may be moved for that. -/

namespace AnyRpc

open Library Reader Building

namespace Server

variable {ω : Type}

/-! ## Responses -/

/-- `JsonGenerateResponse`. -/
def jsonGenerateResponse (result id : Value) : Exec Value Unit := do
  if id.isValid then
    Value.onChild (Value.member (ascii "jsonrpc")) (set (Value.string (ascii "2.0")))
    Value.onChild (Value.member (ascii "id")) (CopyOp.assign.run id)
    Value.onChild (Value.member (ascii "result")) (set result)
  else
    set Value.invalid

/-- `JsonGenerateFaultResponse`. -/
def jsonGenerateFaultResponse (errorCode : BitVec 32) (errorMsg : Bytes) (id : Value) :
    Exec Value Unit := do
  Value.onChild (Value.member (ascii "jsonrpc")) (set (Value.string (ascii "2.0")))
  if id.isValid then
    Value.onChild (Value.member (ascii "id")) (CopyOp.assign.run id)
  Value.onChild (Value.member (ascii "error"))
    (Value.onChild (Value.member (ascii "code")) (set (Value.number (.ofInt errorCode))))
  Value.onChild (Value.member (ascii "error"))
    (Value.onChild (Value.member (ascii "message")) (set (Value.string errorMsg)))

/-- The response to a message that is malformed. -/
def jsonInvalidRequest (id : Value) : Exec (Building ω) Unit :=
  onResult (jsonGenerateFaultResponse ErrorCode.invalidRequest (ascii "Invalid Request") id)

/-! ## Requests -/

/-- What the references of `JsonExecuteSingleRequest` refer to. -/
structure JsonRequest where
  method : Value
  id : Value
  rpc : Value
  params : Value

/-- The capacity of a map. -/
def mapCapacity : Value → ℕ
  | .map _ c => c
  | _ => 0

/-- The four lookups. Those that refer to a member have lost it when a later one moves the members,
and all of them are used behind the last one. -/
def jsonLookUp : Exec Value JsonRequest := do
  let method ← Value.member (ascii "method")
  let allocated := mapCapacity (← get)
  let id ← Value.member (ascii "id")
  let rpc ← Value.member (ascii "jsonrpc")
  let params ← Value.member (ascii "params")
  let message ← get
  if mapCapacity message ≠ allocated then
    throw .undefined
  let referred (i : ℕ) := (message.child? i).getD .invalid
  return { method := referred method, id := referred id, rpc := referred rpc,
           params := referred params }

/-- The body of the `try` block. -/
def jsonExecute (manager : MethodManager ω) (methodName : Bytes) (id params : Value) :
    Exec (Building ω) Unit := do
  match ← onServer (executeMethod manager methodName params) with
  | none =>
    onResult (jsonGenerateFaultResponse ErrorCode.methodNotFound (ascii "Method not found") id)
  | some result =>
    if id.isValid then
      onResult (jsonGenerateResponse result id)

/-- `JsonExecuteSingleRequest`, behind the lookups. -/
def jsonExecuteRequest (manager : MethodManager ω) (request : JsonRequest) :
    Exec (Building ω) Unit :=
  match request.method, request.rpc with
  | .string methodName, .string rpc =>
    if cString rpc ≠ ascii "2.0" then jsonInvalidRequest request.id
    else if request.params.isInvalid then jsonInvalidRequest request.id
    else
      catching (jsonExecute manager (cString methodName) request.id request.params) fun fault =>
        onResult (jsonGenerateFaultResponse fault.code fault.message request.id)
  | _, _ => jsonInvalidRequest request.id

/-- `JsonExecuteSingleRequest`. -/
def jsonExecuteSingleRequest (manager : MethodManager ω) (message : Value) :
    Exec (Building ω) Unit :=
  match jsonLookUp message with
  | .ok request _ => jsonExecuteRequest manager request
  | .error f _ => throw f

/-- The loop over the requests of an array, with the number of responses before. -/
def jsonExecuteRequests (manager : MethodManager ω) : List Value → ℕ → Exec (Building ω) Unit
  | [], _ => pure ()
  | message :: messages, outIndex => do
    let singleResponse ← onServer (build (jsonExecuteSingleRequest manager message))
    if singleResponse.isValid then
      onResult (Value.onChild (Value.element outIndex) (set singleResponse))
      jsonExecuteRequests manager messages (outIndex + 1)
    else
      jsonExecuteRequests manager messages outIndex

/-- The processing of a message. -/
def jsonProcess (manager : MethodManager ω) (message : Value) : Exec (Building ω) Unit :=
  match message with
  | .map _ _ => jsonExecuteSingleRequest manager message
  | .array (m :: ms) _ => jsonExecuteRequests manager (m :: ms) 0
  | _ => jsonInvalidRequest .null

variable [Platform]

/-- `valueResponse.Traverse(jsonStrWriter)`. -/
def jsonRespond (valueResponse : Value) : Exec (Server ω) Unit := fun s =>
  match Value.traverse valueResponse ({ os := s.response } : JsonWriter) with
  | .ok _ w => .ok () { s with response := w.os }
  | .error f w => .error f { s with response := w.os }

/-- The parsing of a request in place, and the byte that stands after it. -/
def jsonParse (request : Bytes) (beyond : UInt8) : Except Fault (Parsed Document JsonReader) :=
  JsonReader.parseStream (.inSituString request true false beyond) {}

/-- The value of the response to a request, not assigned where there is none. -/
def jsonAnswer (manager : MethodManager ω) (reader : Parsed Document JsonReader) :
    Exec (Building ω) Unit :=
  if reader.hasParseError then
    onResult (jsonGenerateFaultResponse ErrorCode.parseError (ascii "Parse error") .null)
  else jsonProcess manager reader.handler.value

/-- `JsonRpcHandler`. -/
def jsonRpcHandler (manager : MethodManager ω) (request : Bytes) (beyond : UInt8) :
    Exec (Server ω) Bool := do
  match jsonParse request beyond with
  | .error f => throw f
  | .ok reader =>
    let valueResponse ← build (jsonAnswer manager reader)
    if valueResponse.isInvalid then
      return false
    else
      jsonRespond valueResponse
      return true

end Server

end AnyRpc
