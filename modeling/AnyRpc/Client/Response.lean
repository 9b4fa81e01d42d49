import AnyRpc.Client.Client
import AnyRpc.Json.Reader
import AnyRpc.MessagePack.Reader
import AnyRpc.Value.Integer
import AnyRpc.Value.Members
import AnyRpc.Xml.Reader

/-! # Responses

`ProcessResponse` of the handlers for JSON, for MessagePack and for XML. The result of a response that
is not accepted is a map with a code and a message. -/

namespace AnyRpc

open Library Reader

namespace ErrorCode

def responseParseError : BitVec 32 := BitVec.ofInt 32 (-32001)
def invalidResponse : BitVec 32 := BitVec.ofInt 32 (-32002)
def systemError : BitVec 32 := BitVec.ofInt 32 (-32400)

end ErrorCode

/-- What `ProcessResponse` works on: the argument `result`, and the local message. -/
structure Responding where
  result : Value := .invalid
  message : Value := .invalid
  deriving Repr

namespace Responding

/-- An operation on the result. -/
def onResult {α : Type} (p : Exec Value α) : Exec Responding α := fun s =>
  match p s.result with
  | .ok a result => .ok a { s with result }
  | .error f result => .error f { s with result }

/-- An operation on the message. -/
def onMessage {α : Type} (p : Exec Value α) : Exec Responding α := fun s =>
  match p s.message with
  | .ok a message => .ok a { s with message }
  | .error f message => .error f { s with message }

/-- The value that a reference into the message leads to. -/
def referred (ref : Exec Value ℕ) : Exec Responding Value := do
  let i ← onMessage ref
  match (← get).message.child? i with
  | some v => return v
  | none => throw .undefined

/-- The same for the result. -/
def ofResult (ref : Exec Value ℕ) : Exec Responding Value := do
  let i ← onResult ref
  match (← get).result.child? i with
  | some v => return v
  | none => throw .undefined

/-- `result.Assign(value)`. What is left in the place of the value is not looked at any more. -/
def assign (value : Value) : Exec Responding Unit := onResult (set value)

end Responding

open Responding

namespace ClientHandler

/-- `GenerateFaultResult`. -/
def generateFaultResult (errorCode : BitVec 32) (errorMsg : Bytes) : Exec Responding Unit :=
  onResult do
    Value.onChild (Value.member (ascii "code")) (set (Value.number (.ofInt errorCode)))
    Value.onChild (Value.member (ascii "message")) (set (Value.string errorMsg))

/-- A result that closes the connection. -/
def closing (errorCode : BitVec 32) (errorMsg : Bytes) : Exec Responding ProcessResponseEnum := do
  generateFaultResult errorCode errorMsg
  return .errorClose

/-- A response that is not valid. -/
def invalidResponse (errorMsg : Bytes) : Exec Responding ProcessResponseEnum :=
  closing ErrorCode.invalidResponse errorMsg

/-- `!allowed || get != expected`. -/
def rejected (allowed : Bool) (get : Exec Responding ℤ) (expected : ℤ) : Exec Responding Bool :=
  if allowed then do return decide ((← get) ≠ expected) else pure true

/-- `a && b`, where `b` is not computed unless `a` holds. -/
def andThen (a b : Exec Responding Bool) : Exec Responding Bool := do
  if ← a then b else return false

/-- The common parts of `ProcessResponse`: what is parsed is handed to a body, unless there is a parse
error. A body that throws has not yet decided for another outcome. -/
def process {τ : Type} (parsed : Except Fault (Parsed Document τ))
    (body : Exec Responding ProcessResponseEnum) : Exec Responding ProcessResponseEnum :=
  match parsed with
  | .error f => throw f
  | .ok reader =>
    catching (do
      if reader.hasParseError then
        closing ErrorCode.responseParseError (ascii "Response parse error, offset=" ++
          decimal reader.parseError.offset ++ ascii ", code=" ++
          decimalInt reader.parseError.code.toInt ++ ascii ", message=" ++ reader.parseError.message)
      else
        modify fun s => { s with message := reader.handler.value }
        body) fun fault =>
      closing ErrorCode.systemError (ascii "Unhandled system error, Code:" ++
        decimalInt fault.code.toInt ++ ascii ", Message:" ++ fault.message)

end ClientHandler

open ClientHandler

variable [Platform]

/-! ## MessagePack -/

namespace MessagePackClientHandler

/-- The response to a request, by its elements. -/
def processElements (type id fault msgResult : Value) (requestId : BitVec 32) :
    Exec Responding ProcessResponseEnum := do
  if ← rejected type.isInt type.getInt 1 then
    invalidResponse (ascii "Invalid response, wrong type")
  else if ← rejected id.isValid id.getUint requestId.toNat then
    invalidResponse (ascii "Invalid response, bad id")
  else
    match fault with
    | .null => do
      assign msgResult
      return .success
    | fault => do
      assign fault
      if ← andThen (onResult (Value.hasMember (ascii "code")))
          (onResult (Value.hasMember (ascii "message"))) then
        -- A standard fault response.
        return .errorKeepOpen
      else
        invalidResponse (ascii "Invalid response, wrong fault fields")

/-- The response to a request. -/
def processMessage (requestId : BitVec 32) : Exec Responding ProcessResponseEnum := do
  match (← get).message with
  | .array [type, id, fault, msgResult] _ => processElements type id fault msgResult requestId
  | _ => invalidResponse (ascii "Invalid response, response not an array of length 4")

/-- `MessagePackClientHandler::ProcessResponse`, with the byte that stands after the response. -/
def processResponse (response : Bytes) (beyond : UInt8) (requestId : BitVec 32)
    (notification : Bool) : Exec Responding ProcessResponseEnum :=
  if notification && response.isEmpty then
    pure .errorClose
  else
    process (MessagePackReader.parseStream (.inSituString response true false beyond) {})
      (processMessage requestId)

end MessagePackClientHandler

/-! ## JSON -/

namespace JsonClientHandler

/-- The error of a response is the result. The connection is kept open behind an error of the
application. -/
def processError : Exec Responding ProcessResponseEnum := do
  assign (← referred (Value.member (ascii "error")))
  if ← andThen (onResult (Value.hasMember (ascii "code")))
      (do return (← ofResult (Value.member (ascii "code"))).isInt) then
    let code ← (← ofResult (Value.member (ascii "code"))).getInt
    if code > -32300 || code < -32500 then
      return .errorKeepOpen
  return .errorClose

/-- The response to a request, with its members for the version and the id. -/
def processMembers (id rpc : Value) (requestId : BitVec 32) :
    Exec Responding ProcessResponseEnum := do
  if !(match rpc with | .string str => cString str = ascii "2.0" | _ => false) then
    invalidResponse (ascii "Invalid response, rpc version")
  else if ← rejected id.isUint id.getUint requestId.toNat then
    invalidResponse (ascii "Invalid response, bad id")
  else if ← onMessage (Value.hasMember (ascii "error")) then
    processError
  else if !(← onMessage (Value.hasMember (ascii "result"))) then
    invalidResponse (ascii "Invalid response, no result")
  else
    assign (← referred (Value.member (ascii "result")))
    return .success

/-- The response to a request. -/
def processMessage (requestId : BitVec 32) (notification : Bool) :
    Exec Responding ProcessResponseEnum := do
  match (← get).message with
  | .map _ _ =>
    if !(← onMessage (Value.hasMember (ascii "jsonrpc"))) then
      invalidResponse (ascii "Invalid response, missing jsonrpc member")
    else if !(← onMessage (Value.hasMember (ascii "id"))) then
      invalidResponse (ascii "Invalid response, missing id member")
    else
      let id ← referred (Value.member (ascii "id"))
      let rpc ← referred (Value.member (ascii "jsonrpc"))
      processMembers id rpc requestId
  | message =>
    if message.isInvalid && notification then
      -- The response to a notification, with a transport that requires one.
      return .success
    else
      invalidResponse (ascii "Invalid response, wrong message type")

/-- `JsonClientHandler::ProcessResponse`, with the byte that stands after the response. -/
def processResponse (response : Bytes) (beyond : UInt8) (requestId : BitVec 32)
    (notification : Bool) : Exec Responding ProcessResponseEnum :=
  process (JsonReader.parseStream (.inSituString response true false beyond) {})
    (processMessage requestId notification)

end JsonClientHandler

/-! ## XML -/

namespace XmlClientHandler

/-- A map looks like a fault response, whose fields are copied to the standard names. -/
def processFault (message : Value) : Exec Responding ProcessResponseEnum := do
  assign message
  if ← andThen (onResult (Value.hasMember (ascii "faultCode")))
      (onResult (Value.hasMember (ascii "faultString"))) then
    let code ← (← ofResult (Value.member (ascii "faultCode"))).getInt
    match ← ofResult (Value.member (ascii "faultString")) with
    | .string str => generateFaultResult (.ofInt 32 code) (cString str)
    | v => anyrpcThrow ErrorCode.valueAccess (ascii "Not String, type=" ++ decimal v.getType)
    return .errorKeepOpen
  else
    invalidResponse (ascii "Invalid response, wrong fault fields")

/-- The response to a request. -/
def processMessage : Exec Responding ProcessResponseEnum := do
  match (← get).message with
  | .map ms c => processFault (.map ms c)
  | .array [msgResult] _ =>
    assign msgResult
    return .success
  | _ => invalidResponse (ascii "Invalid response, wrong field types")

/-- `XmlClientHandler::ProcessResponse`, with the byte that stands after the response. -/
def processResponse (response : Bytes) (beyond : UInt8) : Exec Responding ProcessResponseEnum :=
  process (XmlReader.parseResponse (.inSituString response true false beyond) {}) processMessage

end XmlClientHandler

end AnyRpc
