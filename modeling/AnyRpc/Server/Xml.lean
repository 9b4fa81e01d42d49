import AnyRpc.Server.Method
import AnyRpc.Value.Copy
import AnyRpc.Xml.Reader
import AnyRpc.Xml.Writer

/-! # The XML-RPC request handler

`XmlRpcHandler`. The method `system.multicall` executes the calls of an array, and is answered by the
array of their results. -/

namespace AnyRpc

open Library Reader Building

namespace Server

variable {ω : Type}

/-- `XmlGenerateFaultValue`. -/
def xmlGenerateFaultValue (errorCode : BitVec 32) (errorMsg : Bytes) : Exec Value Unit := do
  Value.onChild (Value.member (ascii "faultCode")) (set (Value.number (.ofInt errorCode)))
  Value.onChild (Value.member (ascii "faultString")) (set (Value.string errorMsg))

/-- An invalid result is answered as an empty string. -/
def resultOrEmpty (result : Value) : Value := if result.isInvalid then .string [] else result

/-! ## Multiple calls -/

/-- The test of `XmlExecuteMultiCall` for an entry that is no call. -/
def xmlRejected (singleParams : Value) : Except Fault Bool :=
  match (do
    if !singleParams.isMap then
      return true
    if !(← Value.hasMember (ascii "methodName")) then
      return true
    let i ← Value.member (ascii "methodName")
    if !((← get).child? i).any Value.isString then
      return true
    return !(← Value.hasMember (ascii "params")) : Exec Value Bool) singleParams with
  | .ok b _ => .ok b
  | .error f _ => .error f

/-- `singleParams[key]`, for a member that exists. -/
def xmlMember (key : Bytes) (singleParams : Value) : Except Fault Value :=
  match Value.member key singleParams with
  | .ok i v => .ok ((v.child? i).getD .invalid)
  | .error f _ => .error f

/-- A value that is read off a local one. -/
def reading {σ α : Type} (r : Except Fault α) : Exec σ α :=
  match r with
  | .ok a => pure a
  | .error f => throw f

/-- The body of the `try` block for the call at an index. The methods are given an invalid value for
their result. -/
def xmlExecuteCall (manager : MethodManager ω) (i : ℕ) (singleParams methodName : Value) :
    Exec (Building ω) Unit := do
  let params ← reading (xmlMember (ascii "params") singleParams)
  let name := match methodName with
    | .string str => cString str
    | _ => []
  match ← onServer (executeMethod manager name params) with
  | some singleResult =>
    onResult (Value.onChild (Value.element i)
      (Value.onChild (Value.element 0) (CopyOp.assign.run (resultOrEmpty singleResult))))
  | none =>
    onResult (Value.onChild (Value.element i)
      (xmlGenerateFaultValue ErrorCode.methodNotFound (ascii "Method not found")))

/-- The body of the loop of `XmlExecuteMultiCall`. -/
def xmlExecuteEntry (manager : MethodManager ω) (i : ℕ) (singleParams : Value) :
    Exec (Building ω) Unit := do
  if ← reading (xmlRejected singleParams) then
    onResult (Value.onChild (Value.element i)
      (xmlGenerateFaultValue ErrorCode.invalidRequest (ascii "Invalid request")))
  else
    let methodName ← reading (xmlMember (ascii "methodName") singleParams)
    let methodName ← reading methodName.copyInternal
    catching (xmlExecuteCall manager i singleParams methodName) fun fault =>
      onResult (Value.onChild (Value.element i) (xmlGenerateFaultValue fault.code fault.message))

/-- The loop of `XmlExecuteMultiCall`, from an index on. -/
def xmlExecuteEntries (manager : MethodManager ω) : List Value → ℕ → Exec (Building ω) Unit
  | [], _ => pure ()
  | entry :: entries, i => do
    xmlExecuteEntry manager i entry
    xmlExecuteEntries manager entries (i + 1)

/-- `XmlExecuteMultiCall`, on the elements of its array. -/
def xmlExecuteMultiCall (manager : MethodManager ω) (entries : List Value) :
    Exec (Building ω) Unit := do
  onResult (Value.setSize entries.length)
  xmlExecuteEntries manager entries 0

/-! ## The handler -/

variable [Platform] [DoubleDigits]

/-- `response.Put(text)`. -/
def putResponse (text : Bytes) : Exec (Server ω) Unit :=
  modify fun s => { s with response := s.response ++ text }

/-- `value.Traverse(xmlStrWriter)`. -/
def xmlTraverse (value : Value) : Exec (Server ω) Unit := fun s =>
  match Value.traverse value ({ os := s.response } : XmlWriter) with
  | .ok _ w => .ok () { s with response := w.os }
  | .error f w => .error f { s with response := w.os }

/-- `XmlGenerateResponse`. -/
def xmlGenerateResponse (result : Value) : Exec (Server ω) Unit := do
  putResponse (ascii "<?xml version=\"1.0\" encoding=\"utf-8\" ?>\r\n<methodResponse><params><param>")
  xmlTraverse result
  putResponse (ascii "</param></params></methodResponse>\r\n")

/-- `XmlGenerateFaultResponse`. -/
def xmlGenerateFaultResponse (errorCode : BitVec 32) (errorMsg : Bytes) :
    Exec (Server ω) Unit := do
  let faultValue ← build (onResult (xmlGenerateFaultValue errorCode errorMsg))
  putResponse (ascii "<?xml version=\"1.0\" encoding=\"utf-8\" ?>\r\n<methodResponse><fault>")
  xmlTraverse faultValue
  putResponse (ascii "</fault></methodResponse>\r\n")

/-- The processing of `system.multicall`. -/
def xmlProcessMultiCall (manager : MethodManager ω) (params : Value) : Exec (Server ω) Unit :=
  match params with
  | .array [.array entries _] _ => do
    xmlGenerateResponse (resultOrEmpty (← build (xmlExecuteMultiCall manager entries)))
  | _ => xmlGenerateFaultResponse ErrorCode.invalidParams (ascii "Invalid method parameters")

/-- The body of the `try` block of the handler. -/
def xmlExecute (manager : MethodManager ω) (methodName : Bytes) (params : Value) :
    Exec (Server ω) Unit := do
  match ← executeMethod manager methodName params with
  | some result => xmlGenerateResponse (resultOrEmpty result)
  | none => xmlGenerateFaultResponse ErrorCode.methodNotFound (ascii "Method not found")

/-- The parsing of a request in place, and the byte that stands after it. -/
def xmlParse (request : Bytes) (beyond : UInt8) : Except Fault (Parsed Document XmlReader × Bytes) :=
  XmlReader.parseRequest (.inSituString request true false beyond) {}

/-- `XmlRpcHandler`. -/
def xmlRpcHandler (manager : MethodManager ω) (request : Bytes) (beyond : UInt8) :
    Exec (Server ω) Bool := do
  match xmlParse request beyond with
  | .error f => throw f
  | .ok (reader, methodName) =>
    if reader.hasParseError then
      xmlGenerateFaultResponse ErrorCode.parseError (ascii "Parse error")
    else if methodName = ascii "system.multicall" then
      xmlProcessMultiCall manager reader.handler.value
    else
      catching (xmlExecute manager methodName reader.handler.value) fun fault =>
        xmlGenerateFaultResponse fault.code fault.message
    return true

end Server

end AnyRpc
