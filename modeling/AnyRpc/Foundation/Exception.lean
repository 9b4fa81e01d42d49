import AnyRpc.Foundation.Text

/-! # Exceptions

`AnyRpcException` with its error codes, and the outcomes of a computation of the program that is
not a value: a thrown exception, or behaviour that the language leaves undefined. -/

namespace AnyRpc

/-- The common exception class: a code, a message and, for parse errors, the offset into the
document. -/
structure AnyRpcException where
  /-- Code for the error (an `int`). -/
  code : BitVec 32
  /-- Message associated with the error. -/
  message : Bytes
  /-- Offset from the start of the document for a parse error. -/
  offset : ℕ := 0
  deriving DecidableEq, Repr

namespace AnyRpcException

/-- `IsErrorSet`: code zero is `AnyRpcErrorNone`. -/
def isErrorSet (e : AnyRpcException) : Bool := e.code ≠ 0

/-- The default constructor, set to no error. -/
def none : AnyRpcException := { code := 0, message := [] }

end AnyRpcException

/-! ## Error codes

The members of `AnyRpcErrorCode` that the modelled functions raise. -/

namespace ErrorCode

/-- Accessing a Value as the wrong type. -/
def valueAccess : BitVec 32 := BitVec.ofInt 32 (-32401)
/-- Supplied string was not null terminated but required. -/
def stringNotTerminated : BitVec 32 := BitVec.ofInt 32 (-32402)
/-- Illegal assignment of Value. -/
def illegalAssignment : BitVec 32 := BitVec.ofInt 32 (-32403)
/-- Illegal access of array values. -/
def illegalArrayAccess : BitVec 32 := BitVec.ofInt 32 (-32404)
/-- Memory allocation failure. -/
def memoryAllocation : BitVec 32 := BitVec.ofInt 32 (-32405)
/-- Access to Value that was set to invalid. -/
def accessInvalidValue : BitVec 32 := BitVec.ofInt 32 (-32406)
/-- Illegal function call. -/
def illegalCall : BitVec 32 := BitVec.ofInt 32 (-32407)
/-- Attempt to overrun buffer with insitu string. -/
def bufferOverrun : BitVec 32 := BitVec.ofInt 32 (-32408)
/-- Expected Value to be set to invalid but it is not. -/
def accessNotInvalidValue : BitVec 32 := BitVec.ofInt 32 (-32409)
/-- Map count is not correct. -/
def mapCountWrong : BitVec 32 := BitVec.ofInt 32 (-32410)
/-- Array count is not correct. -/
def arrayCountWrong : BitVec 32 := BitVec.ofInt 32 (-32411)
/-- Error with the level for pretty printing xml. -/
def prettyPrintLevel : BitVec 32 := BitVec.ofInt 32 (-32413)
/-- Illegal Unicode character. -/
def unicodeValue : BitVec 32 := BitVec.ofInt 32 (-32414)
/-- Invalid utf8 sequence. -/
def utf8Sequence : BitVec 32 := BitVec.ofInt 32 (-32416)
/-- Null value in the middle of a string. -/
def nullInString : BitVec 32 := BitVec.ofInt 32 (-32418)
/-- RPC attempt to redefine function. -/
def functionRedefine : BitVec 32 := BitVec.ofInt 32 (-32605)
/-- RPC attempt to redefine method. -/
def methodRedefine : BitVec 32 := BitVec.ofInt 32 (-32604)
/-- RPC internal error. -/
def internalError : BitVec 32 := BitVec.ofInt 32 (-32603)
/-- RPC request was not valid. -/
def invalidRequest : BitVec 32 := BitVec.ofInt 32 (-32600)
/-- RPC method parameters invalid. -/
def invalidParams : BitVec 32 := BitVec.ofInt 32 (-32602)
/-- RPC method requested is not defined. -/
def methodNotFound : BitVec 32 := BitVec.ofInt 32 (-32601)
/-- Generic parse error. -/
def parseError : BitVec 32 := BitVec.ofInt 32 (-32700)
/-- Invalid value. -/
def valueInvalid : BitVec 32 := BitVec.ofInt 32 (-32705)
/-- Missing a name for object member. -/
def objectMissName : BitVec 32 := BitVec.ofInt 32 (-32706)
/-- Missing a colon after a name of object member. -/
def objectMissColon : BitVec 32 := BitVec.ofInt 32 (-32707)
/-- Missing a comma or '}' after an object member. -/
def objectMissCommaOrCurlyBracket : BitVec 32 := BitVec.ofInt 32 (-32708)
/-- Missing a comma or ']' after an array element. -/
def arrayMissCommaOrSquareBracket : BitVec 32 := BitVec.ofInt 32 (-32709)
/-- Incorrect hex digit after \u escape in string. -/
def stringUnicodeEscapeInvalid : BitVec 32 := BitVec.ofInt 32 (-32710)
/-- The surrogate pair in string is invalid. -/
def stringUnicodeSurrogateInvalid : BitVec 32 := BitVec.ofInt 32 (-32711)
/-- Invalid escape character in string. -/
def stringEscapeInvalid : BitVec 32 := BitVec.ofInt 32 (-32712)
/-- Missing a closing quotation mark in string. -/
def stringMissingQuotationMark : BitVec 32 := BitVec.ofInt 32 (-32713)
/-- Number too big to be stored in double. -/
def numberTooBig : BitVec 32 := BitVec.ofInt 32 (-32715)
/-- Miss fraction part in number. -/
def numberMissFraction : BitVec 32 := BitVec.ofInt 32 (-32716)
/-- Miss exponent in number. -/
def numberMissExponent : BitVec 32 := BitVec.ofInt 32 (-32717)
/-- Parsing was terminated. -/
def termination : BitVec 32 := BitVec.ofInt 32 (-32718)
/-- Parse error with xml tag. -/
def tagInvalid : BitVec 32 := BitVec.ofInt 32 (-32720)
/-- Feature not implemented. -/
def notImplemented : BitVec 32 := BitVec.ofInt 32 (-32722)
/-- Error during base64 decode. -/
def base64Invalid : BitVec 32 := BitVec.ofInt 32 (-32724)

end ErrorCode

/-- How a computation ends when it does not return. -/
inductive Fault where
  /-- An exception of the program, which a `catch (AnyRpcException&)` handles. -/
  | exception (e : AnyRpcException)
  /-- Behaviour the language leaves undefined; nothing catches it. -/
  | undefined
  /-- The bound of a loop or of the recursion depth of the model was too small. -/
  | outOfFuel
  deriving DecidableEq, Repr

/-- A computation of the program over the state `σ`: it returns or faults, and the state survives
either way. -/
abbrev Exec (σ α : Type) := EStateM Fault σ α

section

variable {σ α : Type}

/-- `anyrpc_throw(code, message)`, the message being the concatenation of what is streamed. -/
def anyrpcThrow (code : BitVec 32) (message : Bytes) : Exec σ α :=
  throw (.exception { code, message })

/-- `anyrpc_assert(condition, code, message)`, in the configuration that throws. -/
def anyrpcAssert (condition : Bool) (code : BitVec 32) (message : Bytes) : Exec σ Unit :=
  if condition then pure () else anyrpcThrow code message

/-- `try { ... } catch (const AnyRpcException& fault) { ... }`. -/
def catching (p : Exec σ α) (handler : AnyRpcException → Exec σ α) : Exec σ α := fun s =>
  match p s with
  | .error (.exception e) s' => handler e s'
  | r => r

/-- What returns is not handled. -/
theorem catching_of_ok {p : Exec σ α} {handler : AnyRpcException → Exec σ α} {s s' : σ} {a : α}
    (h : p s = .ok a s') : catching p handler s = .ok a s' := by
  rw [catching, h]

/-- An exception of the program is handled. -/
theorem catching_of_exception {p : Exec σ α} {handler : AnyRpcException → Exec σ α} {s s' : σ}
    {e : AnyRpcException} (h : p s = .error (.exception e) s') :
    catching p handler s = handler e s' := by
  rw [catching, h]

/-- Throwing ends a computation in the state that it is in. -/
@[simp] theorem anyrpcThrow_apply (code : BitVec 32) (message : Bytes) (s : σ) :
    (anyrpcThrow code message : Exec σ α) s = .error (.exception { code, message }) s := rfl

/-- An assertion that holds does nothing. -/
@[simp] theorem anyrpcAssert_true (code : BitVec 32) (message : Bytes) :
    (anyrpcAssert true code message : Exec σ Unit) = pure () := rfl

/-- An assertion that fails throws. -/
@[simp] theorem anyrpcAssert_false (code : BitVec 32) (message : Bytes) :
    (anyrpcAssert false code message : Exec σ Unit) = anyrpcThrow code message := rfl

end

end AnyRpc
