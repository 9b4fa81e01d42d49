import AnyRpc.Handler.Event
import AnyRpc.Internal.Base64
import AnyRpc.Reader.Number

/-! # The XML writer

What `XmlWriter` writes on each call. A string is written without a tag of its own, and a double
without an exponent unless a precision is set. -/

namespace AnyRpc

open Library

/-- The operations on doubles with which one is written digit by digit. -/
class DoubleDigits where
  /-- Subtraction of doubles. -/
  sub : BitVec 64 → BitVec 64 → BitVec 64
  /-- The comparison `<` of doubles. -/
  lt : BitVec 64 → BitVec 64 → Bool
  /-- `(int)floor(log10(d))`, where it is defined. -/
  power : BitVec 64 → Option ℤ
  /-- The conversion of a `double` to an `unsigned`, where it is defined. -/
  toUnsigned : BitVec 64 → Option ℕ

/-- Operations for examples that write no double. -/
@[reducible]
def DoubleDigits.blank : DoubleDigits where
  sub _ _ := 0
  lt _ _ := false
  power _ := none
  toUnsigned _ := none

/-- `XmlWriter`, with what is written to its stream. -/
structure XmlWriter where
  os : Bytes := []
  pretty : Bool := false
  level : ℤ := 0
  precision : ℕ := 0
  deriving DecidableEq, Repr

namespace XmlWriter

/-- `os_.Put`. -/
def put (str : Bytes) : Exec XmlWriter Unit := modify fun w => { w with os := w.os ++ str }

/-- `snprintf` to a buffer of 100 bytes, and what is put of it. A text that fills the buffer lacks
its last byte and is put with the terminator; what is longer is read beyond the buffer. -/
def putBuffer (text : Bytes) : Exec XmlWriter Unit :=
  if text.length < 100 then put text
  else if text.length = 100 then put (text.take 99 ++ [0])
  else throw .undefined

/-! ## Doubles -/

section

variable [Platform] [DoubleDigits]

/-- `std::numeric_limits<double>::epsilon()`. -/
def epsilon : BitVec 64 := 0x3cb0000000000000

/-- `LeadDigit`. -/
def leadDigit (value precision : BitVec 64) : Except Fault ℕ :=
  match DoubleDigits.toUnsigned (Platform.add value precision) with
  | some digit => .ok (min 9 digit)
  | none => .error .undefined

/-- What is left of a value behind its leading digit. -/
def nextValue (value : BitVec 64) (digit : ℕ) : BitVec 64 :=
  Platform.mul (DoubleDigits.sub value (Platform.doubleOfNat digit)) ParseNumber.ten

/-- `internal::DoubleExtractPower`. -/
def doubleExtractPower (d : BitVec 64) : Except Fault (BitVec 64 × ℤ) :=
  match DoubleDigits.power d with
  | none => .error .undefined
  | some p =>
    if 0 < p then do return (Platform.div d (← ParseNumber.pow10 p), p)
    else if -308 ≤ p then do return (Platform.mul d (← ParseNumber.pow10 (-p)), p)
    else do
      let d := Platform.mul d (← ParseNumber.pow10 308)
      return (Platform.mul d (← ParseNumber.pow10 (-308 - p)), p)

/-- The digits before the decimal point, from a power on. Past the precision there are zeros. -/
def integerDigits : ℕ → BitVec 64 → BitVec 64 → Except Fault (Bytes × BitVec 64 × BitVec 64)
  | power, value, precision => do
    let digit ← leadDigit value precision
    let value := nextValue value digit
    let precision := Platform.mul precision ParseNumber.ten
    if DoubleDigits.lt value precision then
      return (digitChar digit :: List.replicate power 0x30, 0, precision)
    else
      match power with
      | 0 => return ([digitChar digit], value, precision)
      | power + 1 =>
        let (digits, value, precision) ← integerDigits power value precision
        return (digitChar digit :: digits, value, precision)

/-- The digits until the precision is reached, which takes less than twenty of them. -/
def fractionDigits : ℕ → BitVec 64 → BitVec 64 → Except Fault Bytes
  | 0, _, _ => .error .outOfFuel
  | fuel + 1, value, precision => do
    if DoubleDigits.lt precision value then
      let digit ← leadDigit value precision
      let digits ← fractionDigits fuel (nextValue value digit)
        (Platform.mul precision ParseNumber.ten)
      return digitChar digit :: digits
    else
      return []

/-- More turns than a value takes until it is below a precision that grows tenfold with each. -/
def maxDigits : ℕ := 400

/-- `DoubleToStream`, for a value that is not negative. -/
def positiveText (value : BitVec 64) : Except Fault Bytes := do
  let (value, power) ← doubleExtractPower value
  if 0 ≤ power then
    let (digits, value, precision) ← integerDigits power.toNat value epsilon
    if DoubleDigits.lt precision value then
      return digits ++ 0x2e :: (← fractionDigits maxDigits value precision)
    else
      return digits
  else
    let digits ← fractionDigits maxDigits value epsilon
    return ascii "0." ++ (List.replicate (-(power + 1)).toNat 0x30 ++ digits)

/-- `DoubleToStream`. -/
def doubleText (value : BitVec 64) : Except Fault Bytes :=
  if !Platform.ne value 0 then .ok [0x30]
  else if DoubleDigits.lt value 0 then do
    return 0x2d :: (← positiveText (Platform.neg value))
  else positiveText value

end

/-! ## Strings -/

/-- How a byte of a string is written: as an entity or a character reference, or as it is. -/
def escape (c : UInt8) : Bytes :=
  if c = 0x3c then ascii "&lt;"
  else if c = 0x3e then ascii "&gt;"
  else if c = 0x26 then ascii "&amp;"
  else if c = 0x27 then ascii "&apos;"
  else if c = 0x22 then ascii "&quot;"
  else if c < 0x20 ∧ c ≠ 0x09 ∧ c ≠ 0x0a ∧ c ≠ 0x0d then
    ascii "&#x" ++ [hexDigit (c.toNat >>> 4), hexDigit (c.toNat &&& 0xF)] ++ ascii ";"
  else [c]

/-- `StringData`. -/
def stringData : Bytes → Exec XmlWriter Unit
  | [] => pure ()
  | c :: str => do
    if c = 0 then
      anyrpcThrow ErrorCode.nullInString (ascii "Null value detection in string")
    put (escape c)
    stringData str

/-! ## Layout -/

/-- `StartLine`. -/
def startLine : Exec XmlWriter Unit := do
  let w ← get
  if w.pretty then
    put (0x0a :: List.replicate w.level.toNat 0x09)

/-- `StartToken`. -/
def startToken (token : Bytes) : Exec XmlWriter Unit := do
  put token
  modify fun w => if w.pretty then { w with level := w.level + 1 } else w

/-- `EndToken`. -/
def endToken (token : Bytes) : Exec XmlWriter Unit := do
  if (← get).pretty then
    modify fun w => { w with level := w.level - 1 }
    anyrpcAssert (0 ≤ (← get).level) ErrorCode.prettyPrintLevel
      (ascii "Pretty printing level underflow")
    startLine
  put token

/-! ## The calls -/

variable [Platform] [DoubleDigits]

/-- `Double`. -/
def double (d : BitVec 64) : Exec XmlWriter Unit := do
  put (ascii "<value><double>")
  let precision := (← get).precision
  if 0 < precision then
    putBuffer (Platform.formatG precision d)
  else
    match doubleText d with
    | .ok text => put text
    | .error f => throw f
  put (ascii "</double></value>")

/-- `DateTime`. -/
def dateTime (dt : ℤ) : Exec XmlWriter Unit := do
  put (ascii "<value><dateTime.iso8601>")
  putBuffer (dateTimeText (Platform.localtime dt))
  put (ascii "</dateTime.iso8601></value>")

/-- `String`. -/
def string (str : Bytes) : Exec XmlWriter Unit := do
  put (ascii "<value>")
  stringData str
  put (ascii "</value>")

/-- `Binary`. -/
def binary (str : Bytes) : Exec XmlWriter Unit := do
  put (ascii "<value><base64>")
  put (Internal.base64Encode str)
  put (ascii "</base64></value>")

/-- An integer, between its tags. -/
def integer (openTag digits closeTag : Bytes) : Exec XmlWriter Unit := do
  put openTag
  put digits
  put closeTag

/-- `Int` and `Uint`. -/
def i4 (digits : Bytes) : Exec XmlWriter Unit :=
  integer (ascii "<value><i4>") digits (ascii "</i4></value>")

/-- `Int64` and `Uint64`. -/
def i8 (digits : Bytes) : Exec XmlWriter Unit :=
  integer (ascii "<value><i8>") digits (ascii "</i8></value>")

/-- The call that delivers a scalar. -/
def scalar : Scalar → Exec XmlWriter Unit
  | .null => put (ascii "<value><nil/></value>")
  | .boolTrue => put (ascii "<value><boolean>1</boolean></value>")
  | .boolFalse => put (ascii "<value><boolean>0</boolean></value>")
  | .dateTime dt => dateTime dt
  | .string str => string str.bytes
  | .binary str => binary str.bytes
  | .int i => i4 (decimalInt i.toInt)
  | .uint u => i4 (decimal u.toNat)
  | .int64 i64 => i8 (decimalInt i64.toInt)
  | .uint64 u64 => i8 (decimal u64.toNat)
  | .float f => double (Platform.floatToDouble f)
  | .double d => double d

/-- `Key`. -/
def key (str : Bytes) : Exec XmlWriter Unit := do
  startLine
  startToken (ascii "<member>")
  startLine
  put (ascii "<name>")
  stringData str
  put (ascii "</name>")
  startLine

/-- `EndMap`. -/
def endMap (memberCount : ℕ) : Exec XmlWriter Unit := do
  if 0 < memberCount then
    endToken (ascii "</member>")
  endToken (ascii "</struct></value>")

/-- `StartArray`. -/
def startArray (elementCount : ℕ) : Exec XmlWriter Unit := do
  startToken (ascii "<value><array><data>")
  if elementCount ≠ 0 then
    startLine

/-- The start of an array has to announce the number of elements. -/
instance : Handler XmlWriter where
  handle
    | .scalar s => scalar s
    | .startMap _ => startToken (ascii "<value><struct>")
    | .key str => key str.bytes
    | .mapSeparator => endToken (ascii "</member>")
    | .endMap memberCount => endMap memberCount
    | .startArray (some elementCount) => startArray elementCount
    | .startArray none => anyrpcThrow ErrorCode.illegalCall (ascii "Illegal call")
    | .arraySeparator => startLine
    | .endArray _ => endToken (ascii "</data></array></value>")

end XmlWriter

end AnyRpc
