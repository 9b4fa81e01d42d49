import AnyRpc.Document.Document
import AnyRpc.Foundation.Utf8
import AnyRpc.Handler.Event
import AnyRpc.Internal.Base64

/-! # The JSON writer

What `JsonWriter` writes on each call. With ASCII encoding a byte outside of ASCII starts a sequence
of UTF-8, which is decoded and written as an escape; every other encoding passes such bytes on. -/

namespace AnyRpc

open Handler

/-- The members of `EncodingEnum`. -/
inductive EncodingEnum where
  | ascii
  | utf8
  | utf16le
  | utf16be
  | utf32le
  | utf32be
  deriving DecidableEq, Repr

/-- `JsonWriter`, with what is written to its stream. -/
structure JsonWriter where
  os : Bytes := []
  encoding : EncodingEnum := .utf8
  pretty : Bool := false
  level : ℤ := 0
  precision : ℕ := 0
  deriving DecidableEq, Repr

namespace JsonWriter

/-- `os_.Put`. -/
def put (str : Bytes) : Exec JsonWriter Unit := modify fun w => { w with os := w.os ++ str }

/-- `snprintf` to a buffer of 100 bytes, and what is put of it. A text that fills the buffer lacks
its last byte and is put with the terminator; what is longer is read beyond the buffer. -/
def putBuffer (text : Bytes) : Exec JsonWriter Unit :=
  if text.length < 100 then put text
  else if text.length = 100 then put (text.take 99 ++ [0])
  else throw .undefined

/-! ## Strings -/

/-- The table `escape`: what stands behind the backslash, and null for no escape. -/
def escape (c : UInt8) : UInt8 :=
  if c = 0x22 then 0x22
  else if c = 0x5c then 0x5c
  else if 0x20 ≤ c then 0
  else if c = 0x08 then 0x62
  else if c = 0x09 then 0x74
  else if c = 0x0a then 0x6e
  else if c = 0x0c then 0x66
  else if c = 0x0d then 0x72
  else 0x75

/-- `str[pos]`, which has to lie within the string. -/
def charAt (str : Bytes) (pos : ℕ) : Exec JsonWriter UInt8 :=
  match str[pos]? with
  | some c => pure c
  | none => throw .undefined

/-- The fault of a sequence that is not UTF-8. -/
def throwUtf8 {α : Type} (message : Bytes) : Exec JsonWriter α :=
  anyrpcThrow ErrorCode.utf8Sequence (ascii "Invalid utf8 sequence, " ++ message)

/-- `DecodeUtf8`: the code point, and the position of its last byte. -/
def decodeUtf8 (str : Bytes) (pos : ℕ) : Exec JsonWriter (ℕ × ℕ) := do
  let c ← charAt str pos
  if c < 0xC0 then
    throwUtf8 (ascii "c=" ++ [c])
  let dataRemaining := str.length - pos
  if c < 0xE0 then
    if dataRemaining < 2 then
      throwUtf8 (ascii "not enough data")
    let c2 ← charAt str (pos + 1)
    if c2 &&& 0xc0 ≠ 0x80 then
      throwUtf8 (ascii "c2=" ++ [c2])
    let codepoint := (c &&& 0x1F).toNat <<< 6 + (c2 &&& 0x3F).toNat
    if codepoint < 0x80 then
      throwUtf8 (ascii "codepoint=" ++ decimal codepoint)
    return (codepoint, pos + 1)
  if c < 0xF0 then
    if dataRemaining < 3 then
      throwUtf8 (ascii "not enough data")
    let c2 ← charAt str (pos + 1)
    let c3 ← charAt str (pos + 2)
    if c2 &&& 0xc0 ≠ 0x80 ∨ c3 &&& 0xc0 ≠ 0x80 then
      throwUtf8 (ascii "c2=" ++ [c2] ++ ascii ", c3=" ++ [c3])
    let codepoint := (c &&& 0x0F).toNat <<< 12 + (c2 &&& 0x3F).toNat <<< 6 + (c3 &&& 0x3F).toNat
    if codepoint < 0x800 then
      throwUtf8 (ascii "codepoint=" ++ decimal codepoint)
    return (codepoint, pos + 2)
  if c < 0xF8 then
    if dataRemaining < 4 then
      throwUtf8 (ascii "not enough data")
    let c2 ← charAt str (pos + 1)
    let c3 ← charAt str (pos + 2)
    let c4 ← charAt str (pos + 3)
    if c2 &&& 0xc0 ≠ 0x80 ∨ c3 &&& 0xc0 ≠ 0x80 ∨ c4 &&& 0xc0 ≠ 0x80 then
      throwUtf8 (ascii "c2=" ++ [c2] ++ ascii ", c3=" ++ [c3] ++ ascii ", c4=" ++ [c4])
    let codepoint := (c &&& 0x07).toNat <<< 18 + (c2 &&& 0x3F).toNat <<< 12 +
      (c3 &&& 0x3F).toNat <<< 6 + (c4 &&& 0x3F).toNat
    if codepoint < 0x10000 then
      throwUtf8 (ascii "codepoint=" ++ decimal codepoint)
    return (codepoint, pos + 3)
  throwUtf8 (ascii "c=" ++ [c])

/-- The four hexadecimal digits of an escape. -/
def hex4 (v : ℕ) : Bytes :=
  [hexDigit (v >>> 12 &&& 0xF), hexDigit (v >>> 8 &&& 0xF), hexDigit (v >>> 4 &&& 0xF),
    hexDigit (v &&& 0xF)]

/-- The digits of a code point, as a surrogate pair where it does not fit the first plane. -/
def putUnicode (codepoint : ℕ) : Exec JsonWriter Unit := do
  if codepoint ≤ 0xD7FF ∨ (0xE000 ≤ codepoint ∧ codepoint ≤ 0xFFFF) then
    put (hex4 codepoint)
  else
    anyrpcAssert (0x010000 ≤ codepoint && codepoint ≤ 0x10FFFF) ErrorCode.unicodeValue
      (ascii "Unicode codepoint out of range: " ++ decimal codepoint)
    let s := codepoint - 0x010000
    let lead := (s >>> 10) + 0xD800
    let trail := (s &&& 0x3FF) + 0xDC00
    put (hex4 lead)
    put [0x5c, 0x75]
    put (hex4 trail)

/-- One turn of the loop of `String`: the position of the last byte that it has read. -/
def putChar (str : Bytes) (i : ℕ) : Exec JsonWriter ℕ := do
  let c ← charAt str i
  if escape c ≠ 0 then
    put [0x5c, escape c]
    if escape c = 0x75 then
      put [0x30, 0x30, hexDigit (c.toNat >>> 4), hexDigit (c.toNat &&& 0xF)]
    return i
  else if (← get).encoding = .ascii ∧ 0x80 ≤ c then
    let (codepoint, pos) ← decodeUtf8 str i
    put [0x5c, 0x75]
    putUnicode codepoint
    return pos
  else
    put [c]
    return i

/-- The loop of `String`. -/
def putChars (str : Bytes) : ℕ → ℕ → Exec JsonWriter Unit
  | 0, i => if i < str.length then throw .outOfFuel else pure ()
  | fuel + 1, i =>
    if i < str.length then do
      let pos ← putChar str i
      putChars str fuel (pos + 1)
    else pure ()

/-- `String`. Every turn of the loop takes a byte. -/
def string (str : Bytes) : Exec JsonWriter Unit := do
  put [0x22]
  putChars str str.length 0
  put [0x22]

/-! ## Layout -/

/-- `NewLine`. -/
def newLine : Exec JsonWriter Unit := do
  let w ← get
  if w.pretty then
    put (0x0a :: List.replicate w.level.toNat 0x09)

/-- `IncLevel`. -/
def incLevel : Exec JsonWriter Unit :=
  modify fun w => if w.pretty then { w with level := w.level + 1 } else w

/-- `DecLevel`. -/
def decLevel : Exec JsonWriter Unit := do
  if (← get).pretty then
    modify fun w => { w with level := w.level - 1 }
    anyrpcAssert (0 ≤ (← get).level) ErrorCode.prettyPrintLevel
      (ascii "Pretty printing level underflow")

/-! ## The calls -/

variable [Platform]

/-- `Double`. -/
def double (d : BitVec 64) : Exec JsonWriter Unit := do
  let precision := (← get).precision
  -- The format `%g` has a precision of six digits.
  putBuffer (Platform.formatG (if 0 < precision then precision else 6) d)

/-- `DateTime`: an array with a marker and the text. -/
def dateTime (dt : ℤ) : Exec JsonWriter Unit :=
  putBuffer (ascii "[\"" ++ Document.dateTimeString ++ ascii "\",\"" ++
    dateTimeText (Platform.localtime dt) ++ ascii "\"]")

/-- `Binary`: an array with a marker and the text in base 64. -/
def binary (str : Bytes) : Exec JsonWriter Unit := do
  put (ascii "[\"" ++ Document.base64String ++ ascii "\",\"")
  put (Internal.base64Encode str)
  put (ascii "\"]")

/-- The call that delivers a scalar. -/
def scalar : Scalar → Exec JsonWriter Unit
  | .null => put (ascii "null")
  | .boolTrue => put (ascii "true")
  | .boolFalse => put (ascii "false")
  | .dateTime dt => dateTime dt
  | .string str => string str.bytes
  | .binary str => binary str.bytes
  | .int i => put (decimalInt i.toInt)
  | .uint u => put (decimal u.toNat)
  | .int64 i64 => put (decimalInt i64.toInt)
  | .uint64 u64 => put (decimal u64.toNat)
  | .float f => double (Platform.floatToDouble f)
  | .double d => double d

/-- The start of a container. -/
def openBracket (c : UInt8) : Exec JsonWriter Unit := do
  newLine
  put [c]
  incLevel
  newLine

/-- A comma. -/
def separator : Exec JsonWriter Unit := do
  put [0x2c]
  newLine

/-- The end of a container. -/
def closeBracket (c : UInt8) : Exec JsonWriter Unit := do
  decLevel
  newLine
  put [c]

/-- `Key`. -/
def key (str : Bytes) : Exec JsonWriter Unit := do
  string str
  put [0x3a]

/-- The start of an array has to announce the number of elements. -/
instance : Handler JsonWriter where
  handle
    | .scalar s => scalar s
    | .startMap _ => openBracket 0x7b
    | .key str => key str.bytes
    | .mapSeparator => separator
    | .endMap _ => closeBracket 0x7d
    | .startArray (some _) => openBracket 0x5b
    | .startArray none => anyrpcThrow ErrorCode.illegalCall (ascii "Illegal call")
    | .arraySeparator => separator
    | .endArray _ => closeBracket 0x5d

end JsonWriter

end AnyRpc
