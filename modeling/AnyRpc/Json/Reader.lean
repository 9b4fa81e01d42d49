import AnyRpc.Foundation.Utf8
import AnyRpc.Reader.Number

/-! # The JSON reader

`JsonReader`. A string is decoded to the stream that it is read from, or to a local stream from
which it is copied. -/

namespace AnyRpc

open Library

/-- What `JsonReader` writes to besides its stream. -/
structure JsonReader where
  /-- The local `WriteStringStream` of a string that is not decoded in place. -/
  wsstream : Bytes := []
  deriving DecidableEq, Repr

namespace JsonReader

open Reader

/-- A computation of the reader. -/
abbrev ReadM (α : Type) := Reader JsonReader α

/-- A reader of a stream. -/
def new (is : ReadStream) : ReaderState JsonReader := { is, sub := {} }

/-! ## Literals -/

/-- `Get` of the bytes of a literal, one after the other. -/
def expect : Bytes → Exec Bytes Unit
  | [] => pure ()
  | c :: text => do
    if (← Text.get) ≠ c then
      anyrpcThrow ErrorCode.valueInvalid (ascii "Invalid value")
    expect text

def parseNull : ReadM Unit := do
  onText (expect (ascii "null"))
  call (.scalar .null)

def parseTrue : ReadM Unit := do
  onText (expect (ascii "true"))
  call (.scalar .boolTrue)

def parseFalse : ReadM Unit := do
  onText (expect (ascii "false"))
  call (.scalar .boolFalse)

/-! ## Strings -/

/-- `os.Put(c)`, where `os` is the stream itself when it is decoded in place. -/
def osPut (c : UInt8) : ReadM Unit := do
  if (← get).is.inSitu then
    putChar c
  else
    modify fun s => { s with sub := { wsstream := s.sub.wsstream ++ [c] } }

/-- `os.Put` of one byte after the other. -/
def osPutAll : Bytes → ReadM Unit
  | [] => pure ()
  | c :: cs => do
    osPut c
    osPutAll cs

/-- The table `escape`: what a byte stands for after a backslash, and null for an error. -/
def escape (e : UInt8) : UInt8 :=
  if e = 0x22 then 0x22
  else if e = 0x2f then 0x2f
  else if e = 0x5c then 0x5c
  else if e = 0x62 then 0x08
  else if e = 0x66 then 0x0c
  else if e = 0x6e then 0x0a
  else if e = 0x72 then 0x0d
  else if e = 0x74 then 0x09
  else 0

/-- The loop of `ParseHex4` over the digits that remain. -/
def parseHexDigits : ℕ → ℕ → Exec Bytes ℕ
  | 0, codepoint => pure codepoint
  | n + 1, codepoint => do
    match hexDigitValue? (← Text.get) with
    | some digit => parseHexDigits n (codepoint * 16 + digit)
    | none =>
      anyrpcThrow ErrorCode.stringUnicodeEscapeInvalid
        (ascii "Incorrect digit after escape in string")

/-- `ParseHex4`. -/
def parseHex4 : Exec Bytes ℕ := parseHexDigits 4 0

/-- The fault of half a surrogate pair. -/
def throwSurrogate {α : Type} : Exec Bytes α :=
  anyrpcThrow ErrorCode.stringUnicodeSurrogateInvalid
    (ascii "The surrogate pair in string is invalid")

/-- The code point after `\u`. A high surrogate has to be followed by the escape of a low one. -/
def parseUnicode : Exec Bytes ℕ := do
  let codepoint ← parseHex4
  if 0xD800 ≤ codepoint ∧ codepoint ≤ 0xDBFF then
    if (← Text.get) ≠ 0x5c then
      throwSurrogate
    if (← Text.get) ≠ 0x75 then
      throwSurrogate
    let codepoint2 ← parseHex4
    if codepoint2 < 0xDC00 ∨ 0xDFFF < codepoint2 then
      throwSurrogate
    return ((codepoint - 0xD800) <<< 10 ||| (codepoint2 - 0xDC00)) + 0x10000
  else
    return codepoint

/-- The fault of a byte that may not stand in a string, or not behind a backslash. -/
def throwEscapeInvalid {α : Type} : ReadM α :=
  anyrpcThrow ErrorCode.stringEscapeInvalid (ascii "Invalid escape character in string")

/-- An escape sequence. -/
def parseEscape : ReadM Unit := do
  let _ ← getChar
  let e ← getChar
  if escape e ≠ 0 then
    osPut (escape e)
  else if e = 0x75 then
    osPutAll (encodeUtf8 (← onText parseUnicode))
  else
    throwEscapeInvalid

/-- The loop of `ParseStringToStream`. -/
def parseStringToStream : ℕ → ReadM Unit
  | 0 => throw .outOfFuel
  | fuel + 1 => do
    let c ← peek
    if c = 0x5c then
      parseEscape
      parseStringToStream fuel
    else if c = 0x22 then
      let _ ← getChar
      osPut 0
    else if c = 0 then
      anyrpcThrow ErrorCode.stringMissingQuotationMark
        (ascii "Missing a closing quotation mark in string")
    else if c < 0x20 then
      throwEscapeInvalid
    else
      osPut (← getChar)
      parseStringToStream fuel

/-- The assertion on the next byte. -/
def assertPeek (c : UInt8) : ReadM Unit := do
  let found ← peek
  anyrpcAssert (found = c) ErrorCode.parseError
    (ascii "Expected " ++ [c] ++ ascii " but found " ++ [found])

/-- The common body of `ParseString` and `ParseKey`, with the call that the string is for. Every
turn of the loop takes a byte. -/
def parseStringFor (event : StrArg → Event) : ReadM Unit := do
  assertPeek 0x22
  let _ ← getChar
  if (← get).is.inSitu then
    putBegin
    parseStringToStream ((← get).is.rest.length + 1)
    let is := (← get).is
    let length := (← putEnd) - 1
    call (event (is.strArg length))
  else
    modify fun s => { s with sub := { wsstream := [] } }
    parseStringToStream ((← get).is.rest.length + 1)
    let wsstream := (← get).sub.wsstream
    let length := wsstream.length - 1
    call (event { bytes := wsstream.take length })

def parseString : ReadM Unit := parseStringFor fun str => .scalar (.string str)
def parseKey : ReadM Unit := parseStringFor .key

/-! ## Numbers -/

/-- The event of a number. The conversions to the signed types and the negation are those of the
two's complement. -/
def numberEvent [Platform] (n : ParseNumber) : Except Fault Scalar :=
  if n.useDouble then do
    let d ← n.double
    return .double (if n.minus then Platform.neg d else d)
  else if n.use64bit then
    .ok (if n.minus then .int64 (-BitVec.ofNat 64 n.i64) else .uint64 (BitVec.ofNat 64 n.i64))
  else
    .ok (if n.minus then .int (-BitVec.ofNat 32 n.i) else .uint (BitVec.ofNat 32 n.i))

/-- `ParseNumber`. -/
def parseNumber [Platform] : ReadM Unit := do
  let n ← onText ParseNumber.parse
  match numberEvent n with
  | .ok s => call (.scalar s)
  | .error f => throw f

/-! ## Containers -/

section

variable (parseValue : ReadM Unit)

/-- The loop over the members, with the number of those before. -/
def parseMembers : ℕ → ℕ → ReadM Unit
  | 0, _ => throw .outOfFuel
  | fuel + 1, memberCount => do
    if (← peek) ≠ 0x22 then
      anyrpcThrow ErrorCode.objectMissName (ascii "Missing a name for object member")
    parseKey
    skipWhiteSpace
    if (← getChar) ≠ 0x3a then
      anyrpcThrow ErrorCode.objectMissColon (ascii "Missing a colon after a name of object member")
    skipWhiteSpace
    parseValue
    skipWhiteSpace
    let c ← getChar
    if c = 0x2c then
      skipWhiteSpace
      call .mapSeparator
      parseMembers fuel (memberCount + 1)
    else if c = 0x7d then
      call (.endMap (memberCount + 1))
    else
      anyrpcThrow ErrorCode.objectMissCommaOrCurlyBracket
        (ascii "Missing a comma or '\x7d' after an object member")

/-- `ParseMap`. -/
def parseMap : ReadM Unit := do
  assertPeek 0x7b
  let _ ← getChar
  call (.startMap none)
  skipWhiteSpace
  if (← peek) = 0x7d then
    let _ ← getChar
    call (.endMap 0)
  else
    parseMembers parseValue ((← get).is.rest.length + 1) 0

/-- The loop over the elements, with the number of those before. -/
def parseElements : ℕ → ℕ → ReadM Unit
  | 0, _ => throw .outOfFuel
  | fuel + 1, elementCount => do
    parseValue
    skipWhiteSpace
    let c ← getChar
    if c = 0x2c then
      skipWhiteSpace
      call .arraySeparator
      parseElements fuel (elementCount + 1)
    else if c = 0x5d then
      call (.endArray (elementCount + 1))
    else
      anyrpcThrow ErrorCode.arrayMissCommaOrSquareBracket
        (ascii "Missing a comma or ']' after an array element")

/-- `ParseArray`. -/
def parseArray : ReadM Unit := do
  assertPeek 0x5b
  let _ ← getChar
  call (.startArray none)
  skipWhiteSpace
  if (← peek) = 0x5d then
    let _ ← getChar
    call (.endArray 0)
  else
    parseElements parseValue ((← get).is.rest.length + 1) 0

end

variable [Platform]

/-- `ParseValue`, to a depth of nesting. -/
def parseValue : ℕ → ReadM Unit
  | 0 => throw .outOfFuel
  | depth + 1 => do
    let c ← peek
    if c = 0x6e then parseNull
    else if c = 0x74 then parseTrue
    else if c = 0x66 then parseFalse
    else if c = 0x22 then parseString
    else if c = 0x7b then parseMap (parseValue depth)
    else if c = 0x5b then parseArray (parseValue depth)
    else parseNumber

/-- `ParseStream()`. Every level of nesting takes a byte. -/
def parse : ReadM Unit := do
  skipWhiteSpace
  if !(← eof) then
    parseValue ((← get).is.rest.length + 1)

/-- `ParseStream(handler)`. -/
def parseStream {σ : Type} [Handler σ] (is : ReadStream) (h : σ) :
    Except Fault (Parsed σ JsonReader) :=
  Reader.parseStream parse (new is) h

end JsonReader

end AnyRpc
