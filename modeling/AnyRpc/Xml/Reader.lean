import AnyRpc.Foundation.Utf8
import AnyRpc.Xml.Tag

/-! # The XML reader

`XmlReader`. A string ends at the `<` of the tag behind it, which is taken with the string, so that
the terminator has a place when the string is decoded in place: the next tag is then read without
its first character (`tagSkipFirstChar`). -/

namespace AnyRpc

open Library

/-- The fields of `XmlReader`, and what it writes to besides its stream. -/
structure XmlReader where
  /-- `tagSkipFirstChar_`. -/
  tagSkipFirstChar : Bool := false
  /-- The local `WriteStringStream` of a string that is not decoded in place. -/
  wsstream : Bytes := []
  deriving DecidableEq, Repr

namespace XmlReader

open Reader XmlTag

/-- A computation of the reader. -/
abbrev ReadM (α : Type) := Reader XmlReader α

/-- A reader of a stream. -/
def new (is : ReadStream) : ReaderState XmlReader := { is, sub := {} }

/-! ## Tags -/

/-- `anyrpc_throw(AnyRpcErrorTagInvalid, message)`. -/
def throwTag {α : Type} (message : Bytes) : ReadM α := anyrpcThrow ErrorCode.tagInvalid message

/-- `anyrpc_throw(AnyRpcErrorTagInvalid, "Parse error with xml tag " << TagToString(tag) << ...)`. -/
def throwWithTag {α : Type} (tag : XmlTag) (message : Bytes) : ReadM α :=
  throwTag (ascii "Parse error with xml tag " ++ tag.toText ++ message)

/-- `PARSE_ERROR_FOUND_EXPECTED(found, expected)`. -/
def throwFoundExpected {α : Type} (found expected : XmlTag) : ReadM α :=
  throwTag (ascii "Parse error: found " ++ found.toText ++ ascii " expected " ++ expected.toText)

/-- `GetNextTag()`. -/
def getNextTag : ReadM XmlTag := do
  if !(← get).sub.tagSkipFirstChar then
    skipWhiteSpace
    if ← eof then
      anyrpcThrow ErrorCode.termination (ascii "Parsing was terminated: expected < found EOF")
    let c ← getChar
    if c ≠ 0x3c then
      throwTag (ascii "Parse error with xml tag: expected < found " ++ [c])
  modify fun s => { s with sub := { s.sub with tagSkipFirstChar := false } }
  onText XmlTag.read

/-- The next tag has to be `expected`. -/
def expectTag (expected : XmlTag) : ReadM Unit := do
  let tag ← getNextTag
  if tag ≠ expected then
    throwFoundExpected tag expected

/-! ## Strings -/

/-- `os.Put(c)`, where `os` is the stream itself or the local one. -/
def osPut (inPlace : Bool) (c : UInt8) : ReadM Unit := do
  if inPlace then
    putChar c
  else
    modify fun s => { s with sub := { s.sub with wsstream := s.sub.wsstream ++ [c] } }

/-- `os.Put` of one byte after the other. -/
def osPutAll (inPlace : Bool) : Bytes → ReadM Unit
  | [] => pure ()
  | c :: cs => do
    osPut inPlace c
    osPutAll inPlace cs

/-- `os.Put(str, n)`. -/
def osPutBytes (inPlace : Bool) (str : Bytes) : ReadM Unit := do
  if inPlace then
    onStream (ReadStream.putBytes str)
  else
    modify fun s => { s with sub := { s.sub with wsstream := s.sub.wsstream ++ str } }

/-- `rawEntity` and `xmlEntity`. -/
def xmlEntity : List (UInt8 × Bytes) :=
  [(0x3c, ascii "lt"), (0x3e, ascii "gt"), (0x26, ascii "amp"), (0x27, ascii "apos"),
    (0x22, ascii "quot")]

/-- The fault of a reference that is none of the table. -/
def escapeInvalid : Fault :=
  .exception { code := ErrorCode.stringEscapeInvalid
               message := ascii "Invalid escape character in string" }

/-- The fault of a reference by number. -/
def unicodeEscapeInvalid : Fault :=
  .exception { code := ErrorCode.stringUnicodeEscapeInvalid
               message := ascii "Unicode escape sequence invalid" }

/-- The loop over the characters of a reference; there is none when the stream ends before the
`;`. -/
def readEncoded (encoded : Bytes) : Exec Bytes (Option Bytes)
  | [] => .ok none []
  | c :: s =>
    if c = 0x3b then .ok (some encoded) s
    else if maxLength ≤ encoded.length + 1 then .error escapeInvalid s
    else readEncoded (encoded ++ [c]) s

/-- The digits of a code point in a base. -/
def codepointDigits (base : ℕ) (digit? : UInt8 → Option ℕ) : Bytes → ℕ → Except Fault ℕ
  | [], codepoint => if 0x10FFFF < codepoint then .error unicodeEscapeInvalid else .ok codepoint
  | c :: str, codepoint =>
    match digit? c with
    | some d => codepointDigits base digit? str (codepoint * base + d)
    | none => .error unicodeEscapeInvalid

/-- `ParseHexEscapeCode`: the code point. -/
def parseHexEscapeCode (str : Bytes) : Except Fault ℕ :=
  if 5 < str.length then .error unicodeEscapeInvalid
  else codepointDigits 16 hexDigitValue? str 0

/-- `ParseDecimalEscapeCode`: the code point. -/
def parseDecimalEscapeCode (str : Bytes) : Except Fault ℕ :=
  if 7 < str.length then .error unicodeEscapeInvalid
  else codepointDigits 10 (fun c => if isDigit c then some (c.toNat - 0x30) else none) str 0

/-- What a reference puts. A name is looked for with `strncmp` over the length of what is read. -/
def decodeReference (encoded : Bytes) : Except Fault Bytes :=
  match encoded with
  | [] => .error escapeInvalid
  | 0x23 :: str =>
    if 2 < encoded.length ∧ str.head? = some 0x78 then
      (parseHexEscapeCode str.tail).map encodeUtf8
    else (parseDecimalEscapeCode str).map encodeUtf8
  | _ =>
    match xmlEntity.find? fun e => Document.strncmpEq encoded e.2 with
    | some e => .ok [e.1]
    | none => .error escapeInvalid

/-- The loop of `ParseStringToStream`: whether there is only white space. -/
def parseStringToStream (inPlace : Bool) : ℕ → Bool → ReadM Bool
  | 0, _ => throw .outOfFuel
  | fuel + 1, onlyWhiteSpace => do
    if ← eof then
      throwValueInvalid
    else if (← peek) = 0x3c then
      return onlyWhiteSpace
    else if (← peek) = 0x26 then
      let _ ← getChar
      match ← onText (readEncoded []) with
      | none => return false
      | some encoded =>
        match decodeReference encoded with
        | .error f => throw f
        | .ok str =>
          osPutAll inPlace str
          parseStringToStream inPlace fuel false
    else
      let c ← getChar
      osPut inPlace c
      parseStringToStream inPlace fuel (onlyWhiteSpace && isSpace c)

/-- `ParseStringToStream(wsstream)`, with a stream that is new: what is written, and whether there
is only white space. -/
def parseStringToLocal : ReadM (Bytes × Bool) := do
  modify fun s => { s with sub := { s.sub with wsstream := [] } }
  let onlyWhiteSpace ← parseStringToStream false ((← get).is.rest.length + 1) true
  return ((← get).sub.wsstream, onlyWhiteSpace)

/-- The first part of `ParseString`: the string up to the tag behind it, the `<` of which is
taken. -/
def parseStringText : ReadM (StrArg × Bool) := do
  if (← get).is.inSitu then
    putBegin
    let onlyWhiteSpace ← parseStringToStream true ((← get).is.rest.length + 1) true
    let _ ← getChar
    putChar 0
    let is := (← get).is
    let length := (← putEnd) - 1
    modify fun s => { s with sub := { s.sub with tagSkipFirstChar := true } }
    return (is.strArg length, onlyWhiteSpace)
  else
    let (str, onlyWhiteSpace) ← parseStringToLocal
    let _ ← getChar
    modify fun s => { s with sub := { s.sub with tagSkipFirstChar := true } }
    return ({ bytes := str, copy := (← get).is.copy }, onlyWhiteSpace)

/-- `ParseString(stringTag)`. -/
def parseString : ReadM Unit := do
  let (str, _) ← parseStringText
  expectTag (.close .string)
  call (.scalar (.string str))

/-- `ParseString(valueTag)`: a string when the value ends behind it, else only white space before
the tag that is the result. -/
def parseValueString : ReadM XmlTag := do
  let (str, onlyWhiteSpace) ← parseStringText
  let tag ← getNextTag
  if tag = .close .value then
    call (.scalar (.string str))
  else if !onlyWhiteSpace then
    throwFoundExpected tag (.close .value)
  return tag

/-- `GetNextTag(true)`. -/
def getNextTagOrString : ReadM XmlTag := do
  if (← get).sub.tagSkipFirstChar then getNextTag else parseValueString

/-- The argument for the literal `""`, of which only the terminator is stored. -/
def emptyArg : ReadM StrArg := do return { bytes := [], copy := (← get).is.copy }

/-- `ParseEmptyString`. -/
def parseEmptyString : ReadM Unit := do call (.scalar (.string (← emptyArg)))

/-- `ParseKey`. -/
def parseKey : ReadM Unit := do
  expectTag (.start .name)
  let (str, _) ← parseStringText
  expectTag (.close .name)
  call (.key str)

/-! ## Scalars -/

/-- `ParseNil`. -/
def parseNil : ReadM Unit := call (.scalar .null)

/-- `ParseBoolean`. -/
def parseBoolean : ReadM Unit := do
  if ← eof then
    anyrpcThrow ErrorCode.termination (ascii "Parsing was terminated: expected 0 or 1 found EOF")
  let c ← getChar
  if c = 0x30 then
    call (.scalar .boolFalse)
  else if c = 0x31 then
    call (.scalar .boolTrue)
  else
    anyrpcThrow ErrorCode.termination
      (ascii "Parsing was terminated: expected 0 or 1 found " ++ [c])
  expectTag (.close .boolean)

/-- `ParseNumber(tag)` from the end of the number on, for the tag of a number. -/
def finishNumber [Platform] (tag : XmlTagName) (n : ParseNumber) : ReadM Unit := do
  if n.useDouble then
    match n.double with
    | .error f => throw f
    | .ok d =>
      if tag ≠ .double then
        throwFoundExpected (.start tag) (.start .double)
      expectTag (.close .double)
      call (.scalar (.double (if n.minus then Platform.neg d else d)))
  else if n.use64bit then
    if tag ≠ .double ∧ tag ≠ .i8 then
      throwTag (ascii "Parse error: found " ++ (XmlTag.start tag).toText ++
        ascii " requires 64 bit (double/i8) tag")
    if tag = .double then
      expectTag (.close .double)
    else
      expectTag (.close .i8)
    call (.scalar (if n.minus then .int64 (-BitVec.ofNat 64 n.i64)
      else .uint64 (BitVec.ofNat 64 n.i64)))
  else
    expectTag (.close tag)
    call (.scalar (if n.minus then .int (-BitVec.ofNat 32 n.i) else .uint (BitVec.ofNat 32 n.i)))

/-- `ParseNumber(tag)`. -/
def parseNumber [Platform] (tag : XmlTagName) : ReadM Unit := do
  finishNumber tag (← onText ParseNumber.parse)

/-- `ParseDateTime`. -/
def parseDateTime [Platform] : ReadM Unit := do
  let (str, _) ← parseStringToLocal
  expectTag (.close .dateTime)
  match if str.length = 17 then Document.scanDateTime (cString str) else none with
  | some t =>
    call (.scalar (.dateTime (Platform.mktime { t with year := t.year - 1900, mon := t.mon - 1 })))
  | none =>
    anyrpcThrow ErrorCode.termination
      (ascii "Parsing was terminated: failed to convert string to datetime")

/-- `Base64Decode(os, is_, '<')`, with the sextets of the current quantum. -/
def base64Decode (inPlace : Bool) : ℕ → List ℕ → ReadM Bool
  | 0, _ => throw .outOfFuel
  | fuel + 1, data => do
    if ← eof then
      return false
    else if (← peek) = 0x3c then
      return data = []
    else
      let d := Internal.base64Value (← getChar)
      if d = Internal.base64Ignore then
        base64Decode inPlace fuel data
      else if d = Internal.base64Pad then
        match data with
        | [data0, data1] =>
          if Internal.base64Value (← getChar) ≠ Internal.base64Pad then
            return false
          osPut inPlace (UInt8.ofNat ((data0 <<< 2) + (data1 >>> 4)))
          return (← peek) = 0x3c
        | [data0, data1, data2] =>
          osPutBytes inPlace [UInt8.ofNat ((data0 <<< 2) + (data1 >>> 4)),
            UInt8.ofNat (((data1 &&& 0x0f) <<< 4) + (data2 >>> 2))]
          return (← peek) = 0x3c
        | _ => return false
      else
        let (data, out) := Internal.base64Sextet d data
        osPutBytes inPlace out
        base64Decode inPlace fuel data

/-- `ParseBase64`. -/
def parseBase64 : ReadM Unit := do
  let inPlace := (← get).is.inSitu
  if inPlace then
    putBegin
  else
    modify fun s => { s with sub := { s.sub with wsstream := [] } }
  let decodeResult ← base64Decode inPlace ((← get).is.rest.length + 1) []
  let s ← get
  let length ← if inPlace then putEnd else pure s.sub.wsstream.length
  if !decodeResult then
    anyrpcThrow ErrorCode.base64Invalid (ascii "Error during base64 decode")
  expectTag (.close .base64)
  call (.scalar (.binary
    (if inPlace then s.is.strArg length else { bytes := s.sub.wsstream, copy := s.is.copy })))

/-- `ParseEmptyBase64`. -/
def parseEmptyBase64 : ReadM Unit := do call (.scalar (.binary (← emptyArg)))

/-! ## Containers -/

section

variable (parseValue : Bool → ReadM Unit)

/-- The loop over the members, with the number of those before. -/
def parseMembers : ℕ → ℕ → ReadM Unit
  | 0, _ => throw .outOfFuel
  | fuel + 1, memberCount => do
    let tag ← getNextTag
    if tag = .start .member then
      if memberCount ≠ 0 then
        call .mapSeparator
      parseKey
      parseValue false
      expectTag (.close .member)
      parseMembers fuel (memberCount + 1)
    else if tag = .close .struct then
      call (.endMap memberCount)
    else
      throwWithTag tag []

/-- `ParseMap`. -/
def parseMap : ReadM Unit := do
  call (.startMap none)
  parseMembers parseValue ((← get).is.rest.length + 1) 0

/-- `ParseEmptyMap`. -/
def parseEmptyMap : ReadM Unit := do
  call (.startMap none)
  call (.endMap 0)

/-- The loop over the elements, with the number of those before. An empty value is delivered
without a separator before it. -/
def parseElements : ℕ → ℕ → ReadM Unit
  | 0, _ => throw .outOfFuel
  | fuel + 1, elementCount => do
    let tag ← getNextTag
    if tag = .start .value then
      if elementCount ≠ 0 then
        call .arraySeparator
      parseValue true
      parseElements fuel (elementCount + 1)
    else if tag = .empty .value then
      parseEmptyString
      parseElements fuel (elementCount + 1)
    else if tag = .close .data then
      call (.endArray elementCount)
      expectTag (.close .array)
    else
      throwWithTag tag []

/-- `ParseEmptyArray`. -/
def parseEmptyArray : ReadM Unit := do
  call (.startArray none)
  call (.endArray 0)

/-- `ParseArray`. -/
def parseArray : ReadM Unit := do
  let tag ← getNextTag
  if tag = .empty .data then
    parseEmptyArray
    expectTag (.close .array)
  else
    if tag ≠ .start .data then
      throwFoundExpected tag (.start .data)
    call (.startArray none)
    parseElements parseValue ((← get).is.rest.length + 1) 0

variable [Platform]

/-- The value for the tag behind `<value>`. -/
def parseTag (tag : XmlTag) : ReadM Unit :=
  if tag = .empty .nil then parseNil
  else if tag = .start .boolean then parseBoolean
  else if tag = .start .int then parseNumber .int
  else if tag = .start .i4 then parseNumber .i4
  else if tag = .start .i8 then parseNumber .i8
  else if tag = .start .double then parseNumber .double
  else if tag = .start .string then parseString
  else if tag = .empty .string then parseEmptyString
  else if tag = .start .array then parseArray parseValue
  else if tag = .empty .array then parseEmptyArray
  else if tag = .start .struct then parseMap parseValue
  else if tag = .empty .struct then parseEmptyMap
  else if tag = .start .dateTime then parseDateTime
  else if tag = .start .base64 then parseBase64
  else if tag = .empty .base64 then parseEmptyBase64
  -- The string is already delivered.
  else if tag = .close .value then pure ()
  else throwWithTag tag []

end

variable [Platform]

/-- `ParseValue(true)`, with the values nested in it. -/
def parseValueBody (parseValue : Bool → ReadM Unit) : ReadM Unit := do
  let tag ← getNextTagOrString
  parseTag parseValue tag
  if tag ≠ .close .value then
    expectTag (.close .value)

/-- `ParseValue(valueTagParsed)`, to a depth of nesting. -/
def parseValue : ℕ → Bool → ReadM Unit
  | 0, _ => throw .outOfFuel
  | depth + 1, valueTagParsed => do
    if valueTagParsed then
      parseValueBody (parseValue depth)
    else
      let tag ← getNextTag
      if tag = .empty .value then
        parseEmptyString
      else if tag = .start .value then
        parseValueBody (parseValue depth)
      else
        throwFoundExpected tag (.start .value)

/-- A value, in the depth that the text has room for: every level takes a tag. -/
def parseNested (valueTagParsed : Bool) : ReadM Unit := do
  parseValue ((← get).is.rest.length + 1) valueTagParsed

/-! ## Documents -/

/-- The loop of `ParseParams`, with the number of elements before. -/
def parseParamsLoop : ℕ → ℕ → ReadM Unit
  | 0, _ => throw .outOfFuel
  | fuel + 1, elementCount => do
    let tag ← getNextTag
    if tag = .close .params then
      call (.endArray elementCount)
    else if tag = .empty .param then
      parseParamsLoop fuel elementCount
    else if tag = .start .param then
      if elementCount ≠ 0 then
        call .arraySeparator
      let tag ← getNextTag
      if tag = .start .value then
        parseNested true
      else if tag = .empty .value then
        parseEmptyString
      else
        throwFoundExpected tag (.start .value)
      let tag ← getNextTag
      if tag ≠ .close .param then
        throwFoundExpected tag (.close .params)
      parseParamsLoop fuel (elementCount + 1)
    else
      throwWithTag tag []

/-- `ParseParams`. -/
def parseParams : ReadM Unit := do
  call (.startArray none)
  parseParamsLoop ((← get).is.rest.length + 1) 0

/-- `while ((tag = GetNextTag()) != expected) {}`. -/
def skipTo (expected : XmlTag) : ℕ → ReadM Unit
  | 0 => throw .outOfFuel
  | fuel + 1 => do
    if (← getNextTag) ≠ expected then
      skipTo expected fuel

/-- `ParseMethodName`. -/
def parseMethodName : ReadM Bytes := do
  let (str, _) ← parseStringToLocal
  expectTag (.close .methodName)
  if str = [] then
    throwTag (ascii "Parse error with xml tag: method name must be defined")
  return str

/-- The loop of `ParseRequest` over the tags of a call, with the method name and whether there were
parameters. -/
def parseCall : ℕ → Option Bytes → Bool → ReadM (Option Bytes × Bool)
  | 0, _, _ => throw .outOfFuel
  | fuel + 1, methodName, paramsFound => do
    let tag ← getNextTag
    if tag = .close .methodCall then
      return (methodName, paramsFound)
    else if tag = .start .methodName then
      if methodName.isSome then
        throwWithTag tag (ascii ": methodName redefined")
      parseCall fuel (some (← parseMethodName)) paramsFound
    else if tag = .start .params then
      parseParams
      parseCall fuel methodName true
    else if tag = .empty .params then
      if paramsFound then
        throwWithTag tag (ascii ": params tag redefined")
      parseEmptyArray
      parseCall fuel methodName true
    else
      throwWithTag tag []

/-- The body of `ParseRequest`: the method name. Parameters that are left out are none. -/
def request : ReadM Bytes := do
  skipTo (.start .methodCall) ((← get).is.rest.length + 1)
  match ← parseCall ((← get).is.rest.length + 1) none false with
  | (none, _) => throwTag (ascii "Parse error with xml tag: methodName not defined")
  | (some methodName, paramsFound) =>
    if !paramsFound then
      parseEmptyArray
    return methodName

/-- `ParseRequest(handler)`, and the method name where there is no parse error. -/
def parseRequest {σ : Type} [Handler σ] (is : ReadStream) (h : σ) :
    Except Fault (Parsed σ XmlReader × Bytes) := do
  let parsed ← Reader.parseStream (do let _ ← request) (new is) h
  match request (new is) with
  | .ok methodName _ => return (parsed, methodName)
  | .error _ _ => return (parsed, [])

/-- The body of `ParseResponse`. -/
def response : ReadM Unit := do
  skipTo (.start .methodResponse) ((← get).is.rest.length + 1)
  let tag ← getNextTag
  if tag = .start .params then
    parseParams
    if (← getNextTag) ≠ .close .methodResponse then
      throwFoundExpected tag (.close .methodResponse)
  else if tag = .empty .params then
    call (.scalar .null)
  else if tag = .start .fault then
    parseNested false
    expectTag (.close .fault)
    expectTag (.close .methodResponse)
  else
    throwWithTag tag []

/-- `ParseResponse(handler)`. -/
def parseResponse {σ : Type} [Handler σ] (is : ReadStream) (h : σ) :
    Except Fault (Parsed σ XmlReader) :=
  Reader.parseStream response (new is) h

/-- The body of `ParseStream(handler)`. -/
def stream : ReadM Unit := do
  skipWhiteSpace
  if !(← eof) then
    parseNested false

/-- `ParseStream(handler)`. -/
def parseStream {σ : Type} [Handler σ] (is : ReadStream) (h : σ) :
    Except Fault (Parsed σ XmlReader) :=
  Reader.parseStream stream (new is) h

end XmlReader

end AnyRpc
