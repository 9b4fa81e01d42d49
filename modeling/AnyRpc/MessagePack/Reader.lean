import AnyRpc.Library.BigEndian
import AnyRpc.MessagePack.Format
import AnyRpc.Reader.Reader

/-! # The MessagePack reader

`MessagePackReader`. In place, the byte after a string is needed for its terminator, so the token
that stands there is read ahead and kept (`token`, `tokenValid`). -/

namespace AnyRpc

open Library MessagePack

/-- The fields of `MessagePackReader`. -/
structure MessagePackReader where
  token : UInt8 := 0
  tokenValid : Bool := false
  deriving DecidableEq, Repr

namespace MessagePackReader

open Reader

/-- A computation of the reader. -/
abbrev ReadM (α : Type) := Reader MessagePackReader α

/-- A reader of a stream. -/
def new (is : ReadStream) : ReaderState MessagePackReader := { is, sub := {} }

/-! ## Tokens -/

/-- `GetToken`. -/
def getToken : ReadM Unit := do
  if !(← get).sub.tokenValid then
    let token ← getChar
    modify fun s => { s with sub := { token, tokenValid := true } }

/-- `GetClearToken`. -/
def getClearToken : ReadM Unit := do
  let token ← getClear
  modify fun s => { s with sub := { token, tokenValid := true } }

/-- `ResetToken`. -/
def resetToken : ReadM Unit :=
  modify fun s => { s with sub := { s.sub with tokenValid := false } }

/-! ## Scalars -/

/-- `Read` of a number of bytes, all of which there have to be. -/
def readAll (length : ℕ) : ReadM Bytes := do
  let str ← read length
  if str.length ≠ length then
    throwTermination
  return str

/-- A call for a scalar, after which the next token is to be read. -/
def scalar (s : Scalar) : ReadM Unit := do
  call (.scalar s)
  resetToken

def parseNull : ReadM Unit := scalar .null
def parseFalse : ReadM Unit := scalar .boolFalse
def parseTrue : ReadM Unit := scalar .boolTrue

def parsePositiveFixInt : ReadM Unit := do
  scalar (.uint ((← get).sub.token.toBitVec.setWidth 32))

def parseNegativeFixInt : ReadM Unit := do
  scalar (.int ((← get).sub.token.toBitVec.signExtend 32))

/-- `Get` of a byte that has to be there. -/
def getByte : ReadM UInt8 := do
  if ← eof then
    throwTermination
  getChar

def parseUint8 : ReadM Unit := do scalar (.uint ((← getByte).toBitVec.setWidth 32))
def parseUint16 : ReadM Unit := do scalar (.uint (.ofNat 32 (ofBigEndian (← readAll 2))))
def parseUint32 : ReadM Unit := do scalar (.uint (.ofNat 32 (ofBigEndian (← readAll 4))))
def parseUint64 : ReadM Unit := do scalar (.uint64 (.ofNat 64 (ofBigEndian (← readAll 8))))
def parseInt8 : ReadM Unit := do scalar (.int ((← getByte).toBitVec.signExtend 32))

def parseInt16 : ReadM Unit := do
  scalar (.int ((BitVec.ofNat 16 (ofBigEndian (← readAll 2))).signExtend 32))

def parseInt32 : ReadM Unit := do scalar (.int (.ofNat 32 (ofBigEndian (← readAll 4))))
def parseInt64 : ReadM Unit := do scalar (.int64 (.ofNat 64 (ofBigEndian (← readAll 8))))
def parseFloat32 : ReadM Unit := do scalar (.float (.ofNat 32 (ofBigEndian (← readAll 4))))
def parseFloat64 : ReadM Unit := do scalar (.double (.ofNat 64 (ofBigEndian (← readAll 8))))

/-! ## Strings -/

/-- `PutBegin` and `Skip` of a number of bytes, all of which there have to be. -/
def skipAll (length : ℕ) : ReadM Unit := do
  putBegin
  if length ≠ (← skip length) then
    throwTermination

/-- `ParseStr(length)`. The last string of a stream can not be terminated, so it is copied. -/
def parseStr (length : ℕ) : ReadM Unit := do
  if (← get).is.inSitu then
    skipAll length
    let copy := (← get).is.copy || (← eof)
    getClearToken
    call (.scalar (.string { ← strArg length with copy }))
    let _ ← putEnd
  else
    scalar (.string { bytes := ← readAll length })

def parseFixStr : ReadM Unit := do parseStr ((← get).sub.token &&& 0x1f).toNat

/-- `ParseStr8`, which does not look for the end of the stream. -/
def parseStr8 : ReadM Unit := do parseStr (← getChar).toNat

def parseStr16 : ReadM Unit := do parseStr (ofBigEndian (← readAll 2))
def parseStr32 : ReadM Unit := do parseStr (ofBigEndian (← readAll 4))

/-- `ParseBin(length)`. -/
def parseBin (length : ℕ) : ReadM Unit := do
  if (← get).is.inSitu then
    skipAll length
    scalar (.binary (← strArg length))
    let _ ← putEnd
  else
    scalar (.binary { bytes := ← readAll length })

def parseBin8 : ReadM Unit := do parseBin (← getByte).toNat
def parseBin16 : ReadM Unit := do parseBin (ofBigEndian (← readAll 2))
def parseBin32 : ReadM Unit := do parseBin (ofBigEndian (← readAll 4))

/-- The length of a key, from its token: only the two shortest forms of a string are accepted. -/
def keyLength : ReadM ℕ := do
  let token := (← get).sub.token
  if Format.fixStr ≤ token ∧ token < Format.nil then
    return (token &&& 0x1f).toNat
  else if token = Format.str8 then
    return (← getByte).toNat
  else throwValueInvalid

/-- `ParseKey`, from where the length is known. An empty key that is copied is neither delivered nor
is its token given up. -/
def parseKeyString (length : ℕ) : ReadM Unit := do
  if (← get).is.inSitu then
    skipAll length
    getClearToken
    call (.key (← strArg length))
    let _ ← putEnd
  else if 0 < length then
    call (.key { bytes := ← readAll length })
    resetToken

/-- `ParseKey`. -/
def parseKey : ReadM Unit := do
  if ← eof then
    throwTermination
  getToken
  parseKeyString (← keyLength)

/-! ## Containers -/

section

variable (parse : ReadM Unit)

/-- The loop over the elements that remain. -/
def parseElements : ℕ → ReadM Unit
  | 0 => pure ()
  | n + 1 => do
    parse
    if n ≠ 0 then
      call .arraySeparator
    parseElements n

/-- `ParseArray(length)`. -/
def parseArray (length : ℕ) : ReadM Unit := do
  resetToken
  call (.startArray (some length))
  parseElements parse length
  call (.endArray length)

/-- The loop over the members that remain. -/
def parseMembers : ℕ → ReadM Unit
  | 0 => pure ()
  | n + 1 => do
    parseKey
    parse
    if n ≠ 0 then
      call .mapSeparator
    parseMembers n

/-- `ParseMap(length)`. -/
def parseMap (length : ℕ) : ReadM Unit := do
  resetToken
  call (.startMap (some length))
  parseMembers parse length
  call (.endMap length)

/-- `ParseLookup`. -/
def parseLookup (token : UInt8) : ReadM Unit :=
  if token < 0x80 then parsePositiveFixInt
  else if token < 0x90 then parseMap parse (token &&& 0xf).toNat
  else if token < 0xa0 then parseArray parse (token &&& 0xf).toNat
  else if token < 0xc0 then parseFixStr
  else if 0xe0 ≤ token then parseNegativeFixInt
  else if token = Format.nil then parseNull
  else if token = Format.falseToken then parseFalse
  else if token = Format.trueToken then parseTrue
  else if token = Format.bin8 then parseBin8
  else if token = Format.bin16 then parseBin16
  else if token = Format.bin32 then parseBin32
  else if token = Format.float32 then parseFloat32
  else if token = Format.float64 then parseFloat64
  else if token = Format.uint8 then parseUint8
  else if token = Format.uint16 then parseUint16
  else if token = Format.uint32 then parseUint32
  else if token = Format.uint64 then parseUint64
  else if token = Format.int8 then parseInt8
  else if token = Format.int16 then parseInt16
  else if token = Format.int32 then parseInt32
  else if token = Format.int64 then parseInt64
  else if token = Format.str8 then parseStr8
  else if token = Format.str16 then parseStr16
  else if token = Format.str32 then parseStr32
  else if token = Format.array16 then do parseArray parse (ofBigEndian (← readAll 2))
  else if token = Format.array32 then do parseArray parse (ofBigEndian (← readAll 4))
  else if token = Format.map16 then do parseMap parse (ofBigEndian (← readAll 2))
  else if token = Format.map32 then do parseMap parse (ofBigEndian (← readAll 4))
  else if token = Format.illegal then throwValueInvalid
  -- The extension formats.
  else anyrpcThrow ErrorCode.notImplemented (ascii "Feature not implemented")

end

/-- `ParseStream()`, to a depth of nesting. -/
def parse : ℕ → ReadM Unit
  | 0 => throw .outOfFuel
  | depth + 1 => do
    if !(← get).sub.tokenValid && (← eof) then
      throwTermination
    else
      getToken
      parseLookup (parse depth) (← get).sub.token

/-- `ParseStream(handler)`. Every level of nesting takes a byte of the stream. -/
def parseStream {σ : Type} [Handler σ] (is : ReadStream) (h : σ) :
    Except Fault (Parsed σ MessagePackReader) :=
  Reader.parseStream (parse (is.rest.length + 1)) (new is) h

end MessagePackReader

end AnyRpc
