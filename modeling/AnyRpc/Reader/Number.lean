import AnyRpc.Foundation.Decimal
import AnyRpc.Reader.Reader

/-! # Numbers in the text formats

`ParseNumber`, of which `JsonReader` and `XmlReader` have the same copy up to the event at its end.
All it does to the stream is to look at the next byte and to take it, so it is a computation over
the bytes that are left. Its `int` variables are integers here: what leaves the range of an `int` is
undefined, and so is a power of ten that the table of `Pow10` does not have. -/

namespace AnyRpc

open Library

/-! ## Computations over the text that is left -/

namespace Text

/-- `is_.Peek()`. -/
def peek : Exec Bytes UInt8 := fun s => .ok (s.headD 0) s

/-- `is_.Get()`. -/
def get : Exec Bytes UInt8 := fun s => .ok (s.headD 0) s.tail

section

variable (s : Bytes)

@[simp] theorem peek_apply : peek s = .ok (s.headD 0) s := rfl

@[simp] theorem get_apply : get s = .ok (s.headD 0) s.tail := rfl

end

end Text

/-- A computation over the text, of a reader: it consumes what is no longer left. -/
def Reader.onText {τ α : Type} (p : Exec Bytes α) : Reader τ α := fun s =>
  match p s.is.rest with
  | .ok a rest => .ok a { s with is := s.is.advance (s.is.rest.length - rest.length) }
  | .error f rest => .error f { s with is := s.is.advance (s.is.rest.length - rest.length) }

theorem Reader.onText_of_ok {τ α : Type} {p : Exec Bytes α} {s : ReaderState τ} {a : α} {r : Bytes}
    (h : p s.is.rest = .ok a r) :
    onText p s = .ok a { s with is := s.is.advance (s.is.rest.length - r.length) } := by
  simp only [onText, h]

theorem Reader.onText_of_error {τ α : Type} {p : Exec Bytes α} {s : ReaderState τ} {f : Fault}
    {r : Bytes} (h : p s.is.rest = .error f r) :
    onText p s = .error f { s with is := s.is.advance (s.is.rest.length - r.length) } := by
  simp only [onText, h]

/-- `c - '0'`. -/
@[irreducible] def digitValue (c : UInt8) : ℕ := c.toNat - 0x30

/-- A result of `int` arithmetic. -/
def checkInt (z : ℤ) : Except Fault ℤ :=
  if -2 ^ 31 ≤ z ∧ z < 2 ^ 31 then .ok z else .error .undefined

/-! ## The locals of `ParseNumber` -/

/-- The locals of `ParseNumber`. -/
structure ParseNumber where
  minus : Bool := false
  /-- An `unsigned`. -/
  i : ℕ := 0
  /-- A `uint64_t`. -/
  i64 : ℕ := 0
  use64bit : Bool := false
  significandDigit : ℕ := 0
  useDouble : Bool := false
  d : BitVec 64 := 0
  expFrac : ℤ := 0
  exp : ℤ := 0

namespace ParseNumber

/-- What stops a loop before a digit: a fault, or the locals with which it is left. -/
abbrev Stop := ParseNumber → UInt8 → Except Fault (Option ParseNumber)

/-- What a loop does with a digit. -/
abbrev Next := ParseNumber → ℕ → Except Fault ParseNumber

/-- `while (isdigit(is_.Peek()))`, with a body that looks at the digit, then takes it. -/
def whileDigit (stop : Stop) (next : Next) (n : ParseNumber) : Exec Bytes ParseNumber
  | [] => .ok n []
  | c :: s =>
    if isDigit c then
      match stop n c with
      | .error f => .error f (c :: s)
      | .ok (some n) => .ok n (c :: s)
      | .ok none =>
        match next n (digitValue c) with
        | .error f => .error f s
        | .ok n => whileDigit stop next n s
    else .ok n (c :: s)

/-- A loop that only a byte that is no digit ends. -/
def never : Stop := fun _ _ => .ok none

/-- `is_.Get() - '0'`. -/
def getDigit : Exec Bytes ℕ := do return digitValue (← Text.get)

/-- `anyrpc_throw(AnyRpcErrorNumberTooBig, ...)`. -/
def tooBig : Fault :=
  .exception { code := ErrorCode.numberTooBig
               message := ascii "Number too big to be stored in double" }

/-! ## The integer -/

/-- Parse minus. -/
def parseMinus : Exec Bytes ParseNumber := do
  if (← Text.peek) = 0x2d then
    let _ ← Text.get
    return { minus := true }
  else
    return {}

/-- The digit would not fit into 32 bits: `2^31 = 2147483648`, `2^32 - 1 = 4294967295`. -/
def stop32 : Stop := fun n c =>
  let limit := if n.minus then 214748364 else 429496729
  let last : UInt8 := if n.minus then 0x38 else 0x35
  if limit ≤ n.i ∧ (n.i ≠ limit ∨ last < c) then
    .ok (some { n with i64 := n.i, use64bit := true })
  else .ok none

def next32 : Next := fun n digit =>
  .ok { n with i := (n.i * 10 + digit) % 2 ^ 32, significandDigit := n.significandDigit + 1 }

/-- Parse int: zero / ( digit1-9 *DIGIT ). -/
def parseInt (n : ParseNumber) : Exec Bytes ParseNumber := do
  if (← Text.peek) = 0x30 then
    let _ ← Text.get
    return { n with i := 0 }
  else if isDigit (← Text.peek) then
    whileDigit stop32 next32 { n with i := ← getDigit }
  else
    anyrpcThrow ErrorCode.valueInvalid (ascii "Invalid value")

variable [Platform]

/-- `10.0`. -/
def ten : BitVec 64 := Platform.doubleOfNat 10

/-- `d * 10.0 + digit`. -/
def appendDigit (d : BitVec 64) (digit : ℕ) : BitVec 64 :=
  Platform.add (Platform.mul d ten) (Platform.doubleOfNat digit)

/-- The digit would not fit into 64 bits: `2^63 = 9223372036854775808`,
`2^64 - 1 = 18446744073709551615`. -/
def stop64 : Stop := fun n c =>
  let limit := if n.minus then 0x0CCCCCCCCCCCCCCC else 0x1999999999999999
  let last : UInt8 := if n.minus then 0x38 else 0x35
  if limit ≤ n.i64 ∧ (n.i64 ≠ limit ∨ last < c) then
    .ok (some { n with d := Platform.doubleOfNat n.i64, useDouble := true })
  else .ok none

def next64 : Next := fun n digit =>
  .ok { n with i64 := (n.i64 * 10 + digit) % 2 ^ 64, significandDigit := n.significandDigit + 1 }

/-- Parse 64bit int. -/
def parseInt64 (n : ParseNumber) : Exec Bytes ParseNumber :=
  if n.use64bit then whileDigit stop64 next64 n else pure n

/-- The bits of `1.7976931348623157e307`, which is `DBL_MAX / 10.0`. -/
def maxTenth : BitVec 64 := 0x7fb9999999999999

def stopTooBig : Stop := fun n _ =>
  if Platform.ge n.d maxTenth then .error tooBig else .ok none

def nextDouble : Next := fun n digit => .ok { n with d := appendDigit n.d digit }

/-- Force double for big integer. -/
def parseBigInt (n : ParseNumber) : Exec Bytes ParseNumber :=
  if n.useDouble then whileDigit stopTooBig nextDouble n else pure n

/-! ## The fraction -/

/-- The significand has the `2^53 - 1` of the fast path. -/
def stopFrac : Stop := fun n _ => .ok (if 0x1FFFFFFFFFFFFF < n.i64 then some n else none)

def nextFrac : Next := fun n digit => do
  let i64 := (n.i64 * 10 + digit) % 2 ^ 64
  let expFrac ← checkInt (n.expFrac - 1)
  return { n with i64, expFrac,
                  significandDigit := if i64 ≠ 0 then n.significandDigit + 1 else n.significandDigit }

/-- A digit of the fraction, which counts up to 17 digits of the significand. -/
def nextFracDouble : Next := fun n digit =>
  if n.significandDigit < 17 then do
    let d := appendDigit n.d digit
    let expFrac ← checkInt (n.expFrac - 1)
    return { n with d, expFrac,
                    significandDigit :=
                      if Platform.ne d 0 then n.significandDigit + 1 else n.significandDigit }
  else .ok n

/-- The significand in 64 bits, as far as it goes, and from there on as a double. -/
def parseFracDigits (n : ParseNumber) : Exec Bytes ParseNumber := do
  if !n.useDouble then
    let n ← whileDigit stopFrac nextFrac (if n.use64bit then n else { n with i64 := n.i })
    whileDigit never nextFracDouble { n with d := Platform.doubleOfNat n.i64, useDouble := true }
  else
    whileDigit never nextFracDouble n

/-- Parse frac = decimal-point 1*DIGIT. -/
def parseFrac (n : ParseNumber) : Exec Bytes ParseNumber := do
  if (← Text.peek) = 0x2e then
    let _ ← Text.get
    if !isDigit (← Text.peek) then
      anyrpcThrow ErrorCode.numberMissFraction (ascii "Missing fraction part in number")
    parseFracDigits n
  else
    return n

/-! ## The exponent -/

/-- A digit of the exponent: `exp > 308` is checked for all but the first one. -/
def nextExp (expMinus : Bool) : Next := fun n digit => do
  let exp ← checkInt (n.exp * 10 + digit)
  if 308 < exp ∧ expMinus = false then .error tooBig
  else return { n with exp }

/-- The sign of the exponent, and whether it is a minus. -/
def parseExpSign : Exec Bytes Bool := do
  if (← Text.peek) = 0x2b then
    let _ ← Text.get
    return false
  else if (← Text.peek) = 0x2d then
    let _ ← Text.get
    return true
  else
    return false

/-- The digits of the exponent. -/
def parseExpDigits (expMinus : Bool) (n : ParseNumber) : Exec Bytes ParseNumber := do
  if isDigit (← Text.peek) then
    let n ← whileDigit never (nextExp expMinus) { n with exp := ← getDigit }
    return if expMinus then { n with exp := -n.exp } else n
  else
    anyrpcThrow ErrorCode.numberMissExponent (ascii "Missing exponent in number")

/-- Parse exp = e [ minus / plus ] 1*DIGIT. -/
def parseExp (n : ParseNumber) : Exec Bytes ParseNumber := do
  if (← Text.peek) = 0x65 ∨ (← Text.peek) = 0x45 then
    let n := if n.useDouble then n else
      { n with d := Platform.doubleOfNat (if n.use64bit then n.i64 else n.i), useDouble := true }
    let _ ← Text.get
    parseExpDigits (← parseExpSign) n
  else
    return n

/-- `ParseNumber` up to the end of the number. -/
def parse : Exec Bytes ParseNumber := do
  let n ← parseMinus
  let n ← parseInt n
  let n ← parseInt64 n
  let n ← parseBigInt n
  let n ← parseFrac n
  parseExp n

/-! ## The value -/

/-- `internal::Pow10`. -/
def pow10 (n : ℤ) : Except Fault (BitVec 64) :=
  if 0 ≤ n ∧ n ≤ 308 then .ok (Platform.tenPow n.toNat) else .error .undefined

/-- `internal::FastPath`. -/
def fastPath (significand : BitVec 64) (exp : ℤ) : Except Fault (BitVec 64) :=
  if exp < -308 then .ok 0
  else if 0 ≤ exp then do return Platform.mul significand (← pow10 exp)
  else do return Platform.div significand (← pow10 (-exp))

/-- `internal::StrtodNormalPrecision`. -/
def strtodNormalPrecision (d : BitVec 64) (p : ℤ) : Except Fault (BitVec 64) :=
  if p < -308 then do
    -- Prevent an exponent below -308, for which the power is 0.
    fastPath (← fastPath d (-308)) (p + 308)
  else fastPath d p

/-- The double, without its sign. -/
def double (n : ParseNumber) : Except Fault (BitVec 64) := do
  strtodNormalPrecision n.d (← checkInt (n.exp + n.expFrac))

end ParseNumber

end AnyRpc
