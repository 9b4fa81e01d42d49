import Mathlib.Data.Nat.Digits.Defs
import Mathlib.Data.List.TakeWhile

/-! # Bytes and text

The program handles text as raw bytes (`char` arrays with a length). A byte is a `UInt8`; the
`char` comparisons of the source that are sensitive to the sign are written for the byte value they
amount to on a platform whose `char` is signed. -/

namespace AnyRpc

/-- A byte string of the program. -/
abbrev Bytes := List UInt8

/-- The bytes of an ASCII literal of the source. -/
def ascii (s : String) : Bytes := s.toList.map fun c => UInt8.ofNat c.toNat

/-- The part of a buffer that `strlen`, `strcmp` and `std::string(const char*)` see: everything
before the first null byte. -/
def cString (s : Bytes) : Bytes := s.takeWhile (· ≠ 0)

/-- `isspace` in the C locale. -/
def isSpace (c : UInt8) : Bool := c = 0x20 || (0x09 ≤ c && c ≤ 0x0d)

/-- `isdigit`. -/
def isDigit (c : UInt8) : Bool := 0x30 ≤ c && c ≤ 0x39

/-- The digit character of a digit value. -/
def digitChar (d : ℕ) : UInt8 := UInt8.ofNat (0x30 + d)

/-- `std::to_string` of an unsigned value. -/
def decimal (n : ℕ) : Bytes :=
  if n = 0 then [0x30] else (Nat.digits 10 n).reverse.map digitChar

/-- `std::to_string` of a signed value. -/
def decimalInt (z : ℤ) : Bytes :=
  if z < 0 then 0x2d :: decimal z.natAbs else decimal z.natAbs

/-- The conversion `%0Nd` of `snprintf`, or `%Nd` where the padding is a space. -/
def padded (pad : UInt8) (width : ℕ) (z : ℤ) : Bytes :=
  let digits := decimal z.natAbs
  let sign : Bytes := if z < 0 then [0x2d] else []
  let fill := List.replicate (width - sign.length - digits.length) pad
  if pad = 0x30 then sign ++ fill ++ digits else fill ++ sign ++ digits

/-- `hexDigits`, the table of upper-case hexadecimal digits that the writers share. -/
def hexDigit (d : ℕ) : UInt8 := if d < 10 then UInt8.ofNat (0x30 + d) else UInt8.ofNat (0x37 + d)

/-- The arguments `(const char* str, size_t length, bool copy)` of the functions that take a string:
the bytes, the byte that stands in memory right after them, and whether they are to be copied. -/
structure StrArg where
  /-- The bytes `str[0]` to `str[length - 1]`. -/
  bytes : Bytes
  /-- The byte `str[length]`, which a string that is referenced must have as its terminator. -/
  after : UInt8 := 0
  /-- Whether the string is copied rather than referenced. -/
  copy : Bool := true
  deriving DecidableEq, Repr

/-- A string that may be stored: copied, or terminated. -/
def StrArg.terminated (str : StrArg) : Bool := str.copy || str.after = 0

/-- A byte string without null bytes is its own C string. -/
theorem cString_of_notMem {s : Bytes} (h : (0 : UInt8) ∉ s) : cString s = s := by
  rw [cString, List.takeWhile_eq_self_iff]
  intro c hc
  simpa using fun h0 : c = 0 => h (h0 ▸ hc)

/-- A C string holds no null byte. -/
theorem notMem_cString (s : Bytes) : (0 : UInt8) ∉ cString s := by
  intro h
  simpa using List.mem_takeWhile_imp h

/-- The strings that are their own C string. -/
theorem cString_eq_self {s : Bytes} : cString s = s ↔ (0 : UInt8) ∉ s :=
  ⟨fun h => h ▸ notMem_cString s, cString_of_notMem⟩

end AnyRpc
