import AnyRpc.Foundation.Exception

/-! # Numbers

The number part of a `Value`: a word of flags and the 64-bit union `Number`. The integer
constructors set flags by range so that the accessors never convert; all of them agree on the
integers that several can hold (`Number.ofInt_eq` and its siblings). -/

namespace AnyRpc

/-! ## Flags -/

namespace ValueFlags

/-- `BoolFlag`. -/
def boolFlag : BitVec 32 := 0x00000100
/-- `NumberFlag`. -/
def numberFlag : BitVec 32 := 0x00000200
/-- `IntFlag`. -/
def intFlag : BitVec 32 := 0x00000400
/-- `UintFlag`. -/
def uintFlag : BitVec 32 := 0x00000800
/-- `Int64Flag`. -/
def int64Flag : BitVec 32 := 0x00001000
/-- `Uint64Flag`. -/
def uint64Flag : BitVec 32 := 0x00002000
/-- `FloatFlag`. -/
def floatFlag : BitVec 32 := 0x00004000
/-- `DoubleFlag`. -/
def doubleFlag : BitVec 32 := 0x00008000

/-- `NumberType`, the seventh member of `ValueType`. -/
def numberType : BitVec 32 := 7

/-- The flags of an `int`. -/
def numberIntFlag : BitVec 32 := numberType ||| numberFlag ||| intFlag ||| int64Flag
/-- The flags of an `unsigned`. -/
def numberUintFlag : BitVec 32 :=
  numberType ||| numberFlag ||| uintFlag ||| uint64Flag ||| int64Flag
/-- The flags of an `int64_t`. -/
def numberInt64Flag : BitVec 32 := numberType ||| numberFlag ||| int64Flag
/-- The flags of a `uint64_t`. -/
def numberUint64Flag : BitVec 32 := numberType ||| numberFlag ||| uint64Flag
/-- The flags of a `float`. -/
def numberFloatFlag : BitVec 32 := numberType ||| numberFlag ||| floatFlag
/-- The flags of a `double`. -/
def numberDoubleFlag : BitVec 32 := numberType ||| numberFlag ||| floatFlag ||| doubleFlag

end ValueFlags

open ValueFlags

/-- A number: `flags_` and the bits of the `Number` union. -/
structure Number where
  /-- The flags word, which says how the data may be accessed. -/
  flags : BitVec 32
  /-- The 64 bits of the union (little-endian: the `int` and the `float` are the low word). -/
  data : BitVec 64
  deriving DecidableEq, Repr

namespace Number

/-- A flag test, `(flags_ & flag) != 0`. -/
def has (n : Number) (flag : BitVec 32) : Bool := n.flags &&& flag ≠ 0

/-- `IsInt`. -/
def isInt (n : Number) : Bool := n.has intFlag
/-- `IsUint`. -/
def isUint (n : Number) : Bool := n.has uintFlag
/-- `IsInt64`. -/
def isInt64 (n : Number) : Bool := n.has int64Flag
/-- `IsUint64`. -/
def isUint64 (n : Number) : Bool := n.has uint64Flag
/-- `IsFloat`. -/
def isFloat (n : Number) : Bool := n.has floatFlag
/-- `IsDouble`. -/
def isDouble (n : Number) : Bool := n.has doubleFlag

/-- `Value(int i)`. -/
def ofInt (i : BitVec 32) : Number where
  flags := if 0 ≤ i.toInt then numberIntFlag ||| (uintFlag ||| uint64Flag) else numberIntFlag
  data := i.signExtend 64

/-- `Value(unsigned u)`. -/
def ofUint (u : BitVec 32) : Number where
  flags := if u &&& 0x80000000 = 0 then numberUintFlag ||| (intFlag ||| int64Flag)
    else numberUintFlag
  data := u.setWidth 64

/-- `Value(int64_t i64)`. -/
def ofInt64 (i64 : BitVec 64) : Number where
  flags :=
    if 0 ≤ i64.toInt then
      let flags := numberInt64Flag ||| numberUint64Flag
      let flags := if i64 &&& 0xFFFFFFFF00000000 = 0 then flags ||| uintFlag else flags
      if i64 &&& 0xFFFFFFFF80000000 = 0 then flags ||| intFlag else flags
    else if (0xFFFFFFFF80000000 : BitVec 64).toInt ≤ i64.toInt then numberInt64Flag ||| intFlag
    else numberInt64Flag
  data := i64

/-- `Value(uint64_t u64)`. -/
def ofUint64 (u64 : BitVec 64) : Number where
  flags :=
    let flags := numberUint64Flag
    let flags := if u64 &&& 0x8000000000000000 = 0 then flags ||| int64Flag else flags
    let flags := if u64 &&& 0xFFFFFFFF00000000 = 0 then flags ||| uintFlag else flags
    if u64 &&& 0xFFFFFFFF80000000 = 0 then flags ||| intFlag else flags
  data := u64

/-- `Value(float f)`, the bits of the float in the low word. -/
def ofFloat (f : BitVec 32) : Number := ⟨numberFloatFlag, f.setWidth 64⟩

/-- `Value(double d)`. -/
def ofDouble (d : BitVec 64) : Number := ⟨numberDoubleFlag, d⟩

/-! ## The integer a number stands for -/

/-- The flags word of an integer that fits the selected types. -/
def flagWord (int uint int64 uint64 : Bool) : BitVec 32 :=
  numberType ||| numberFlag ||| (bif int then intFlag else 0) |||
    (bif uint then uintFlag else 0) ||| (bif int64 then int64Flag else 0) |||
    (bif uint64 then uint64Flag else 0)

/-- The flags every constructor gives for an integer, by its range alone. -/
def integerFlags (z : ℤ) : BitVec 32 :=
  flagWord (decide (-2 ^ 31 ≤ z ∧ z < 2 ^ 31)) (decide (0 ≤ z ∧ z < 2 ^ 32))
    (decide (z < 2 ^ 63)) (decide (0 ≤ z))

/-- The number for an integer of the joint range of `int64_t` and `uint64_t`. -/
def ofInteger (z : ℤ) : Number := ⟨integerFlags z, BitVec.ofInt 64 z⟩

/-- The integers that some constructor can hold. -/
def InRange (z : ℤ) : Prop := -2 ^ 63 ≤ z ∧ z < 2 ^ 64

/-- A mask of all bits from `k` up tests whether a word is below `2 ^ k`. -/
theorem and_highMask_eq_zero {w k : ℕ} {m : BitVec w} (hm : (~~~m).toNat = 2 ^ k - 1)
    (x : BitVec w) : x &&& m = 0 ↔ x.toNat < 2 ^ k := by
  have hlow : (x &&& ~~~m).toNat = x.toNat % 2 ^ k := by
    rw [BitVec.toNat_and, hm, Nat.and_two_pow_sub_one_eq_mod]
  constructor
  · intro h
    have hx : x = x &&& ~~~m := by
      ext i hi
      have hbit := congrArg (fun y : BitVec w => y[i]) h
      simp only [BitVec.getElem_and, BitVec.getElem_not] at hbit ⊢
      cases hxi : x[i] <;> simp_all
    rw [hx, hlow]
    exact Nat.mod_lt _ (by positivity)
  · intro h
    have hx : x = x &&& ~~~m := by
      apply BitVec.eq_of_toNat_eq
      rw [hlow, Nat.mod_eq_of_lt h]
    rw [hx, BitVec.and_assoc, BitVec.and_comm (~~~m), BitVec.and_not_self]
    exact BitVec.and_zero

/-- `Value(int)` gives the number of its argument. -/
theorem ofInt_eq (i : BitVec 32) : ofInt i = ofInteger i.toInt := by
  have hlo := BitVec.le_toInt i
  have hhi := BitVec.toInt_lt (x := i)
  have h31 : decide (-2 ^ 31 ≤ i.toInt ∧ i.toInt < 2 ^ 31) = true := by simp; omega
  have h63 : decide (i.toInt < 2 ^ 63) = true := by simp; omega
  have h32 : decide (0 ≤ i.toInt ∧ i.toInt < 2 ^ 32) = decide (0 ≤ i.toInt) := by
    simp only [decide_eq_decide]; omega
  simp only [ofInt, ofInteger, integerFlags, mk.injEq, h31, h63, h32]
  refine ⟨?_, by rw [BitVec.signExtend]⟩
  by_cases h : 0 ≤ i.toInt
  · rw [if_pos h, decide_eq_true h]
    decide
  · rw [if_neg h, decide_eq_false h]
    decide

/-- `Value(unsigned)` gives the number of its argument. -/
theorem ofUint_eq (u : BitVec 32) : ofUint u = ofInteger u.toNat := by
  have hu := u.isLt
  have hmask := and_highMask_eq_zero (k := 31) (m := (0x80000000 : BitVec 32)) (by decide) u
  have h32 : decide (0 ≤ (u.toNat : ℤ) ∧ (u.toNat : ℤ) < 2 ^ 32) = true := by simp; omega
  have h63 : decide ((u.toNat : ℤ) < 2 ^ 63) = true := by simp; omega
  have h0 : decide (0 ≤ (u.toNat : ℤ)) = true := by simp
  have h31 : decide (-2 ^ 31 ≤ (u.toNat : ℤ) ∧ (u.toNat : ℤ) < 2 ^ 31)
      = decide (u.toNat < 2 ^ 31) := by
    simp only [decide_eq_decide]; omega
  simp only [ofUint, ofInteger, integerFlags, mk.injEq, hmask, h31, h32, h63, h0]
  refine ⟨?_, ?_⟩
  · by_cases h : u.toNat < 2 ^ 31
    · rw [if_pos h, decide_eq_true h]
      decide
    · rw [if_neg h, decide_eq_false h]
      decide
  · apply BitVec.eq_of_toNat_eq
    rw [BitVec.ofInt_natCast, BitVec.toNat_setWidth, BitVec.toNat_ofNat]

/-- `Value(int64_t)` gives the number of its argument. -/
theorem ofInt64_eq (i64 : BitVec 64) : ofInt64 i64 = ofInteger i64.toInt := by
  have hlo := BitVec.le_toInt i64
  have hhi := BitVec.toInt_lt (x := i64)
  have hu := and_highMask_eq_zero (k := 32) (m := (0xFFFFFFFF00000000 : BitVec 64)) (by decide) i64
  have hi := and_highMask_eq_zero (k := 31) (m := (0xFFFFFFFF80000000 : BitVec 64)) (by decide) i64
  have hmin : (0xFFFFFFFF80000000 : BitVec 64).toInt = -2 ^ 31 := by decide
  have h63 : decide (i64.toInt < 2 ^ 63) = true := by simp; omega
  simp only [ofInt64, ofInteger, integerFlags, mk.injEq, hmin, hu, hi, h63]
  refine ⟨?_, (BitVec.ofInt_toInt).symm⟩
  by_cases h0 : 0 ≤ i64.toInt
  · have hnat : (i64.toNat : ℤ) = i64.toInt := by
      rw [BitVec.toInt_eq_toNat_cond] at h0 ⊢
      split <;> omega
    have h31 : decide (-2 ^ 31 ≤ i64.toInt ∧ i64.toInt < 2 ^ 31) = decide (i64.toNat < 2 ^ 31) := by
      simp only [decide_eq_decide]; omega
    have h32 : decide (0 ≤ i64.toInt ∧ i64.toInt < 2 ^ 32) = decide (i64.toNat < 2 ^ 32) := by
      simp only [decide_eq_decide]; omega
    rw [if_pos h0, h31, h32, decide_eq_true h0]
    by_cases c31 : i64.toNat < 2 ^ 31
    · rw [if_pos c31, if_pos (show i64.toNat < 2 ^ 32 by omega), decide_eq_true c31,
        decide_eq_true (show i64.toNat < 2 ^ 32 by omega)]
      decide
    · rw [if_neg c31, decide_eq_false c31]
      by_cases c32 : i64.toNat < 2 ^ 32
      · rw [if_pos c32, decide_eq_true c32]
        decide
      · rw [if_neg c32, decide_eq_false c32]
        decide
  · have h32 : decide (0 ≤ i64.toInt ∧ i64.toInt < 2 ^ 32) = false := by simp; omega
    have h31 : decide (-2 ^ 31 ≤ i64.toInt ∧ i64.toInt < 2 ^ 31)
        = decide (-2 ^ 31 ≤ i64.toInt) := by
      simp only [decide_eq_decide]; omega
    rw [if_neg h0, h31, h32, decide_eq_false h0]
    by_cases c31 : -2 ^ 31 ≤ i64.toInt
    · rw [if_pos c31, decide_eq_true c31]
      decide
    · rw [if_neg c31, decide_eq_false c31]
      decide

/-- `Value(uint64_t)` gives the number of its argument. -/
theorem ofUint64_eq (u64 : BitVec 64) : ofUint64 u64 = ofInteger u64.toNat := by
  have h63 := and_highMask_eq_zero (k := 63) (m := (0x8000000000000000 : BitVec 64)) (by decide) u64
  have h32 := and_highMask_eq_zero (k := 32) (m := (0xFFFFFFFF00000000 : BitVec 64)) (by decide) u64
  have h31 := and_highMask_eq_zero (k := 31) (m := (0xFFFFFFFF80000000 : BitVec 64)) (by decide) u64
  have c31 : decide (-2 ^ 31 ≤ (u64.toNat : ℤ) ∧ (u64.toNat : ℤ) < 2 ^ 31)
      = decide (u64.toNat < 2 ^ 31) := by
    simp only [decide_eq_decide]; omega
  have c32 : decide (0 ≤ (u64.toNat : ℤ) ∧ (u64.toNat : ℤ) < 2 ^ 32)
      = decide (u64.toNat < 2 ^ 32) := by
    simp only [decide_eq_decide]; omega
  have c63 : decide ((u64.toNat : ℤ) < 2 ^ 63) = decide (u64.toNat < 2 ^ 63) := by
    simp only [decide_eq_decide]; omega
  have c0 : decide (0 ≤ (u64.toNat : ℤ)) = true := by simp
  simp only [ofUint64, ofInteger, integerFlags, mk.injEq, h63, h32, h31, c31, c32, c63, c0]
  refine ⟨?_, by rw [BitVec.ofInt_natCast, BitVec.ofNat_toNat, BitVec.setWidth_eq]⟩
  -- Only the four nested ranges below 2 ^ 31, 2 ^ 32, 2 ^ 63 and 2 ^ 64 are possible.
  by_cases b31 : u64.toNat < 2 ^ 31
  · rw [if_pos b31, if_pos (show u64.toNat < 2 ^ 32 by omega),
      if_pos (show u64.toNat < 2 ^ 63 by omega), decide_eq_true b31,
      decide_eq_true (show u64.toNat < 2 ^ 32 by omega),
      decide_eq_true (show u64.toNat < 2 ^ 63 by omega)]
    decide
  · rw [if_neg b31, decide_eq_false b31]
    by_cases b32 : u64.toNat < 2 ^ 32
    · rw [if_pos b32, if_pos (show u64.toNat < 2 ^ 63 by omega), decide_eq_true b32,
        decide_eq_true (show u64.toNat < 2 ^ 63 by omega)]
      decide
    · rw [if_neg b32, decide_eq_false b32]
      by_cases b63 : u64.toNat < 2 ^ 63
      · rw [if_pos b63, decide_eq_true b63]
        decide
      · rw [if_neg b63, decide_eq_false b63]
        decide

/-! ## Accessors on the number of an integer -/

/-- Each type flag of a flags word is the selection it was built from. -/
theorem flagWord_and (int uint int64 uint64 : Bool) :
    decide (flagWord int uint int64 uint64 &&& intFlag ≠ 0) = int ∧
      decide (flagWord int uint int64 uint64 &&& uintFlag ≠ 0) = uint ∧
      decide (flagWord int uint int64 uint64 &&& int64Flag ≠ 0) = int64 ∧
      decide (flagWord int uint int64 uint64 &&& uint64Flag ≠ 0) = uint64 := by
  revert int uint int64 uint64
  decide

section Integer

variable (z : ℤ)

/-- An integer is an `int` exactly if it is in range. -/
@[simp] theorem isInt_ofInteger : (ofInteger z).isInt = decide (-2 ^ 31 ≤ z ∧ z < 2 ^ 31) :=
  (flagWord_and _ _ _ _).1

/-- So it is with `unsigned`. -/
@[simp] theorem isUint_ofInteger : (ofInteger z).isUint = decide (0 ≤ z ∧ z < 2 ^ 32) :=
  (flagWord_and _ _ _ _).2.1

/-- So it is with `int64_t`. -/
@[simp] theorem isInt64_ofInteger : (ofInteger z).isInt64 = decide (z < 2 ^ 63) :=
  (flagWord_and _ _ _ _).2.2.1

/-- So it is with `uint64_t`. -/
@[simp] theorem isUint64_ofInteger : (ofInteger z).isUint64 = decide (0 ≤ z) :=
  (flagWord_and _ _ _ _).2.2.2

end Integer

/-- A double carries no integer flag, and its double flag. -/
theorem flags_ofDouble (d : BitVec 64) :
    (ofDouble d).isInt = false ∧ (ofDouble d).isUint = false ∧ (ofDouble d).isInt64 = false ∧
      (ofDouble d).isUint64 = false ∧ (ofDouble d).isDouble = true := by
  show decide (numberDoubleFlag &&& intFlag ≠ 0) = false ∧
    decide (numberDoubleFlag &&& uintFlag ≠ 0) = false ∧
    decide (numberDoubleFlag &&& int64Flag ≠ 0) = false ∧
    decide (numberDoubleFlag &&& uint64Flag ≠ 0) = false ∧
    decide (numberDoubleFlag &&& doubleFlag ≠ 0) = true
  decide

end Number

end AnyRpc
