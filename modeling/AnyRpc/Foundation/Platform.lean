import AnyRpc.Foundation.Text

/-! # The platform

The parts of the C library and of the floating-point unit that the program rests on: the calendar,
and the operations on doubles, which are given by their 64 bits. -/

namespace AnyRpc

/-- The fields of `struct tm` that the program reads and writes. -/
structure Tm where
  year : ℤ
  mon : ℤ
  mday : ℤ
  hour : ℤ
  min : ℤ
  sec : ℤ
  deriving DecidableEq, Repr

/-- The platform the program runs on. -/
class Platform where
  /-- `localtime_r`. -/
  localtime : ℤ → Tm
  /-- `mktime` with `tm_isdst` set to `-1`. -/
  mktime : Tm → ℤ
  /-- The conversion of a `float` to a `double`. -/
  floatToDouble : BitVec 32 → BitVec 64
  /-- The conversion of an unsigned integer to a `double`. -/
  doubleOfNat : ℕ → BitVec 64
  /-- Addition of doubles. -/
  add : BitVec 64 → BitVec 64 → BitVec 64
  /-- Multiplication of doubles. -/
  mul : BitVec 64 → BitVec 64 → BitVec 64
  /-- Division of doubles. -/
  div : BitVec 64 → BitVec 64 → BitVec 64
  /-- Negation of a double. -/
  neg : BitVec 64 → BitVec 64
  /-- The comparison `>=` of doubles. -/
  ge : BitVec 64 → BitVec 64 → Bool
  /-- The comparison `!=` of doubles. -/
  ne : BitVec 64 → BitVec 64 → Bool
  /-- The literals `1e+0` to `1e+308`. -/
  tenPow : ℕ → BitVec 64
  /-- `snprintf` with the format `%.*g`, given the precision. -/
  formatG : ℕ → BitVec 64 → Bytes

/-- A point in time in the format `%4d%02d%02dT%02d:%02d:%02d` of the writers, where `localtime_r`
counts years from 1900 and months from 0. -/
def dateTimeText (t : Tm) : Bytes :=
  padded 0x20 4 (1900 + t.year) ++ padded 0x30 2 (1 + t.mon) ++ padded 0x30 2 t.mday ++ [0x54] ++
    padded 0x30 2 t.hour ++ [0x3a] ++ padded 0x30 2 t.min ++ [0x3a] ++ padded 0x30 2 t.sec

/-- The texts that `snprintf` makes of a double and of a point in time are short: the format `%g` has
six digits, and the fields of `struct tm` are of the type `int`. -/
structure Platform.Bounded [Platform] : Prop where
  formatG : ∀ d, (Platform.formatG 6 d).length < 100
  localtime : ∀ dt, let t := Platform.localtime dt
    ∀ z ∈ [t.year, t.mon, t.mday, t.hour, t.min, t.sec], z.natAbs ≤ 2 ^ 31

/-- A platform for examples that use neither the calendar nor the arithmetic of doubles. -/
@[reducible]
def Platform.blank : Platform where
  localtime _ := ⟨0, 0, 0, 0, 0, 0⟩
  mktime _ := 0
  floatToDouble _ := 0
  doubleOfNat _ := 0
  add _ _ := 0
  mul _ _ := 0
  div _ _ := 0
  neg _ := 0
  ge _ _ := false
  ne _ _ := false
  tenPow _ := 0
  formatG _ _ := []

theorem Platform.bounded_blank : @Platform.Bounded Platform.blank := by
  refine @Platform.Bounded.mk Platform.blank (fun _ => show 0 < 100 by decide) fun _ => ?_
  show ∀ z ∈ [(0 : ℤ), 0, 0, 0, 0, 0], z.natAbs ≤ 2 ^ 31
  decide

end AnyRpc
