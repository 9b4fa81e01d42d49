import AnyRpc.Handler.Event

/-! # Integers

The integers of values: the constructors and setters of the four integer types, their tests and
getters, and the call by which a traversal reports the number. All of them agree on what an integer
is, whichever type it came in (`construct_integer`). -/

namespace AnyRpc

open Library

/-- The integer types of the accessors, in the order in which a traversal tests them. -/
inductive IntegerType where
  | int
  | unsigned
  | int64
  | uint64
  deriving DecidableEq, Repr

/-- A type can hold an integer. -/
def IntegerType.Fits : IntegerType → ℤ → Prop
  | int, z => -2 ^ 31 ≤ z ∧ z < 2 ^ 31
  | unsigned, z => 0 ≤ z ∧ z < 2 ^ 32
  | int64, z => -2 ^ 63 ≤ z ∧ z < 2 ^ 63
  | uint64, z => 0 ≤ z ∧ z < 2 ^ 64

instance (T : IntegerType) (z : ℤ) : Decidable (T.Fits z) :=
  match T with
  | .int | .unsigned | .int64 | .uint64 => inferInstanceAs (Decidable (_ ∧ _))

/-! ## Setters and getters -/

namespace Value

/-- The `int` of a number, by its low bits. -/
def int : Value → ℤ
  | number n => (n.data.setWidth 32).toInt
  | _ => 0

/-- `GetInt`. -/
def getInt {σ : Type} (v : Value) : Exec σ ℤ := do
  anyrpcAssert v.isInt ErrorCode.valueAccess (ascii "Not Int, type=" ++ decimal v.getType)
  return v.int

/-- The value is an `int`, and this one. -/
def HoldsInt (z : ℤ) (v : Value) : Prop := v.isInt = true ∧ v.int = z

instance (z : ℤ) (v : Value) : Decidable (v.HoldsInt z) := inferInstanceAs (Decidable (_ ∧ _))

/-- The `unsigned` of a number, by its low bits. -/
def uint : Value → ℤ
  | number n => (n.data.setWidth 32).toNat
  | _ => 0

/-- `GetUint`. -/
def getUint {σ : Type} (v : Value) : Exec σ ℤ := do
  anyrpcAssert v.isUint ErrorCode.valueAccess (ascii "Not Uint, type=" ++ decimal v.getType)
  return v.uint

/-- The `int64_t` of a number. -/
def i64 : Value → ℤ
  | number n => n.data.toInt
  | _ => 0

/-- `GetInt64`. -/
def getInt64 {σ : Type} (v : Value) : Exec σ ℤ := do
  anyrpcAssert v.isInt64 ErrorCode.valueAccess (ascii "Not Int64, type=" ++ decimal v.getType)
  return v.i64

/-- The `uint64_t` of a number. -/
def u64 : Value → ℤ
  | number n => n.data.toNat
  | _ => 0

/-- `GetUint64`. -/
def getUint64 {σ : Type} (v : Value) : Exec σ ℤ := do
  anyrpcAssert v.isUint64 ErrorCode.valueAccess (ascii "Not Uint64, type=" ++ decimal v.getType)
  return v.u64

/-- `SetInt` and the assignment of an `int`: what was there is destroyed. -/
def setInt (i : BitVec 32) : Exec Value Unit := set (number (.ofInt i))

/-- `SetUint` and the assignment of an `unsigned`. -/
def setUint (u : BitVec 32) : Exec Value Unit := set (number (.ofUint u))

/-- `SetInt64` and the assignment of an `int64_t`. -/
def setInt64 (i64 : BitVec 64) : Exec Value Unit := set (number (.ofInt64 i64))

/-- `SetUint64` and the assignment of a `uint64_t`. -/
def setUint64 (u64 : BitVec 64) : Exec Value Unit := set (number (.ofUint64 u64))

end Value

namespace IntegerType

/-- The constructor of a type, on an integer converted to the type. -/
def construct : IntegerType → ℤ → Value
  | int, z => .number (.ofInt (.ofInt 32 z))
  | unsigned, z => .number (.ofUint (.ofInt 32 z))
  | int64, z => .number (.ofInt64 (.ofInt 64 z))
  | uint64, z => .number (.ofUint64 (.ofInt 64 z))

/-- The setter of a type, on an integer converted to the type. -/
def setter : IntegerType → ℤ → Exec Value Unit
  | int, z => Value.setInt (.ofInt 32 z)
  | unsigned, z => Value.setUint (.ofInt 32 z)
  | int64, z => Value.setInt64 (.ofInt 64 z)
  | uint64, z => Value.setUint64 (.ofInt 64 z)

/-- The test for a type. -/
def test : IntegerType → Value → Bool
  | int => Value.isInt
  | unsigned => Value.isUint
  | int64 => Value.isInt64
  | uint64 => Value.isUint64

/-- The getter of a type. -/
def getter {σ : Type} : IntegerType → Value → Exec σ ℤ
  | int => Value.getInt
  | unsigned => Value.getUint
  | int64 => Value.getInt64
  | uint64 => Value.getUint64

/-- The call of a handler for a type. -/
def scalar : IntegerType → ℤ → Scalar
  | int, z => .int (.ofInt 32 z)
  | unsigned, z => .uint (.ofInt 32 z)
  | int64, z => .int64 (.ofInt 64 z)
  | uint64, z => .uint64 (.ofInt 64 z)

/-- The first of the types that can hold an integer. -/
def first? (z : ℤ) : Option IntegerType := [int, unsigned, int64, uint64].find? fun T => T.Fits z

variable {T : IntegerType} {z : ℤ}

/-- What fits a type is in the joint range of all. -/
theorem Fits.inRange (h : T.Fits z) : Number.InRange z := by
  rw [Number.InRange]
  cases T <;> simp only [Fits] at h <;> omega

/-- A constructor gives the number of the integer, whatever its type is. -/
theorem Fits.construct_eq (h : T.Fits z) : T.construct z = .number (.ofInteger z) := by
  cases T with
  | int =>
    rw [construct, Number.ofInt_eq, BitVec.toInt_ofInt_eq_self (by decide) h.1 h.2]
  | unsigned =>
    have hnat : ((BitVec.ofInt 32 z).toNat : ℤ) = z := by
      rw [BitVec.toNat_ofInt]
      obtain ⟨hlo, hhi⟩ := h
      omega
    rw [construct, Number.ofUint_eq, hnat]
  | int64 =>
    rw [construct, Number.ofInt64_eq, BitVec.toInt_ofInt_eq_self (by decide) h.1 h.2]
  | uint64 =>
    have hnat : ((BitVec.ofInt 64 z).toNat : ℤ) = z := by
      rw [BitVec.toNat_ofInt]
      obtain ⟨hlo, hhi⟩ := h
      omega
    rw [construct, Number.ofUint64_eq, hnat]

/-- A setter gives what the constructor gives, whatever it replaces. -/
theorem setter_apply (T : IntegerType) (z : ℤ) (v : Value) :
    T.setter z v = .ok () (T.construct z) := by
  cases T <;> rfl

end IntegerType

/-! ## Tests -/

/-- The type tests of a value answer by the ranges of the types. -/
structure Value.AnswersInteger (v : Value) (z : ℤ) : Prop where
  isInt : v.isInt = decide (-2 ^ 31 ≤ z ∧ z < 2 ^ 31)
  isUint : v.isUint = decide (0 ≤ z ∧ z < 2 ^ 32)
  isInt64 : v.isInt64 = decide (-2 ^ 63 ≤ z ∧ z < 2 ^ 63)
  isUint64 : v.isUint64 = decide (0 ≤ z ∧ z < 2 ^ 64)

/-- The number of an integer in range. -/
theorem Value.answersInteger_ofInteger {z : ℤ} (h : Number.InRange z) :
    (Value.number (.ofInteger z)).AnswersInteger z where
  isInt := Number.isInt_ofInteger z
  isUint := Number.isUint_ofInteger z
  isInt64 := by
    rw [Value.isInt64, Number.isInt64_ofInteger, decide_eq_decide]
    exact ⟨fun hlt => ⟨h.1, hlt⟩, And.right⟩
  isUint64 := by
    rw [Value.isUint64, Number.isUint64_ofInteger, decide_eq_decide]
    exact ⟨fun hle => ⟨hle, h.2⟩, And.left⟩

/-- A double for an integer out of range. -/
theorem Value.answersInteger_ofDouble {z : ℤ} (d : BitVec 64) (h : ¬ Number.InRange z) :
    (Value.number (.ofDouble d)).AnswersInteger z := by
  rw [Number.InRange] at h
  obtain ⟨hint, huint, hint64, huint64, -⟩ := Number.flags_ofDouble d
  refine ⟨hint.trans ?_, huint.trans ?_, hint64.trans ?_, huint64.trans ?_⟩
  · exact (decide_eq_false fun hz => h (by omega)).symm
  · exact (decide_eq_false fun hz => h (by omega)).symm
  · exact (decide_eq_false fun hz => h (by omega)).symm
  · exact (decide_eq_false fun hz => h (by omega)).symm

/-- A value that answers for an integer passes the tests for the types that can hold it. -/
theorem Value.AnswersInteger.test_iff {v : Value} {z : ℤ} (h : v.AnswersInteger z)
    (T : IntegerType) : T.test v = true ↔ T.Fits z := by
  cases T with
  | int => exact Bool.eq_iff_iff.mp h.isInt |>.trans decide_eq_true_iff
  | unsigned => exact Bool.eq_iff_iff.mp h.isUint |>.trans decide_eq_true_iff
  | int64 => exact Bool.eq_iff_iff.mp h.isInt64 |>.trans decide_eq_true_iff
  | uint64 => exact Bool.eq_iff_iff.mp h.isUint64 |>.trans decide_eq_true_iff

/-! ## The integer that is read -/

/-- The integer that a call delivers as one. -/
def Scalar.integer? : Scalar → Option ℤ
  | int i => some i.toInt
  | uint u => some u.toNat
  | int64 i64 => some i64.toInt
  | uint64 u64 => some u64.toNat
  | _ => none

/-- The integer that an event delivers as one. -/
def Event.integer? : Event → Option ℤ
  | scalar sc => sc.integer?
  | _ => none

namespace IntegerType

variable {T : IntegerType} {z : ℤ}

/-- The low word of an integer. -/
theorem setWidth_ofInteger (z : ℤ) :
    (Number.ofInteger z).data.setWidth 32 = BitVec.ofInt 32 z := by
  apply BitVec.eq_of_toNat_eq
  rw [Number.ofInteger, BitVec.toNat_setWidth, BitVec.toNat_ofInt, BitVec.toNat_ofInt]
  omega

/-- The call of a type delivers the integers that the type can hold. -/
theorem integer?_scalar (h : T.Fits z) : (T.scalar z).integer? = some z := by
  cases T with
  | int => rw [scalar, Scalar.integer?, BitVec.toInt_ofInt_eq_self (by decide) h.1 h.2]
  | int64 => rw [scalar, Scalar.integer?, BitVec.toInt_ofInt_eq_self (by decide) h.1 h.2]
  | unsigned | uint64 =>
    obtain ⟨hlo, hhi⟩ := h
    rw [scalar, Scalar.integer?, BitVec.toNat_ofInt]
    congr 1
    omega

/-- Where the test of a type allows it, its getter returns the integer. -/
theorem getter_of_test {σ : Type} (h : T.Fits z)
    (htest : T.test (.number (.ofInteger z)) = true) (s : σ) :
    T.getter (.number (.ofInteger z)) s = .ok z s := by
  have hdata := integer?_scalar h
  cases T with
  | int =>
    have hread : (Value.number (.ofInteger z)).int = z := by
      rw [Value.int, setWidth_ofInteger]
      exact Option.some.inj hdata
    have hallowed : (Value.number (.ofInteger z)).isInt = true := htest
    rw [getter, Value.getInt, hallowed, hread]
    rfl
  | unsigned =>
    have hread : (Value.number (.ofInteger z)).uint = z := by
      rw [Value.uint, setWidth_ofInteger]
      exact Option.some.inj hdata
    have hallowed : (Value.number (.ofInteger z)).isUint = true := htest
    rw [getter, Value.getUint, hallowed, hread]
    rfl
  | int64 =>
    have hread : (Value.number (.ofInteger z)).i64 = z := Option.some.inj hdata
    have hallowed : (Value.number (.ofInteger z)).isInt64 = true := htest
    rw [getter, Value.getInt64, hallowed, hread]
    rfl
  | uint64 =>
    have hread : (Value.number (.ofInteger z)).u64 = z := Option.some.inj hdata
    have hallowed : (Value.number (.ofInteger z)).isUint64 = true := htest
    rw [getter, Value.getUint64, hallowed, hread]
    rfl

/-- The call for a number is that of the first type that can hold the integer. -/
theorem numberScalar_ofInteger (h : Number.InRange z) :
    ∃ T, first? z = some T ∧ T.Fits z ∧ Value.numberScalar (.ofInteger z) = T.scalar z := by
  have hanswers := Value.answersInteger_ofInteger h
  have hint : (Number.ofInteger z).isInt = decide (int.Fits z) := hanswers.isInt
  have huint : (Number.ofInteger z).isUint = decide (unsigned.Fits z) := hanswers.isUint
  have hint64 : (Number.ofInteger z).isInt64 = decide (int64.Fits z) := hanswers.isInt64
  have huint64 : (Number.ofInteger z).isUint64 = decide (uint64.Fits z) := hanswers.isUint64
  simp only [first?, List.find?_cons, Value.numberScalar, hint, huint, hint64, huint64,
    setWidth_ofInteger]
  by_cases h₁ : int.Fits z
  · exact ⟨int, by simp [h₁], h₁, by simp [h₁, scalar]⟩
  · by_cases h₂ : unsigned.Fits z
    · exact ⟨unsigned, by simp [h₁, h₂], h₂, by simp [h₁, h₂, scalar]⟩
    · by_cases h₃ : int64.Fits z
      · exact ⟨int64, by simp [h₁, h₂, h₃], h₃, by simp [h₁, h₂, h₃, scalar, Number.ofInteger]⟩
      · -- What is left of the joint range is above that of `int64_t`.
        have h₄ : uint64.Fits z := by
          simp only [Fits, Number.InRange] at h h₃ ⊢
          omega
        exact ⟨uint64, by simp [h₁, h₂, h₃, h₄], h₄,
          by simp [h₁, h₂, h₃, h₄, scalar, Number.ofInteger]⟩

/-- An integer is the same value by every constructor and setter whose type can hold it. It passes
the tests for the types that can hold it, the getters that are allowed return it, and a traversal
reports it by the call of the first type that can. -/
theorem construct_integer (h : T.Fits z) :
    (∀ T' : IntegerType, T'.Fits z → T'.construct z = T.construct z) ∧
      (∀ v, T.setter z v = .ok () (T.construct z)) ∧
      (∀ T' : IntegerType, T'.test (T.construct z) = true ↔ T'.Fits z) ∧
      (∀ (T' : IntegerType) (σ : Type) (s : σ), T'.test (T.construct z) = true →
        T'.getter (T.construct z) s = .ok z s) ∧
      ∃ T', first? z = some T' ∧ (T'.scalar z).integer? = some z ∧
        ∀ (σ : Type) [Handler σ],
          ((T.construct z).traverse : Exec σ Unit) = Handler.handle (.scalar (T'.scalar z)) := by
  have hanswers := Value.answersInteger_ofInteger h.inRange
  rw [h.construct_eq]
  refine ⟨fun T' h' => h'.construct_eq, fun v => ?_, hanswers.test_iff, ?_, ?_⟩
  · rw [setter_apply, h.construct_eq]
  · intro T' σ s htest
    exact getter_of_test ((hanswers.test_iff T').mp htest) htest s
  · obtain ⟨T', hfirst, hfits, hscalar⟩ := numberScalar_ofInteger h.inRange
    refine ⟨T', hfirst, integer?_scalar hfits, fun σ _ => ?_⟩
    rw [Value.traverse, hscalar]

/-- The least `int`, which a 64-bit constructor can give as well. -/
theorem construct_integer_min : int64.construct (-2 ^ 31) = int.construct (-2 ^ 31) :=
  (construct_integer (T := int) (z := -2 ^ 31) (by decide)).1 int64 (by decide)

end IntegerType

end AnyRpc
