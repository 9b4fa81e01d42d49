import AnyRpc.Foundation.Decimal
import AnyRpc.Value.Container

/-! # Elements of arrays

What the operations of an array do in every case, and which of them leave the elements alone when
they throw (`ArrayCall.keeps_iff`). -/

namespace AnyRpc

open Library

namespace Value

/-- `Clear`. -/
def clear : Exec Value Unit := do
  assertArray
  match ← get with
  | array _ c => set (array [] c)
  | _ => pure ()

/-- `operator[](int)`. -/
def elementInt (index : BitVec 32) : Exec Value ℕ := element (toSize index.toInt)

/-- `at(size_t)`. -/
def atSize (index : BitVec 64) : Exec Value ℕ := element index.toNat

/-- `at(int)`. -/
def atInt (index : BitVec 32) : Exec Value ℕ := element (toSize index.toInt)

/-- The exception of the assertion on the number of elements. -/
def tooMany (size : ℕ) : Fault :=
  .exception { code := ErrorCode.memoryAllocation, message := tooManyElements size }

/-! ## Cases -/

theorem lt_grownArrayCapacity (c : ℕ) : c < grownArrayCapacity c := by
  rw [grownArrayCapacity, defaultArrayCapacity]
  split <;> omega

section

variable {es : List Value} {c n i : ℕ}

/-- `SetSize` above the limit. -/
theorem setSize_of_le (hn : maxArrayCapacity ≤ n) :
    setSize n (array es c) = .error (tooMany n) (array es c) := by
  have hlimit : ¬ n < maxArrayCapacity := not_lt.mpr hn
  simp [setSize, assertArray, isInvalid, isArray, hlimit, tooMany]

/-- `Reserve`, within the limit and above it. -/
theorem reserve_array (n : ℕ) :
    reserve n (array es c) =
      if n < maxArrayCapacity then .ok () (array es (max n c))
      else .error (tooMany n) (array es c) := by
  by_cases hn : n < maxArrayCapacity <;> simp [reserve, assertArray, isArray, hn, tooMany]

/-- `SetArray` with a number of elements, within the limit and above it. -/
theorem setArrayOf_apply (n : ℕ) (v : Value) :
    setArrayOf n v =
      if n < maxArrayCapacity then .ok () (array (List.replicate n invalid) n)
      else .error (tooMany n) (array [] 0) := by
  by_cases hn : n < maxArrayCapacity <;> simp [setArrayOf, hn, tooMany]

theorem clear_array : clear (array es c) = .ok () (array [] c) := by
  simp [clear, assertArray, isArray]

/-- The access behind the last element, by what `SetSize` does. -/
theorem element_of_le (hi : es.length ≤ i) :
    element i (array es c) = (do
      setSize ((i + 1) % 2 ^ 64)
      let n ← size
      anyrpcAssert (i < n) ErrorCode.illegalArrayAccess
        (ascii "Illegal index, size=" ++ decimal n ++ ascii ", index=" ++ decimal i)
      return i : Exec Value ℕ) (array es c) := by
  simp [element, assertArray, isInvalid, isArray, hi]

/-- The array grows to hold the index. -/
theorem element_grow (hi : es.length ≤ i) (hlimit : i + 1 < maxArrayCapacity) :
    element i (array es c) =
      .ok i (array (es ++ List.replicate (i + 1 - es.length) invalid) (max (i + 1) c)) := by
  have hmod : (i + 1) % 2 ^ 64 = i + 1 := Nat.mod_eq_of_lt (by rw [maxArrayCapacity] at hlimit; omega)
  have hlength : i < es.length + (i + 1 - es.length) := by omega
  rw [element_of_le hi, hmod, bind_of_ok (setSize_array es c hlimit),
    List.take_of_length_le (by omega)]
  simp [hlength]

/-- The array is left alone where it cannot grow. -/
theorem element_tooMany (hi : es.length ≤ i) (hlimit : maxArrayCapacity ≤ i + 1)
    (hlast : i + 1 < 2 ^ 64) :
    element i (array es c) = .error (tooMany (i + 1)) (array es c) := by
  rw [element_of_le hi, Nat.mod_eq_of_lt hlast, bind_of_error (setSize_of_le hlimit)]

/-- The greatest index makes the array empty and is then refused. -/
theorem element_last (hsize : es.length < 2 ^ 32) :
    element (2 ^ 64 - 1) (array es c) = .error (.exception
      { code := ErrorCode.illegalArrayAccess,
        message := ascii "Illegal index, size=" ++ decimal 0 ++ ascii ", index=" ++
          decimal (2 ^ 64 - 1) }) (array [] c) := by
  have hzero : (0 : ℕ) < maxArrayCapacity := by decide
  rw [element_of_le (by omega), show (2 ^ 64 - 1 + 1) % 2 ^ 64 = 0 by norm_num,
    bind_of_ok (setSize_array es c hzero)]
  simp

end

end Value

/-! ## Calls that throw -/

/-- The calls on an array that check an index or a number of elements. -/
inductive ArrayCall where
  | index (i : BitVec 64)
  | indexInt (i : BitVec 32)
  | atSize (i : BitVec 64)
  | atInt (i : BitVec 32)
  | setSize (newSize : BitVec 64)
  | reserve (newCapacity : BitVec 64)
  | pushBack (value : Value)
  | setArray (capacity : BitVec 64)

namespace ArrayCall

/-- What a call does; the reference that it returns is not looked at. -/
def run : ArrayCall → Exec Value Unit
  | index i => do let _ ← Value.element i.toNat
  | indexInt i => do let _ ← Value.elementInt i
  | atSize i => do let _ ← Value.atSize i
  | atInt i => do let _ ← Value.atInt i
  | setSize newSize => Value.setSize newSize.toNat
  | reserve newCapacity => Value.reserve newCapacity.toNat
  | pushBack value => Value.pushBack value
  | setArray capacity => Value.setArrayOf capacity.toNat

/-- If the call throws, the array has the elements that it had before. -/
def Keeps (call : ArrayCall) (es : List Value) (c : ℕ) : Prop :=
  ∀ f v, call.run (.array es c) = .error f v → ∃ c', v = .array es c'

/-- The index whose size is zero, or a number of elements that `SetArray` refuses. -/
def Overruns : ArrayCall → Prop
  | index i | atSize i => i = -1
  | indexInt i | atInt i => i = -1
  | setArray capacity => Value.maxArrayCapacity ≤ capacity.toNat
  | _ => False

variable {es : List Value} {c : ℕ}

/-- A negative index is at the top of `size_t`. -/
theorem toSize_toInt (i : BitVec 32) : toSize i.toInt = (i.signExtend 64).toNat := by
  rw [toSize, BitVec.signExtend, BitVec.toNat_ofInt]
  norm_num

/-- The access to an element. -/
theorem keeps_element (hsize : es.length < 2 ^ 32) {call : ArrayCall} {i : BitVec 64}
    (hrun : call.run = do let _ ← Value.element i.toNat) :
    call.Keeps es c ↔ es = [] ∨ ¬ i = -1 := by
  rw [Keeps, hrun]
  by_cases hlast : i = -1
  · subst hlast
    have herror := Value.element_last (c := c) hsize
    have hneg : (-1 : BitVec 64).toNat = 2 ^ 64 - 1 := by decide
    rw [hneg, bind_of_error herror]
    constructor
    · intro h
      obtain ⟨c', hv⟩ := h _ _ rfl
      injection hv with hes
      exact .inl hes.symm
    · rintro (rfl | h)
      · rintro _ _ ⟨⟩
        exact ⟨c, rfl⟩
      · exact absurd rfl h
  · refine iff_of_true ?_ (.inr hlast)
    have hnext : i.toNat + 1 < 2 ^ 64 := by
      have hi := i.isLt
      have hne : i.toNat ≠ 2 ^ 64 - 1 := fun h => hlast (BitVec.eq_of_toNat_eq h)
      omega
    intro f v hthrow
    rcases lt_or_ge i.toNat es.length with hlt | hge
    · rw [bind_of_ok (Value.element_array es c hlt)] at hthrow
      cases hthrow
    · rcases lt_or_ge (i.toNat + 1) Value.maxArrayCapacity with hroom | hfull
      · rw [bind_of_ok (Value.element_grow hge hroom)] at hthrow
        cases hthrow
      · rw [bind_of_error (Value.element_tooMany hge hfull hnext)] at hthrow
        cases hthrow
        exact ⟨c, rfl⟩

/-- The `int` that becomes the greatest index. -/
theorem signExtend_eq_neg_one (i : BitVec 32) : i.signExtend 64 = -1 ↔ i = -1 := by
  constructor
  · intro h
    have hint := congrArg BitVec.toInt h
    rw [BitVec.toInt_signExtend_of_le (by decide)] at hint
    exact BitVec.toInt_inj.mp hint
  · rintro rfl
    decide

/-- A call that throws leaves the elements as they were, but for two: the index that is one less
than zero empties the array before it is refused, and so does `SetArray` with a number of elements
above the limit. (The size of an array is a `uint32_t`.) -/
theorem keeps_iff (hsize : es.length < 2 ^ 32) (call : ArrayCall) :
    call.Keeps es c ↔ es = [] ∨ ¬ call.Overruns := by
  cases call with
  | index i => exact keeps_element hsize rfl
  | atSize i => exact keeps_element hsize rfl
  | indexInt i =>
    rw [Overruns, ← signExtend_eq_neg_one]
    exact keeps_element hsize (by rw [run, Value.elementInt, toSize_toInt])
  | atInt i =>
    rw [Overruns, ← signExtend_eq_neg_one]
    exact keeps_element hsize (by rw [run, Value.atInt, toSize_toInt])
  | setSize n =>
    refine iff_of_true (fun f v hthrow => ?_) (.inr id)
    rcases lt_or_ge n.toNat Value.maxArrayCapacity with hn | hn
    · rw [run, Value.setSize_array es c hn] at hthrow
      cases hthrow
    · rw [run, Value.setSize_of_le hn] at hthrow
      cases hthrow
      exact ⟨c, rfl⟩
  | reserve n =>
    refine iff_of_true (fun f v hthrow => ?_) (.inr id)
    rw [run, Value.reserve_array] at hthrow
    split at hthrow
    · cases hthrow
    · cases hthrow
      exact ⟨c, rfl⟩
  | pushBack value =>
    refine iff_of_true (fun f v hthrow => ?_) (.inr id)
    rcases lt_or_ge es.length c with hroom | hfull
    · rw [run, Value.pushBack_of_lt es hroom] at hthrow
      cases hthrow
    · rw [run, Value.pushBack_of_le es hfull] at hthrow
      split at hthrow
      · cases hthrow
      · cases hthrow
        exact ⟨c, rfl⟩
  | setArray n =>
    rw [Keeps, run, Value.setArrayOf_apply, Overruns]
    by_cases hn : n.toNat < Value.maxArrayCapacity
    · rw [if_pos hn]
      exact iff_of_true nofun (.inr (Nat.not_le.mpr hn))
    · rw [if_neg hn]
      constructor
      · intro h
        obtain ⟨c', hv⟩ := h _ _ rfl
        injection hv with hes
        exact .inl hes.symm
      · rintro (rfl | h)
        · rintro _ _ ⟨⟩
          exact ⟨0, rfl⟩
        · exact absurd (Nat.not_lt.mp hn) h

/-- `SetSize` with the greatest size, on an array of one element. -/
theorem keeps_iff_setSize : (ArrayCall.setSize (-1)).Keeps [.null] 1 :=
  (keeps_iff (by decide) (.setSize (-1))).mpr (.inr id)

/-- The index that is one less than zero, on an array of one element. -/
theorem not_keeps_indexInt : ¬ (ArrayCall.indexInt (-1)).Keeps [.null] 1 := by
  intro h
  have hrun : (ArrayCall.indexInt (-1)).run (.array [.null] 1) = .error (.exception
      { code := ErrorCode.illegalArrayAccess,
        message := ascii "Illegal index, size=0, index=18446744073709551615" }) (.array [] 1) := by
    rfl
  obtain ⟨_, hv⟩ := h _ _ hrun
  cases hv

end ArrayCall

end AnyRpc
