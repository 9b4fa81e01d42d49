import AnyRpc.Library.Memory
import AnyRpc.Library.Simulation
import AnyRpc.Value.Arrays

/-! # Storage of arrays

An array as it is stored: an allocation of slots, of which the first ones hold the elements, and the
two counters. The operations write and destroy the slots one by one, and it is undefined to read or
destroy a slot that holds no value. They simulate the operations on values (`Storage.Holds`), so that
no such slot is ever touched. -/

namespace AnyRpc

open Library

/-- The array member of the union. A slot without a value was never written or is destroyed. -/
structure ArrayData where
  elements : List (Option Value)
  size : ℕ
  capacity : ℕ
  deriving Repr

/-- A value by its storage: the data of an array, or any other value. -/
inductive Storage where
  | array (a : ArrayData)
  | other (v : Value)
  deriving Repr

namespace Storage

/-! ## Slots -/

/-- `realloc`: the slots that fit stay, new ones hold no value. -/
def reallocate (slots : List (Option Value)) (capacity : ℕ) : List (Option Value) :=
  slots.take capacity ++ List.replicate (capacity - slots.length) none

/-- The loop that marks the slots from an index on as invalid. -/
def initializeSlots : ℕ → ℕ → List (Option Value) → Except Fault (List (Option Value))
  | 0, _, slots => .ok slots
  | n + 1, i, slots =>
    if i < slots.length then initializeSlots n (i + 1) (slots.set i (some .invalid))
    else .error .undefined

/-- The loop that destroys the elements from an index on. -/
def destroySlots : ℕ → ℕ → List (Option Value) → Except Fault (List (Option Value))
  | 0, _, slots => .ok slots
  | n + 1, i, slots =>
    match slots[i]? with
    | some (some _) => destroySlots n (i + 1) (slots.set i none)
    | _ => .error .undefined

/-- The write of a slot that holds no value yet. -/
def writeSlot (i : ℕ) (x : Value) (slots : List (Option Value)) :
    Except Fault (List (Option Value)) :=
  if i < slots.length then .ok (slots.set i (some x)) else .error .undefined

/-- The slots become those that a step on them gives. -/
def onSlots (f : List (Option Value) → Except Fault (List (Option Value))) (a : ArrayData)
    (size : ℕ) : Exec Storage Unit :=
  match f a.elements with
  | .ok slots => set (array { a with elements := slots, size })
  | .error fault => throw fault

/-! ## Operations -/

def isInvalid : Storage → Bool
  | array _ => false
  | other v => v.isInvalid

def isArray : Storage → Bool
  | array _ => true
  | other v => v.isArray

def getType : Storage → ℕ
  | array _ => 5
  | other v => v.getType

/-- `Value(ArrayType)`: all data is zero. -/
def empty : Storage := array { elements := [], size := 0, capacity := 0 }

/-- `SetArray()`. -/
def setArray : Exec Storage Unit := set empty

/-- `SetArray(capacity)`: `calloc` gives slots of zeros, which are invalid values. -/
def setArrayOf (capacity : ℕ) : Exec Storage Unit := do
  set empty
  anyrpcAssert (capacity < Value.maxArrayCapacity) ErrorCode.memoryAllocation
    (Value.tooManyElements capacity)
  set (array { elements := List.replicate capacity (some .invalid), size := capacity, capacity })

/-- The assertion that the value is an array. -/
def assertArray : Exec Storage Unit := do
  let s ← get
  anyrpcAssert s.isArray ErrorCode.valueAccess (ascii "Not Array, type=" ++ decimal s.getType)

/-- `Clear`. -/
def clear : Exec Storage Unit := do
  assertArray
  match ← get with
  | array a => onSlots (destroySlots a.size 0) a 0
  | _ => pure ()

/-- `Size`. -/
def size : Exec Storage ℕ := do
  assertArray
  match ← get with
  | array a => return a.size
  | _ => return 0

/-- The data with room for a number of elements. -/
def grow (a : ArrayData) (newCapacity : ℕ) : ArrayData :=
  if a.capacity < newCapacity then
    { a with elements := reallocate a.elements newCapacity, capacity := newCapacity }
  else a

/-- `Reserve(newCapacity)`. -/
def reserve (newCapacity : ℕ) : Exec Storage Unit := do
  assertArray
  anyrpcAssert (newCapacity < Value.maxArrayCapacity) ErrorCode.memoryAllocation
    (Value.tooManyElements newCapacity)
  match ← get with
  | array a => set (array (grow a newCapacity))
  | _ => pure ()

/-- `SetSize(newSize)`. -/
def setSize (newSize : ℕ) : Exec Storage Unit := do
  if (← get).isInvalid then
    setArray
  assertArray
  anyrpcAssert (newSize < Value.maxArrayCapacity) ErrorCode.memoryAllocation
    (Value.tooManyElements newSize)
  match ← get with
  | array a =>
    if a.size < newSize then
      onSlots (initializeSlots (newSize - a.size) a.size) (grow a newSize) newSize
    else
      onSlots (destroySlots (a.size - newSize) newSize) (grow a newSize) newSize
  | _ => pure ()

/-- `operator[](index)` and `at(index)`. -/
def element (index : ℕ) : Exec Storage ℕ := do
  if (← get).isInvalid then
    setArray
  assertArray
  if (← size) ≤ index then
    setSize ((index + 1) % 2 ^ 64)
  let n ← size
  anyrpcAssert (index < n) ErrorCode.illegalArrayAccess
    (ascii "Illegal index, size=" ++ decimal n ++ ascii ", index=" ++ decimal index)
  return index

/-- `PushBack(value)`: the value is moved into the slot behind the last element. -/
def pushBack (value : Value) : Exec Storage Unit := do
  assertArray
  match ← get with
  | array a =>
    if a.capacity ≤ a.size then reserve (Value.grownArrayCapacity a.capacity) else pure ()
  | _ => pure ()
  match ← get with
  | array a => onSlots (writeSlot a.size value) a (a.size + 1)
  | _ => pure ()

/-- What a reference to an element is assigned; the element is destroyed first. -/
def store (i : ℕ) (x : Value) : Exec Storage Unit := do
  match ← get with
  | array a => onSlots (fun slots => do writeSlot i x (← destroySlots 1 i slots)) a a.size
  | _ => pure ()

/-- The storage of a value that was built before. -/
def ofValue : Value → Storage
  | .array es c => array
      { elements := es.map some ++ List.replicate (c - es.length) none, size := es.length,
        capacity := c }
  | v => other v

/-! ## The value that is stored -/

/-- The slots that are counted hold the elements, and the allocation is as large as is noted. -/
inductive Holds : Storage → Value → Prop
  | array {es : List Value} {free : List (Option Value)} {c : ℕ} (h : es.length + free.length = c) :
      Holds (.array { elements := es.map some ++ free, size := es.length, capacity := c })
        (.array es c)
  | other {v : Value} (h : v.isArray = false) : Holds (.other v) v

theorem holds_empty : Holds empty (.array [] 0) :=
  @Holds.array [] [] 0 rfl

/-- The storage of a value holds it, where the size is within the capacity. -/
theorem holds_ofValue {v : Value} (h : ∀ es c, v = .array es c → es.length ≤ c) :
    Holds (ofValue v) v := by
  cases v with
  | array es c =>
    refine .array ?_
    have hle := h es c rfl
    rw [List.length_replicate]
    omega
  | _ => exact .other rfl

section

variable {s : Storage} {v : Value}

theorem Holds.isInvalid (h : Holds s v) : s.isInvalid = v.isInvalid := by
  cases h <;> rfl

theorem Holds.isArray (h : Holds s v) : s.isArray = v.isArray := by
  cases h <;> rfl

theorem Holds.getType (h : Holds s v) : s.getType = v.getType := by
  cases h <;> rfl

end

/-! ## Loops -/

/-- The slots behind the elements become invalid values. -/
theorem initializeSlots_append (n : ℕ) :
    ∀ held free : List (Option Value), n ≤ free.length →
      initializeSlots n held.length (held ++ free) =
        .ok (held ++ (List.replicate n (some .invalid) ++ free.drop n)) := by
  induction n with
  | zero =>
    intro held free _
    rfl
  | succ n ih =>
    intro held free hn
    obtain ⟨x, free, rfl⟩ := List.exists_cons_of_length_pos (Nat.lt_of_lt_of_le n.succ_pos hn)
    have hin : held.length < (held ++ x :: free).length := by simp
    have hset : (held ++ x :: free).set held.length (some .invalid) =
        (held ++ [some .invalid]) ++ free := by simp
    have hnext : held.length + 1 = (held ++ [some (Value.invalid)]).length := by simp
    rw [initializeSlots, if_pos hin, hset, hnext, ih _ _ (Nat.le_of_succ_le_succ hn)]
    simp [List.replicate_succ]

/-- The last elements are destroyed. -/
theorem destroySlots_append (es : List Value) :
    ∀ held free : List (Option Value),
      destroySlots es.length held.length (held ++ (es.map some ++ free)) =
        .ok (held ++ (List.replicate es.length none ++ free)) := by
  induction es with
  | nil =>
    intro held free
    rfl
  | cons e es ih =>
    intro held free
    have hget : (held ++ (some e :: (es.map some ++ free)))[held.length]? = some (some e) := by simp
    have hset : (held ++ (some e :: (es.map some ++ free))).set held.length none =
        (held ++ [none]) ++ (es.map some ++ free) := by simp
    have hnext : held.length + 1 = (held ++ [(none : Option Value)]).length := by simp
    rw [List.map_cons, List.cons_append, List.length_cons, destroySlots, hget]
    simp only
    rw [hset, hnext, ih]
    simp [List.replicate_succ]

/-- Growing keeps the elements in front of the free slots. -/
theorem holds_grow {es : List Value} {free : List (Option Value)} {c : ℕ}
    (h : es.length + free.length = c) (n : ℕ) :
    ∃ free' : List (Option Value), es.length + free'.length = max n c ∧
      grow { elements := es.map some ++ free, size := es.length, capacity := c } n =
        { elements := es.map some ++ free', size := es.length, capacity := max n c } := by
  rw [grow]
  simp only
  by_cases hn : c < n
  · refine ⟨free ++ List.replicate (n - c) none, ?_, ?_⟩
    · rw [List.length_append, List.length_replicate]
      omega
    · have htake : (es.map some ++ free).take n = es.map some ++ free := by
        apply List.take_of_length_le
        rw [List.length_append, List.length_map]
        omega
      rw [if_pos hn, reallocate, htake, List.length_append, List.length_map, h,
        Nat.max_eq_left hn.le, List.append_assoc]
  · exact ⟨free, by omega, by rw [if_neg hn, Nat.max_eq_right (Nat.not_lt.mp hn)]⟩

/-! ## Simulation -/

section

variable {s : Storage} {v : Value}

theorem alike_assertArray (h : Holds s v) :
    Alike Holds (assertArray s) (Value.assertArray v) := by
  have hs : assertArray s = anyrpcAssert v.isArray ErrorCode.valueAccess
      (ascii "Not Array, type=" ++ decimal v.getType) s := by
    rw [assertArray, bind_of_ok (get_apply s), h.isArray, h.getType]
  rw [hs, Value.assertArray, bind_of_ok (get_apply v)]
  cases v.isArray with
  | true => exact .ok () h
  | false => exact .error _ h

/-- An assertion on the arguments alone. -/
theorem alike_anyrpcAssert (h : Holds s v) (condition : Bool) (code : BitVec 32) (message : Bytes) :
    Alike Holds (anyrpcAssert condition code message s) (anyrpcAssert condition code message v) := by
  cases condition with
  | true => exact .ok () h
  | false => exact .error _ h

theorem alike_setArray : Alike Holds (setArray s) (Value.setArray v) := .ok () holds_empty

theorem alike_setArrayOf (n : ℕ) : Alike Holds (setArrayOf n s) (Value.setArrayOf n v) := by
  refine Alike.bind (.ok PUnit.unit holds_empty) fun _ s' v' h' => ?_
  refine (alike_anyrpcAssert h' _ _ _).bind fun _ s'' v'' _ => .ok PUnit.unit ?_
  have hslots : List.replicate n (some Value.invalid) =
      (List.replicate n Value.invalid).map some ++ [] := by simp
  have hholds := @Holds.array (List.replicate n Value.invalid) [] n (by simp)
  rwa [← hslots, List.length_replicate] at hholds

theorem alike_clear (h : Holds s v) : Alike Holds (clear s) (Value.clear v) := by
  refine (alike_assertArray h).bind fun _ s v h => ?_
  rw [bind_of_ok (get_apply s), bind_of_ok (get_apply v)]
  cases h with
  | @array es free c hlength =>
    have hloop := destroySlots_append es [] free
    simp only [List.nil_append, List.length_nil] at hloop
    simp only [onSlots, hloop]
    have hfree : ([] : List Value).length + (List.replicate es.length none ++ free).length = c := by
      simpa using hlength
    exact .ok PUnit.unit (.array hfree)
  | other hother =>
    cases v <;> first | exact .ok () (.other hother) | cases hother

theorem alike_size (h : Holds s v) : Alike Holds (size s) (Value.size v) := by
  refine (alike_assertArray h).bind fun _ s v h => ?_
  rw [bind_of_ok (get_apply s), bind_of_ok (get_apply v)]
  cases h with
  | array hlength => exact .ok _ (.array hlength)
  | other hother => cases v <;> first | exact .ok _ (.other hother) | cases hother

theorem alike_reserve (h : Holds s v) (n : ℕ) :
    Alike Holds (reserve n s) (Value.reserve n v) := by
  refine (alike_assertArray h).bind fun _ s v h => ?_
  refine (alike_anyrpcAssert h _ _ _).bind fun _ s v h => ?_
  rw [bind_of_ok (get_apply s), bind_of_ok (get_apply v)]
  cases h with
  | array hlength =>
    obtain ⟨free', hlength', hgrow⟩ := holds_grow hlength n
    simp only [hgrow]
    exact .ok PUnit.unit (.array hlength')
  | other hother => cases v <;> first | exact .ok () (.other hother) | cases hother

/-- The slots are filled or destroyed to give the new size. -/
theorem alike_resize {n : ℕ} :
    Holds s v → Alike Holds
      ((match s with
        | array a =>
          if a.size < n then onSlots (initializeSlots (n - a.size) a.size) (grow a n) n
          else onSlots (destroySlots (a.size - n) n) (grow a n) n
        | _ => pure () : Exec Storage Unit) s)
      ((match v with
        | .array es c =>
          set (Value.array (es.take n ++ List.replicate (n - es.length) .invalid) (max n c))
        | _ => pure () : Exec Value Unit) v) := by
  intro h
  cases h with
  | @array es free c hlength =>
    obtain ⟨free', hlength', hgrow⟩ := holds_grow hlength n
    simp only [hgrow, onSlots]
    by_cases hn : es.length < n
    · have hloop := initializeSlots_append (n - es.length) (es.map some) free' (by omega)
      rw [List.length_map] at hloop
      rw [if_pos hn, hloop, List.take_of_length_le hn.le]
      have hholds := @Holds.array (es ++ List.replicate (n - es.length) .invalid)
        (free'.drop (n - es.length)) (max n c) (by simp; omega)
      have hsize : (es ++ List.replicate (n - es.length) Value.invalid).length = n := by
        simp
        omega
      rw [List.map_append, List.map_replicate, List.append_assoc, hsize] at hholds
      exact .ok PUnit.unit hholds
    · -- The elements are those that stay and those that are destroyed.
      have hloop := destroySlots_append (es.drop n) ((es.take n).map some) free'
      have hkept : (es.take n).length = n := List.length_take_of_le (Nat.not_lt.mp hn)
      rw [List.length_map, hkept, ← List.append_assoc, ← List.map_append, List.take_append_drop,
        List.length_drop] at hloop
      rw [if_neg hn, hloop, Nat.sub_eq_zero_of_le (Nat.not_lt.mp hn), List.replicate_zero,
        List.append_nil]
      have hholds := @Holds.array (es.take n) (List.replicate (es.length - n) none ++ free')
        (max n c) (by simp; omega)
      rw [hkept] at hholds
      exact .ok PUnit.unit hholds
  | other hother => cases v <;> first | exact .ok () (.other hother) | cases hother

theorem alike_setSize (h : Holds s v) (n : ℕ) :
    Alike Holds (setSize n s) (Value.setSize n v) := by
  have hrest : ∀ s v, Holds s v → Alike Holds
      ((do
        assertArray
        anyrpcAssert (n < Value.maxArrayCapacity) ErrorCode.memoryAllocation
          (Value.tooManyElements n)
        match ← get with
        | array a =>
          if a.size < n then onSlots (initializeSlots (n - a.size) a.size) (grow a n) n
          else onSlots (destroySlots (a.size - n) n) (grow a n) n
        | _ => pure () : Exec Storage Unit) s)
      ((do
        Value.assertArray
        anyrpcAssert (n < Value.maxArrayCapacity) ErrorCode.memoryAllocation
          (Value.tooManyElements n)
        match ← get with
        | .array es c =>
          set (Value.array (es.take n ++ List.replicate (n - es.length) .invalid) (max n c))
        | _ => pure () : Exec Value Unit) v) := by
    intro s v h
    refine (alike_assertArray h).bind fun _ s v h => ?_
    refine (alike_anyrpcAssert h _ _ _).bind fun _ s v h => ?_
    rw [bind_of_ok (get_apply s), bind_of_ok (get_apply v)]
    exact alike_resize h
  rw [setSize, Value.setSize, bind_of_ok (get_apply s), bind_of_ok (get_apply v), h.isInvalid]
  cases v.isInvalid with
  | true => exact alike_setArray.bind fun _ s v h => hrest s v h
  | false => exact hrest s v h

theorem alike_element (h : Holds s v) (i : ℕ) :
    Alike Holds (element i s) (Value.element i v) := by
  have hlast : ∀ s v, Holds s v → Alike Holds
      ((do
        let n ← size
        anyrpcAssert (i < n) ErrorCode.illegalArrayAccess
          (ascii "Illegal index, size=" ++ decimal n ++ ascii ", index=" ++ decimal i)
        return i : Exec Storage ℕ) s)
      ((do
        let n ← Value.size
        anyrpcAssert (i < n) ErrorCode.illegalArrayAccess
          (ascii "Illegal index, size=" ++ decimal n ++ ascii ", index=" ++ decimal i)
        return i : Exec Value ℕ) v) := by
    intro s v h
    refine (alike_size h).bind fun n s v h => ?_
    exact (alike_anyrpcAssert h _ _ _).bind fun _ s v h => .ok i h
  have hrest : ∀ s v, Holds s v → Alike Holds
      ((do
        assertArray
        if (← size) ≤ i then
          setSize ((i + 1) % 2 ^ 64)
        let n ← size
        anyrpcAssert (i < n) ErrorCode.illegalArrayAccess
          (ascii "Illegal index, size=" ++ decimal n ++ ascii ", index=" ++ decimal i)
        return i : Exec Storage ℕ) s)
      ((do
        Value.assertArray
        if (← Value.size) ≤ i then
          Value.setSize ((i + 1) % 2 ^ 64)
        let n ← Value.size
        anyrpcAssert (i < n) ErrorCode.illegalArrayAccess
          (ascii "Illegal index, size=" ++ decimal n ++ ascii ", index=" ++ decimal i)
        return i : Exec Value ℕ) v) := by
    intro s v h
    refine (alike_assertArray h).bind fun _ s v h => ?_
    refine (alike_size h).bind fun n s v h => ?_
    by_cases hn : n ≤ i
    · rw [if_pos hn, if_pos hn]
      exact (alike_setSize h _).bind fun _ s v h => hlast s v h
    · rw [if_neg hn, if_neg hn]
      exact hlast s v h
  rw [element, Value.element, bind_of_ok (get_apply s), bind_of_ok (get_apply v), h.isInvalid]
  cases v.isInvalid with
  | true => exact alike_setArray.bind fun _ s v h => hrest s v h
  | false => exact hrest s v h

/-- `Reserve` on an array, within the limit and above it. -/
theorem reserve_array (a : ArrayData) (n : ℕ) :
    reserve n (array a) =
      if n < Value.maxArrayCapacity then .ok () (array (grow a n))
      else .error (Value.tooMany n) (array a) := by
  by_cases hn : n < Value.maxArrayCapacity <;>
    simp [reserve, assertArray, isArray, hn, Value.tooMany]

/-- Writing the first free slot. -/
theorem writeSlot_append (held free : List (Option Value)) (y : Option Value) (x : Value) :
    writeSlot held.length x (held ++ y :: free) = .ok (held ++ some x :: free) := by
  have hin : held.length < (held ++ y :: free).length := by simp
  rw [writeSlot, if_pos hin]
  simp

theorem alike_pushBack (h : Holds s v) (x : Value) :
    Alike Holds (pushBack x s) (Value.pushBack x v) := by
  refine (alike_assertArray h).bind fun _ s v h => ?_
  rw [bind_of_ok (get_apply s), bind_of_ok (get_apply v)]
  cases h with
  | @array es free c hlength =>
    have hwrite : ∀ (es : List Value) (free : List (Option Value)) (c : ℕ),
        es.length + free.length = c → es.length < c → Alike Holds
          ((onSlots (writeSlot es.length x)
              { elements := es.map some ++ free, size := es.length, capacity := c }
              (es.length + 1) : Exec Storage Unit)
            (.array { elements := es.map some ++ free, size := es.length, capacity := c }))
          ((set (Value.array (es ++ [x]) c) : Exec Value Unit) (.array es c)) := by
      intro es free c hlength hroom
      obtain ⟨y, free, rfl⟩ := List.exists_cons_of_length_pos (show 0 < free.length by omega)
      have hslot := writeSlot_append (es.map some) free y x
      rw [List.length_map] at hslot
      simp only [onSlots, hslot]
      have hholds := @Holds.array (es ++ [x]) free c (by
        rw [List.length_append, List.length_singleton]
        rw [List.length_cons] at hlength
        omega)
      rw [List.map_append, List.length_append, List.append_assoc] at hholds
      exact .ok PUnit.unit hholds
    by_cases hfull : c ≤ es.length
    · have hgrown := Value.lt_grownArrayCapacity c
      obtain ⟨free', hlength', hgrow⟩ := holds_grow hlength (Value.grownArrayCapacity c)
      simp only [hfull, if_true]
      rw [bind_apply, bind_apply, reserve_array, Value.reserve_array, hgrow]
      by_cases hlimit : Value.grownArrayCapacity c < Value.maxArrayCapacity
      · rw [if_pos hlimit, if_pos hlimit]
        exact hwrite es free' _ hlength' (by omega)
      · rw [if_neg hlimit, if_neg hlimit]
        exact .error _ (.array hlength)
    · simp only [hfull, if_false]
      exact hwrite es free c hlength (by omega)
  | other hother => cases v <;> first | exact .ok () (.other hother) | cases hother

/-- An assignment to an element that exists. -/
theorem alike_store (h : Holds s v) {i : ℕ} {e : Value} (he : v.child? i = some e)
    (harray : v.isArray = true) (x : Value) :
    Alike Holds (store i x s) ((modify fun v => v.setChild i x : Exec Value Unit) v) := by
  cases h with
  | @array es free c hlength =>
    obtain ⟨hi, rfl⟩ := List.getElem?_eq_some_iff.mp (show es[i]? = some e from he)
    have hin : i < (es.map some ++ free).length := by
      rw [List.length_append, List.length_map]
      omega
    have hget : (es.map some ++ free)[i]? = some (some es[i]) := by
      rw [List.getElem?_append_left (by rwa [List.length_map]), List.getElem?_map,
        List.getElem?_eq_getElem hi, Option.map_some]
    have hset : (es.map some ++ free).set i (some x) = (es.set i x).map some ++ free := by
      rw [List.set_append_left _ _ (by rwa [List.length_map]), List.map_set]
    have hslots : (do writeSlot i x (← destroySlots 1 i (es.map some ++ free))) =
        .ok ((es.set i x).map some ++ free) := by
      rw [destroySlots, hget]
      show writeSlot i x ((es.map some ++ free).set i none) = _
      rw [writeSlot, List.length_set, if_pos hin, List.set_set, hset]
    have hholds := @Holds.array (es.set i x) free c (by
      rw [List.length_set]
      exact hlength)
    rw [List.length_set] at hholds
    rw [store, bind_of_ok (get_apply _)]
    simp only [onSlots, hslots]
    exact .ok PUnit.unit hholds
  | other hother =>
    rw [harray] at hother
    cases hother

end

end Storage

end AnyRpc
