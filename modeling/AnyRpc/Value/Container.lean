import AnyRpc.Library.Position
import AnyRpc.Library.StateError
import AnyRpc.Value.Basic

/-! # Containers

The operations of `Value` on arrays and maps, with the growth of their allocations and the limits at
which they throw. A reference that an operation returns is the index of the element or member. -/

namespace AnyRpc

namespace Value

open Library

/-! ## Children -/

/-- The element of an array, or the value of a map's member, at an index. -/
def child? : Value → ℕ → Option Value
  | array es _, i => es[i]?
  | map ms _, i => ms[i]?.map Prod.snd
  | _, _ => none

/-- Another element, or another value of a member, at an index. -/
def setChild : Value → ℕ → Value → Value
  | array es c, i, x => array (es.set i x) c
  | map ms c, i, x => map (ms.modify i fun m => (m.1, x)) c
  | v, _, _ => v

/-- Setting the value of the last member. -/
theorem setChild_append (ms : List (Bytes × Value)) (k : Bytes) (v x : Value) (c : ℕ) :
    (map (ms ++ [(k, v)]) c).setChild ms.length x = map (ms ++ [(k, x)]) c := by
  simp only [setChild, map.injEq, and_true]
  induction ms with
  | nil => rfl
  | cons m ms ih => simpa using ih

theorem child?_setChild {v w : Value} {i : ℕ} (x : Value) (h : v.child? i = some w) :
    (v.setChild i x).child? i = some x := by
  cases v with
  | array es c =>
    have hi : i < es.length := (List.getElem?_eq_some_iff.mp h).1
    simp [child?, setChild, hi]
  | map ms c =>
    obtain ⟨m, hm, -⟩ := Option.map_eq_some_iff.mp h
    simp [child?, setChild, hm]
  | _ => simp [child?] at h

theorem setChild_setChild (v : Value) (i : ℕ) (x y : Value) :
    (v.setChild i x).setChild i y = v.setChild i y := by
  cases v with
  | array es c => simp [setChild]
  | map ms c =>
    simp only [setChild, map.injEq, and_true]
    apply List.ext_getElem?
    intro j
    simp only [List.getElem?_modify]
    by_cases hij : i = j <;> cases ms[j]? <;> simp [hij]
  | _ => rfl

theorem setChild_child? {v w : Value} {i : ℕ} (h : v.child? i = some w) :
    v.setChild i w = v := by
  cases v with
  | array es c =>
    obtain ⟨hi, rfl⟩ := List.getElem?_eq_some_iff.mp h
    simp [setChild]
  | map ms c =>
    obtain ⟨m, hm, rfl⟩ := Option.map_eq_some_iff.mp h
    simp only [setChild, map.injEq, and_true]
    apply List.ext_getElem?
    intro j
    simp only [List.getElem?_modify]
    by_cases hij : i = j
    · subst hij
      simp [hm]
    · simp [hij]
  | _ => simp [child?] at h

instance : Nested Value where
  child? := child?
  setChild := setChild
  child?_setChild := child?_setChild
  setChild_setChild := setChild_setChild
  setChild_child? := setChild_child?

@[simp] theorem nested_child? (v : Value) (i : ℕ) : Nested.child? v i = v.child? i := rfl

@[simp] theorem nested_setChild (v : Value) (i : ℕ) (x : Value) :
    Nested.setChild v i x = v.setChild i x := rfl

/-! ## Limits -/

def defaultArrayCapacity : ℕ := 16
def maxArrayCapacity : ℕ := 16 * 1024 * 1024
def defaultMapCapacity : ℕ := 16
def maxMapCapacity : ℕ := 16 * 1024 * 1024

/-- The capacity that `PushBack` reserves when an array of a capacity is full. -/
def grownArrayCapacity (capacity : ℕ) : ℕ :=
  if capacity = 0 then defaultArrayCapacity else capacity + (capacity + 1) / 2

/-- The capacity that `AddMemberCheckCapacity` allocates when a map of a capacity is full. -/
def grownMapCapacity (capacity : ℕ) : ℕ :=
  if capacity = 0 then defaultMapCapacity else min (capacity + (capacity + 3) / 4) maxMapCapacity

/-- The text of the assertion on the number of elements. -/
def tooManyElements (size : ℕ) : Bytes :=
  ascii "Too many elements, size=" ++ decimal size ++ ascii ", capacity=" ++
    decimal maxArrayCapacity

/-- The containers of a value are within the limits that every operation keeps. -/
def Sized (v : Value) : Prop :=
  v.All fun
    | array es c => es.length ≤ c ∧ c < maxArrayCapacity
    | map ms c => ms.length ≤ c ∧ c ≤ maxMapCapacity
    | _ => True

/-! ## Maps -/

/-- `SetMap`. -/
def setMap : Exec Value Unit := set (map [] 0)

/-- `AddMemberCheckCapacity`: make room for one more member. -/
def addMemberCheckCapacity : Exec Value Unit := do
  let v ← get
  if v.isInvalid then
    setMap
  else
    anyrpcAssert v.isMap ErrorCode.valueAccess (ascii "Not map, type=" ++ decimal v.getType)
  match ← get with
  | map ms c =>
    let c' := if c ≤ ms.length then grownMapCapacity c else c
    set (map ms c')
    anyrpcAssert (ms.length < c') ErrorCode.memoryAllocation
      (ascii "Too many members, size=" ++ decimal ms.length ++ ascii ", capacity=" ++ decimal c')
  | _ => pure ()

/-- Setting a key or a string value: a referenced string must be terminated. -/
def checkTerminated (str : StrArg) : Exec Value Unit :=
  anyrpcAssert str.terminated ErrorCode.stringNotTerminated (ascii "String not null terminated")

/-- `AddMember(str, length, copy)`: a member whose value is not yet assigned. -/
def addMember (str : StrArg) : Exec Value ℕ := do
  addMemberCheckCapacity
  checkTerminated str
  match ← get with
  | map ms c =>
    set (map (ms ++ [(str.bytes, invalid)]) c)
    return ms.length
  | _ => return 0

/-- The index of the first member with a key. -/
def memberIndex (key : Bytes) (ms : List (Bytes × Value)) : Option ℕ :=
  ms.findIdx? fun m => m.1 = key

/-- `FindMember(const char*)`; `none` is the end iterator. -/
def findMember (str : Bytes) : Exec Value (Option ℕ) := do
  let v ← get
  anyrpcAssert (v.isMap || v.isInvalid) ErrorCode.valueAccess
    (ascii "Not map, type=" ++ decimal v.getType ++ ascii ", find=" ++ cString str)
  match v with
  | map ms _ => return memberIndex (cString str) ms
  | _ => return none

/-- `operator[](const char*)`: the member with a key, added where there is none. -/
def member (str : Bytes) : Exec Value ℕ := do
  let v ← get
  if v.isInvalid then
    addMember { bytes := cString str }
  else
    match ← findMember str with
    | some i => return i
    | none => addMember { bytes := cString str }

/-! ## Arrays -/

/-- `SetArray()`. -/
def setArray : Exec Value Unit := set (array [] 0)

/-- `SetArray(capacity)`: that many elements, all invalid. -/
def setArrayOf (capacity : ℕ) : Exec Value Unit := do
  set (array [] 0)
  anyrpcAssert (capacity < maxArrayCapacity) ErrorCode.memoryAllocation (tooManyElements capacity)
  set (array (List.replicate capacity invalid) capacity)

/-- The assertion that the value is an array. -/
def assertArray : Exec Value Unit := do
  let v ← get
  anyrpcAssert v.isArray ErrorCode.valueAccess (ascii "Not Array, type=" ++ decimal v.getType)

/-- `Size`. -/
def size : Exec Value ℕ := do
  assertArray
  match ← get with
  | array es _ => return es.length
  | _ => return 0

/-- `Reserve(newCapacity)`. -/
def reserve (newCapacity : ℕ) : Exec Value Unit := do
  assertArray
  anyrpcAssert (newCapacity < maxArrayCapacity) ErrorCode.memoryAllocation
    (tooManyElements newCapacity)
  match ← get with
  | array es c => set (array es (max newCapacity c))
  | _ => pure ()

/-- `SetSize(newSize)`: new elements are invalid, surplus ones are destroyed. -/
def setSize (newSize : ℕ) : Exec Value Unit := do
  if (← get).isInvalid then
    setArray
  assertArray
  anyrpcAssert (newSize < maxArrayCapacity) ErrorCode.memoryAllocation (tooManyElements newSize)
  match ← get with
  | array es c =>
    set (array (es.take newSize ++ List.replicate (newSize - es.length) invalid) (max newSize c))
  | _ => pure ()

/-- `operator[](index)` and `at(index)`: the array grows to hold the index. The size for that is a
`size_t`, so that it is zero for the greatest index. -/
def element (index : ℕ) : Exec Value ℕ := do
  if (← get).isInvalid then
    setArray
  assertArray
  if (← size) ≤ index then
    setSize ((index + 1) % 2 ^ 64)
  let n ← size
  anyrpcAssert (index < n) ErrorCode.illegalArrayAccess
    (ascii "Illegal index, size=" ++ decimal n ++ ascii ", index=" ++ decimal index)
  return index

/-- `PushBack(value)`. -/
def pushBack (value : Value) : Exec Value Unit := do
  assertArray
  match ← get with
  | array es c => if c ≤ es.length then reserve (grownArrayCapacity c) else pure ()
  | _ => pure ()
  match ← get with
  | array es c => set (array (es ++ [value]) c)
  | _ => pure ()

section

variable (es : List Value) (c : ℕ)

@[simp] theorem size_array : size (array es c) = .ok es.length (array es c) := rfl

/-- Accessing an element that exists changes nothing. -/
theorem element_array {i : ℕ} (hi : i < es.length) :
    element i (array es c) = .ok i (array es c) := by
  have hle : ¬ es.length ≤ i := by omega
  simp [element, assertArray, isInvalid, isArray, hi, hle]

/-- `SetSize` on an array, within the limit. -/
theorem setSize_array {n : ℕ} (hn : n < maxArrayCapacity) :
    setSize n (array es c) =
      .ok () (array (es.take n ++ List.replicate (n - es.length) invalid) (max n c)) := by
  simp [setSize, assertArray, isInvalid, isArray, hn]

/-- `PushBack` where there is room. -/
theorem pushBack_of_lt {c : ℕ} (h : es.length < c) (v : Value) :
    pushBack v (array es c) = .ok () (array (es ++ [v]) c) := by
  have hle : ¬ c ≤ es.length := by omega
  simp [pushBack, assertArray, isArray, hle]

/-- `PushBack` onto a full array reserves first. -/
theorem pushBack_of_le {c : ℕ} (h : c ≤ es.length) (v : Value) :
    pushBack v (array es c) =
      if grownArrayCapacity c < maxArrayCapacity then
        .ok () (array (es ++ [v]) (max (grownArrayCapacity c) c))
      else .error (.exception { code := ErrorCode.memoryAllocation,
                                message := tooManyElements (grownArrayCapacity c) })
        (array es c) := by
  by_cases hmax : grownArrayCapacity c < maxArrayCapacity <;>
    simp [pushBack, assertArray, isArray, reserve, h, hmax]

end

/-! ## Copies -/

mutual

/-- `CopyInternal` onto a fresh value: the deep copy, with the capacities its construction gives. -/
def copyInternal : Value → Except Fault Value
  | array es _ => do
    if es.length < maxArrayCapacity then
      return array (← copyElements es) es.length
    else
      .error (.exception ⟨ErrorCode.memoryAllocation, tooManyElements es.length, 0⟩)
  | map ms _ => copyMembers ms [] 0
  | v => .ok v

/-- The copies of the elements. -/
def copyElements : List Value → Except Fault (List Value)
  | [] => .ok []
  | v :: vs => do
    let v' ← copyInternal v
    let vs' ← copyElements vs
    return v' :: vs'

/-- The copies of the members, added one by one; a key is read up to its first null byte. -/
def copyMembers : List (Bytes × Value) → List (Bytes × Value) → ℕ → Except Fault Value
  | [], done, c => .ok (map done c)
  | (k, v) :: ms, done, c => do
    let c' := if c ≤ done.length then grownMapCapacity c else c
    if done.length < c' then
      let v' ← copyInternal v
      copyMembers ms (done ++ [(cString k, v')]) c'
    else
      .error (.exception ⟨ErrorCode.memoryAllocation,
        ascii "Too many members, size=" ++ decimal done.length ++ ascii ", capacity=" ++
          decimal c', 0⟩)

end

end Value

end AnyRpc
