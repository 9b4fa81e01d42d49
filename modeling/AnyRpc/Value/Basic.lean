import AnyRpc.Value.Number

/-! # Values

The variant type `Value`. A container carries the capacity of its allocation next to its contents,
as the source does: the capacity decides when an insertion reallocates and when it is refused. Two
values are structurally equal when they agree up to these capacities (`Value.contents`). -/

namespace AnyRpc

/-- A value: the type tag with its data. Strings and binaries are their bytes; how these are stored
(inline, allocated or referenced) is not part of the value. -/
inductive Value where
  /-- The default-constructed value, not yet assigned. -/
  | invalid
  | null
  | bool (b : Bool)
  /-- Members in insertion order (keys are strings and need not be distinct). -/
  | map (members : List (Bytes × Value)) (capacity : ℕ)
  | array (elements : List Value) (capacity : ℕ)
  | string (s : Bytes)
  | number (n : Number)
  /-- A point in time, as `time_t`. -/
  | dateTime (dt : ℤ)
  | binary (s : Bytes)
  deriving Repr, Inhabited

namespace Value

/-! ## Type tests -/

/-- `GetType`, as the number of the member of `ValueType`. -/
def getType : Value → ℕ
  | invalid => 0
  | null => 1
  | bool false => 2
  | bool true => 3
  | map _ _ => 4
  | array _ _ => 5
  | string _ => 6
  | number _ => 7
  | dateTime _ => 8
  | binary _ => 9

/-- `IsInvalid`. -/
def isInvalid : Value → Bool
  | invalid => true
  | _ => false

/-- `IsValid`. -/
def isValid (v : Value) : Bool := !v.isInvalid

/-- `IsMap`. -/
def isMap : Value → Bool
  | map _ _ => true
  | _ => false

/-- `IsArray`. -/
def isArray : Value → Bool
  | array _ _ => true
  | _ => false

/-- `IsString`. -/
def isString : Value → Bool
  | string _ => true
  | _ => false

/-- `IsInt`. -/
def isInt : Value → Bool
  | number n => n.isInt
  | _ => false

/-- `IsUint`. -/
def isUint : Value → Bool
  | number n => n.isUint
  | _ => false

/-- `IsInt64`. -/
def isInt64 : Value → Bool
  | number n => n.isInt64
  | _ => false

/-- `IsUint64`. -/
def isUint64 : Value → Bool
  | number n => n.isUint64
  | _ => false

/-- Only one value is invalid. -/
@[simp] theorem isInvalid_iff (v : Value) : v.isInvalid = true ↔ v = invalid := by
  cases v <;> simp [isInvalid]

/-- Any other one is not. -/
@[simp] theorem isInvalid_eq_false (v : Value) : v.isInvalid = false ↔ v ≠ invalid := by
  cases v <;> simp [isInvalid]

/-- What is valid is any other one. -/
@[simp] theorem isValid_iff (v : Value) : v.isValid = true ↔ v ≠ invalid := by
  cases v <;> simp [isValid, isInvalid]

/-! ## Induction -/

/-- Induction on a value, with the hypothesis for every element of an array and every member of a
map. -/
@[elab_as_elim]
theorem induction {motive : Value → Prop} (invalid : motive invalid) (null : motive null)
    (bool : ∀ b, motive (bool b))
    (map : ∀ ms c, (∀ m ∈ ms, motive m.2) → motive (map ms c))
    (array : ∀ es c, (∀ e ∈ es, motive e) → motive (array es c))
    (string : ∀ s, motive (string s)) (number : ∀ n, motive (number n))
    (dateTime : ∀ dt, motive (dateTime dt)) (binary : ∀ s, motive (binary s)) (v : Value) :
    motive v := by
  refine Value.rec (motive_1 := motive) (motive_2 := fun ms => ∀ m ∈ ms, motive m.2)
    (motive_3 := fun es => ∀ e ∈ es, motive e) (motive_4 := fun m => motive m.2)
    invalid null bool (fun ms c ih => map ms c ih) (fun es c ih => array es c ih) string number
    dateTime binary ?_ ?_ ?_ ?_ ?_ v
  · simp
  · intro m ms hm hms m' hm'
    rcases List.mem_cons.mp hm' with rfl | h
    · exact hm
    · exact hms m' h
  · simp
  · intro e es he hes e' he'
    rcases List.mem_cons.mp he' with rfl | h
    · exact he
    · exact hes e' h
  · intro _ v hv
    exact hv

/-! ## Predicates on every node -/

mutual

/-- A property holds of the value and of everything nested in it. -/
def All (p : Value → Prop) : Value → Prop
  | map ms c => p (map ms c) ∧ AllMembers p ms
  | array es c => p (array es c) ∧ AllElements p es
  | v => p v

/-- `All` over the elements of an array. -/
def AllElements (p : Value → Prop) : List Value → Prop
  | [] => True
  | v :: vs => All p v ∧ AllElements p vs

/-- `All` over the members of a map. -/
def AllMembers (p : Value → Prop) : List (Bytes × Value) → Prop
  | [] => True
  | (_, v) :: ms => All p v ∧ AllMembers p ms

end

/-- What holds throughout a list of elements. -/
theorem allElements_iff {p : Value → Prop} {es : List Value} :
    AllElements p es ↔ ∀ e ∈ es, All p e := by
  induction es with
  | nil => simp [AllElements]
  | cons e es ih => simp [AllElements, ih]

/-- What holds throughout a list of members. -/
theorem allMembers_iff {p : Value → Prop} {ms : List (Bytes × Value)} :
    AllMembers p ms ↔ ∀ m ∈ ms, All p m.2 := by
  induction ms with
  | nil => simp [AllMembers]
  | cons m ms ih => simp [AllMembers, ih]

/-- A property of all nodes, on an array. -/
@[simp] theorem all_array {p : Value → Prop} {es : List Value} {c : ℕ} :
    All p (array es c) ↔ p (array es c) ∧ ∀ e ∈ es, All p e := by
  rw [All, allElements_iff]

/-- A property of all nodes, on a map. -/
@[simp] theorem all_map {p : Value → Prop} {ms : List (Bytes × Value)} {c : ℕ} :
    All p (map ms c) ↔ p (map ms c) ∧ ∀ m ∈ ms, All p m.2 := by
  rw [All, allMembers_iff]

/-- A property of all nodes holds of the root. -/
theorem All.root {p : Value → Prop} {v : Value} (h : All p v) : p v := by
  cases v <;> first | exact h | exact (all_array.mp h).1 | exact (all_map.mp h).1

/-- A weaker property holds of all nodes as well. -/
theorem All.mono {p q : Value → Prop} (hpq : ∀ v, p v → q v) {v : Value} (h : All p v) :
    All q v := by
  induction v using Value.induction with
  | map ms c ih =>
    rw [all_map] at h ⊢
    exact ⟨hpq _ h.1, fun m hm => ih m hm (h.2 m hm)⟩
  | array es c ih =>
    rw [all_array] at h ⊢
    exact ⟨hpq _ h.1, fun e he => ih e he (h.2 e he)⟩
  | _ => exact hpq _ h

/-- No part of the value is invalid. -/
def FullyValid (v : Value) : Prop := v.All (· ≠ invalid)

/-! ## Structural equality -/

mutual

/-- The value with every capacity forgotten. Values with the same contents are structurally
equal. -/
def contents : Value → Value
  | map ms _ => map (contentsMembers ms) 0
  | array es _ => array (contentsElements es) 0
  | v => v

/-- `contents` over the elements of an array. -/
def contentsElements : List Value → List Value
  | [] => []
  | v :: vs => v.contents :: contentsElements vs

/-- `contents` over the members of a map. -/
def contentsMembers : List (Bytes × Value) → List (Bytes × Value)
  | [] => []
  | (k, v) :: ms => (k, v.contents) :: contentsMembers ms

end

/-- The contents of a list of elements. -/
theorem contentsElements_eq (es : List Value) : contentsElements es = es.map contents := by
  induction es with
  | nil => rfl
  | cons e es ih => simp [contentsElements, ih]

/-- The contents of a list of members. -/
theorem contentsMembers_eq (ms : List (Bytes × Value)) :
    contentsMembers ms = ms.map fun m => (m.1, m.2.contents) := by
  induction ms with
  | nil => rfl
  | cons m ms ih => simp [contentsMembers, ih]

/-- The contents of an array. -/
@[simp] theorem contents_array (es : List Value) (c : ℕ) :
    (array es c).contents = array (es.map contents) 0 := by
  rw [contents, contentsElements_eq]

/-- The contents of a map. -/
@[simp] theorem contents_map (ms : List (Bytes × Value)) (c : ℕ) :
    (map ms c).contents = map (ms.map fun m => (m.1, m.2.contents)) 0 := by
  rw [contents, contentsMembers_eq]

end Value

end AnyRpc
