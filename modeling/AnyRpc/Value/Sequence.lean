import AnyRpc.Value.Storage

/-! # Arrays as lists

The abstract view of an array is the list of its elements. Every sequence of operations on a stored
value does to the list what the operations are for (`ArrayOp.refines_list`). -/

namespace AnyRpc

open Library

/-! ## The abstract view -/

/-- A value as a list, or a value that is no array. -/
inductive Sequence where
  | list (xs : List Value)
  | other (v : Value)

namespace Sequence

/-- The view of a value. -/
def of : Value → Sequence
  | .array es _ => list es
  | v => other v

/-- The list, where there is one. -/
def list? : Sequence → Option (List Value)
  | list xs => some xs
  | other _ => none

/-- The list, where there is one or can be one: an invalid value becomes an array when it is used as
one. -/
def started? : Sequence → Option (List Value)
  | list xs => some xs
  | other v => if v.isInvalid then some [] else none

/-- The list with a number of elements: a first part of it, or all of it and invalid values. -/
def resize (n : ℕ) (xs : List Value) : List Value :=
  xs.take n ++ List.replicate (n - xs.length) .invalid

/-- The list with at least the elements up to an index. -/
def extend (i : ℕ) (xs : List Value) : List Value :=
  xs ++ List.replicate (i + 1 - xs.length) .invalid

end Sequence

/-- The abstract state: the list, and the other values. -/
structure Lists where
  value : Sequence
  others : ℕ → Value

/-- A value as it is stored, and the other values that the operations take their arguments from. -/
structure Objects where
  value : Storage
  others : ℕ → Value

/-! ## Operations -/

/-- The operations on a value that is used as an array. An argument that is copied or moved is given
by its number among the other values. -/
inductive ArrayOp where
  | setArray
  | setArrayOf (capacity : ℕ)
  | setSize (newSize : ℕ)
  | reserve (newCapacity : ℕ)
  | pushBack (k : ℕ)
  | clear
  /-- `v[i]`. -/
  | index (i : ℕ)
  /-- `v[i] = x`. -/
  | copyTo (i k : ℕ)
  /-- `v[i].Assign(x)`. -/
  | assignTo (i k : ℕ)
  /-- `v.Assign(x)`. -/
  | assign (k : ℕ)

/-- What an operation on the value does. -/
def onValue {α : Type} (p : Exec Storage α) : Exec Objects α := fun s =>
  match p s.value with
  | .ok a value => .ok a { s with value }
  | .error fault value => .error fault { s with value }

/-- `RawAssign` leaves null in its source. -/
def leaveNull (k : ℕ) : Exec Objects Unit :=
  modify fun s => { s with others := Function.update s.others k .null }

namespace ArrayOp

/-- What an operation does. -/
def run : ArrayOp → Exec Objects Unit
  | setArray => onValue Storage.setArray
  | setArrayOf capacity => onValue (Storage.setArrayOf capacity)
  | setSize newSize => onValue (Storage.setSize newSize)
  | reserve newCapacity => onValue (Storage.reserve newCapacity)
  | pushBack k => do
    onValue (Storage.pushBack ((← get).others k))
    leaveNull k
  | clear => onValue Storage.clear
  | index i => do let _ ← onValue (Storage.element i)
  | copyTo i k => do
    let i ← onValue (Storage.element i)
    match Value.copyInternal ((← get).others k) with
    | .ok x => onValue (Storage.store i x)
    | .error fault =>
      -- A copy that throws leaves what it made so far. Within the limits there is none, and here the
      -- element is left as one that is not assigned.
      onValue (Storage.store i .invalid)
      throw fault
  | assignTo i k => do
    let i ← onValue (Storage.element i)
    onValue (Storage.store i ((← get).others k))
    leaveNull k
  | assign k => do
    modify fun s => { s with value := .ofValue (s.others k) }
    leaveNull k

/-- The size that an index asks for is within the limit. -/
def IndexWithin (i : ℕ) : Storage → Prop
  | .array a => a.size ≤ i → i + 1 < Value.maxArrayCapacity
  | .other _ => i + 1 < Value.maxArrayCapacity

/-- An operation stays within the capacity limit. -/
def Within : ArrayOp → Objects → Prop
  | setArrayOf n, _ | setSize n, _ | reserve n, _ => n < Value.maxArrayCapacity
  | pushBack _, s =>
    match s.value with
    | .array a => a.capacity ≤ a.size → Value.grownArrayCapacity a.capacity < Value.maxArrayCapacity
    | .other _ => True
  | index i, s | assignTo i _, s => IndexWithin i s.value
  | copyTo i k, s => IndexWithin i s.value ∧ ∃ x, Value.copyInternal (s.others k) = .ok x
  | _, _ => True

/-- The list that an operation is for; `none` where the value cannot be used as an array. -/
def spec : ArrayOp → Lists → Option Lists
  | setArray, t => some { t with value := .list [] }
  | setArrayOf n, t => some { t with value := .list (List.replicate n .invalid) }
  | setSize n, t => t.value.started?.map fun xs => { t with value := .list (Sequence.resize n xs) }
  | reserve _, t => t.value.list?.map fun _ => t
  | pushBack k, t => t.value.list?.map fun xs =>
    { value := .list (xs ++ [t.others k]), others := Function.update t.others k .null }
  | clear, t => t.value.list?.map fun _ => { t with value := .list [] }
  | index i, t => t.value.started?.map fun xs => { t with value := .list (Sequence.extend i xs) }
  | copyTo i k, t => t.value.started?.bind fun xs =>
    (Value.copyInternal (t.others k)).toOption.map fun x =>
      { t with value := .list ((Sequence.extend i xs).set i x) }
  | assignTo i k, t => t.value.started?.map fun xs =>
    { value := .list ((Sequence.extend i xs).set i (t.others k)),
      others := Function.update t.others k .null }
  | assign k, t => some
    { value := .of (t.others k), others := Function.update t.others k .null }

/-- The abstract state after an operation; one that is refused changes nothing. -/
def next (t : Lists) (op : ArrayOp) : Lists := (op.spec t).getD t

/-- The state after a sequence of operations, each of which may throw. -/
def runAll : List ArrayOp → Objects → Objects
  | [], s => s
  | op :: ops, s => runAll ops (reached (op.run s))

/-- Every operation of a sequence stays within the capacity limit. -/
def WithinAll : List ArrayOp → Objects → Prop
  | [], _ => True
  | op :: ops, s => op.Within s ∧ WithinAll ops (reached (op.run s))

/-- The elements that an operation is about. -/
def Addresses : ArrayOp → ℕ → Prop
  | setArray, _ | setArrayOf _, _ | clear, _ | assign _, _ => True
  | copyTo i _, j | assignTo i _, j => j = i
  | _, _ => False

end ArrayOp

/-- The stored value is the list. The arrays among the other values have their sizes within their
capacities. -/
structure Objects.Refines (s : Objects) (t : Lists) : Prop where
  value : ∃ v, s.value.Holds v ∧ t.value = .of v
  others : t.others = s.others
  sized : ∀ k es c, s.others k = .array es c → es.length ≤ c

/-! ## Operations on values -/

namespace Value

open Sequence

variable {v : Value} {xs : List Value}

theorem eq_array_of_list? (h : (Sequence.of v).list? = some xs) : ∃ c, v = array xs c := by
  cases v with
  | array es c =>
    cases h
    exact ⟨c, rfl⟩
  | _ => cases h

theorem eq_of_started? (h : (Sequence.of v).started? = some xs) :
    (∃ c, v = array xs c) ∨ v = invalid ∧ xs = [] := by
  cases v with
  | array es c =>
    cases h
    exact .inl ⟨c, rfl⟩
  | invalid =>
    cases h
    exact .inr ⟨rfl, rfl⟩
  | _ => cases h

theorem isArray_of_list? (h : (Sequence.of v).list? = none) : v.isArray = false := by
  cases v <;> first | rfl | cases h

theorem isArray_of_started? (h : (Sequence.of v).started? = none) :
    v.isArray = false ∧ v.isInvalid = false := by
  cases v <;> first | exact ⟨rfl, rfl⟩ | cases h

/-- What is no array is refused. -/
theorem assertArray_of_isArray (h : v.isArray = false) :
    ∃ e, assertArray v = .error (.exception e) v := by
  rw [assertArray, bind_of_ok (get_apply v), h]
  exact ⟨_, rfl⟩

/-- `SetSize`, in terms of lists. -/
theorem setSize_started (h : (Sequence.of v).started? = some xs) {n : ℕ}
    (hn : n < maxArrayCapacity) : ∃ c, setSize n v = .ok () (array (resize n xs) c) := by
  rcases eq_of_started? h with ⟨c, rfl⟩ | ⟨rfl, rfl⟩
  · exact ⟨_, setSize_array xs c hn⟩
  · exact ⟨_, setSize_array [] 0 hn⟩

theorem setSize_refused (h : (Sequence.of v).started? = none) (n : ℕ) :
    ∃ e, setSize n v = .error (.exception e) v := by
  obtain ⟨harray, hinvalid⟩ := isArray_of_started? h
  obtain ⟨e, he⟩ := assertArray_of_isArray harray
  refine ⟨e, ?_⟩
  rw [setSize, bind_of_ok (get_apply v), hinvalid]
  exact bind_of_error he

/-- The access to an element, in terms of lists. -/
theorem element_started (h : (Sequence.of v).started? = some xs) {i : ℕ}
    (hi : xs.length ≤ i → i + 1 < maxArrayCapacity) :
    ∃ c, element i v = .ok i (array (extend i xs) c) := by
  have harray (c : ℕ) : ∃ c', element i (array xs c) = .ok i (array (extend i xs) c') := by
    rcases lt_or_ge i xs.length with hlt | hge
    · have hextend : extend i xs = xs := by
        rw [extend, Nat.sub_eq_zero_of_le hlt]
        simp
      exact ⟨c, by rw [hextend, element_array xs c hlt]⟩
    · exact ⟨_, element_grow hge (hi hge)⟩
  rcases eq_of_started? h with ⟨c, rfl⟩ | ⟨rfl, rfl⟩
  · exact harray c
  · exact harray 0

theorem element_refused (h : (Sequence.of v).started? = none) (i : ℕ) :
    ∃ e, element i v = .error (.exception e) v := by
  obtain ⟨harray, hinvalid⟩ := isArray_of_started? h
  obtain ⟨e, he⟩ := assertArray_of_isArray harray
  refine ⟨e, ?_⟩
  rw [element, bind_of_ok (get_apply v), hinvalid]
  exact bind_of_error he

end Value

/-! ## One operation -/

section

variable {α : Type} {p : Exec Storage α} {q : Exec Value α} {s : Objects} {v v' : Value}

/-- A step on the stored value returns as that on the value does. -/
theorem onValue_of_ok {a : α} (hsim : Alike Storage.Holds (p s.value) (q v))
    (hq : q v = .ok a v') :
    ∃ value, onValue p s = .ok a { s with value } ∧ value.Holds v' := by
  rw [hq] at hsim
  obtain ⟨value, hp, hvalue⟩ := hsim.of_ok
  exact ⟨value, by rw [onValue, hp], hvalue⟩

/-- A step on the stored value throws as that on the value does. -/
theorem onValue_of_error {f : Fault} (hsim : Alike Storage.Holds (p s.value) (q v))
    (hq : q v = .error f v') :
    ∃ value, onValue p s = .error f { s with value } ∧ value.Holds v' := by
  rw [hq] at hsim
  obtain ⟨value, hp, hvalue⟩ := hsim.of_error
  exact ⟨value, by rw [onValue, hp], hvalue⟩

end

namespace ArrayOp

/-- How an operation ends: it returns where the list has the operation, and is refused where not. -/
def EndsAs (op : ArrayOp) (s : Objects) (t : Lists) : Prop :=
  (∃ t' s', op.spec t = some t' ∧ op.run s = .ok () s' ∧ s'.Refines t') ∨
    op.spec t = none ∧ ∃ e s', op.run s = .error (.exception e) s' ∧ s'.Refines t

section

variable {s : Objects} {t : Lists} {v : Value}

/-- Refinement with another value. -/
theorem refines_value (h : s.Refines t) {value : Storage} {v' : Value} (hv : value.Holds v') :
    Objects.Refines { s with value } { t with value := .of v' } :=
  ⟨⟨v', hv, rfl⟩, h.others, h.sized⟩

/-- Refinement where the source of a move is null. -/
theorem refines_leaveNull (h : s.Refines t) (k : ℕ) :
    Objects.Refines { s with others := Function.update s.others k .null }
      { t with others := Function.update t.others k .null } := by
  refine ⟨h.value, by rw [h.others], fun j es c hj => ?_⟩
  by_cases hk : j = k
  · subst hk
    simp at hj
  · exact h.sized j es c ((Function.update_of_ne hk _ _).symm.trans hj)

/-- A value that is refused stays what it is. -/
theorem refines_refused (h : s.Refines t) (ht : t.value = .of v) {value : Storage}
    (hv : value.Holds v) : Objects.Refines { s with value } t :=
  ⟨⟨v, hv, ht⟩, h.others, h.sized⟩

/-- The limit of an index, in terms of lists. -/
theorem indexWithin_started {i : ℕ} (hlimit : IndexWithin i s.value) (hv : s.value.Holds v)
    {xs : List Value} (hxs : (Sequence.of v).started? = some xs) (hi : xs.length ≤ i) :
    i + 1 < Value.maxArrayCapacity := by
  rcases Value.eq_of_started? hxs with ⟨c, rfl⟩ | ⟨rfl, rfl⟩
  · cases hs : s.value with
    | array a =>
      rw [hs] at hlimit hv
      cases hv
      exact hlimit hi
    | other w =>
      rw [hs] at hv
      cases hv with
      | other hother => cases hother
  · cases hs : s.value with
    | array a =>
      rw [hs] at hv
      cases hv
    | other w =>
      rw [hs] at hlimit
      exact hlimit

/-- An operation that only changes the value, and returns. -/
theorem endsAs_of_ok {op : ArrayOp} {p : Exec Storage Unit} {q : Exec Value Unit} {v' : Value}
    (h : s.Refines t) (hrun : op.run s = onValue p s)
    (hsim : Alike Storage.Holds (p s.value) (q v)) (hq : q v = .ok () v')
    (hspec : op.spec t = some { t with value := .of v' }) : op.EndsAs s t := by
  obtain ⟨value, hp, hvalue⟩ := onValue_of_ok hsim hq
  exact .inl ⟨_, _, hspec, hrun.trans hp, refines_value h hvalue⟩

/-- An operation that is refused for what the value is. -/
theorem endsAs_of_error {op : ArrayOp} {p : Exec Storage Unit} {q : Exec Value Unit}
    {e : AnyRpcException} (h : s.Refines t) (ht : t.value = .of v) (hrun : op.run s = onValue p s)
    (hsim : Alike Storage.Holds (p s.value) (q v)) (hq : q v = .error (.exception e) v)
    (hspec : op.spec t = none) : op.EndsAs s t := by
  obtain ⟨value, hp, hvalue⟩ := onValue_of_error hsim hq
  exact .inr ⟨hspec, e, _, hrun.trans hp, refines_refused h ht hvalue⟩

/-- The access to an element that an operation starts with. -/
theorem run_element (h : s.Refines t) (ht : t.value = .of v) (hv : s.value.Holds v) {i : ℕ}
    (hlimit : IndexWithin i s.value) :
    (∃ xs c value, t.value.started? = some xs ∧
        onValue (Storage.element i) s = .ok i { s with value } ∧
        value.Holds (.array (Sequence.extend i xs) c)) ∨
      t.value.started? = none ∧ ∃ e value,
        onValue (Storage.element i) s = .error (.exception e) { s with value } ∧
        Objects.Refines { s with value } t := by
  rw [ht]
  cases hxs : (Sequence.of v).started? with
  | some xs =>
    obtain ⟨c, hq⟩ := Value.element_started hxs (indexWithin_started hlimit hv hxs)
    obtain ⟨value, hp, hvalue⟩ := onValue_of_ok (Storage.alike_element hv i) hq
    exact .inl ⟨xs, c, value, rfl, hp, hvalue⟩
  | none =>
    obtain ⟨e, hq⟩ := Value.element_refused hxs i
    obtain ⟨value, hp, hvalue⟩ := onValue_of_error (Storage.alike_element hv i) hq
    exact .inr ⟨rfl, e, value, hp, refines_refused h ht hvalue⟩

/-- The assignment to an element that the access has returned. -/
theorem run_store {value : Storage} {xs : List Value} {c i : ℕ}
    (hvalue : value.Holds (.array (Sequence.extend i xs) c)) (s : Objects) (x : Value) :
    ∃ value', onValue (Storage.store i x) { s with value } = .ok () { s with value := value' } ∧
      value'.Holds (.array ((Sequence.extend i xs).set i x) c) := by
  have hin : i < (Sequence.extend i xs).length := by
    rw [Sequence.extend, List.length_append, List.length_replicate]
    omega
  have hchild : (Value.array (Sequence.extend i xs) c).child? i = some (Sequence.extend i xs)[i] :=
    List.getElem?_eq_getElem hin
  exact onValue_of_ok (s := { s with value }) (Storage.alike_store hvalue hchild rfl x) rfl

/-- One operation does to the value what it is for. -/
theorem endsAs (op : ArrayOp) (h : s.Refines t) (hlimit : op.Within s) : op.EndsAs s t := by
  obtain ⟨v, hv, ht⟩ := h.value
  cases op with
  | setArray => exact endsAs_of_ok h rfl (Storage.alike_setArray (v := v)) rfl rfl
  | setArrayOf n =>
    have hq := (Value.setArrayOf_apply n v).trans (if_pos hlimit)
    exact endsAs_of_ok h rfl (Storage.alike_setArrayOf n) hq rfl
  | setSize n =>
    cases hxs : (Sequence.of v).started? with
    | some xs =>
      obtain ⟨c, hq⟩ := Value.setSize_started hxs hlimit
      exact endsAs_of_ok h rfl (Storage.alike_setSize hv n) hq (by rw [spec, ht, hxs]; rfl)
    | none =>
      obtain ⟨e, hq⟩ := Value.setSize_refused hxs n
      exact endsAs_of_error h ht rfl (Storage.alike_setSize hv n) hq (by rw [spec, ht, hxs]; rfl)
  | reserve n =>
    cases hxs : (Sequence.of v).list? with
    | some xs =>
      obtain ⟨c, rfl⟩ := Value.eq_array_of_list? hxs
      have hq := (@Value.reserve_array xs c n).trans (if_pos hlimit)
      have hsame : { t with value := .of (.array xs (max n c)) } = t := by
        rw [show Sequence.of (.array xs (max n c)) = t.value from ht.symm]
      exact endsAs_of_ok h rfl (Storage.alike_reserve hv n) hq (by rw [spec, ht, hxs, hsame]; rfl)
    | none =>
      obtain ⟨e, he⟩ := Value.assertArray_of_isArray (Value.isArray_of_list? hxs)
      exact endsAs_of_error h ht rfl (Storage.alike_reserve hv n) (bind_of_error he)
        (by rw [spec, ht, hxs]; rfl)
  | clear =>
    cases hxs : (Sequence.of v).list? with
    | some xs =>
      obtain ⟨c, rfl⟩ := Value.eq_array_of_list? hxs
      exact endsAs_of_ok h rfl (Storage.alike_clear hv) Value.clear_array
        (by rw [spec, ht, hxs]; rfl)
    | none =>
      obtain ⟨e, he⟩ := Value.assertArray_of_isArray (Value.isArray_of_list? hxs)
      exact endsAs_of_error h ht rfl (Storage.alike_clear hv) (bind_of_error he)
        (by rw [spec, ht, hxs]; rfl)
  | pushBack k =>
    have hrun : (pushBack k).run s = (do
        onValue (Storage.pushBack (s.others k))
        leaveNull k : Exec Objects Unit) s := rfl
    cases hxs : (Sequence.of v).list? with
    | some xs =>
      obtain ⟨c, rfl⟩ := Value.eq_array_of_list? hxs
      obtain ⟨c', hq⟩ : ∃ c', Value.pushBack (s.others k) (.array xs c) =
          .ok () (.array (xs ++ [s.others k]) c') := by
        rcases lt_or_ge xs.length c with hroom | hfull
        · exact ⟨c, Value.pushBack_of_lt xs hroom _⟩
        · refine ⟨_, (Value.pushBack_of_le xs hfull _).trans (if_pos ?_)⟩
          rw [Within] at hlimit
          generalize s.value = value at hv hlimit
          cases hv with
          | array _ => exact hlimit hfull
          | other hother => cases hother
      obtain ⟨value, hp, hvalue⟩ := onValue_of_ok (Storage.alike_pushBack hv _) hq
      refine .inl ⟨_, _, ?_, hrun.trans (bind_of_ok hp),
        refines_leaveNull (refines_value h hvalue) k⟩
      rw [spec, ht, hxs, h.others]
      rfl
    | none =>
      obtain ⟨e, he⟩ := Value.assertArray_of_isArray (Value.isArray_of_list? hxs)
      obtain ⟨value, hp, hvalue⟩ := onValue_of_error (Storage.alike_pushBack hv (s.others k))
        (bind_of_error he)
      exact .inr ⟨by rw [spec, ht, hxs]; rfl, e, _, hrun.trans (bind_of_error hp),
        refines_refused h ht hvalue⟩
  | index i =>
    rcases run_element h ht hv hlimit with ⟨xs, c, value, hxs, hp, hvalue⟩ | ⟨hxs, e, value, hp, hr⟩
    · exact .inl ⟨_, _, by rw [spec, hxs]; rfl, bind_of_ok hp, refines_value h hvalue⟩
    · exact .inr ⟨by rw [spec, hxs]; rfl, e, _, bind_of_error hp, hr⟩
  | copyTo i k =>
    obtain ⟨hindex, x, hx⟩ := hlimit
    rcases run_element h ht hv hindex with ⟨xs, c, value, hxs, hp, hvalue⟩ | ⟨hxs, e, value, hp, hr⟩
    · obtain ⟨value', hstore, hvalue'⟩ := run_store hvalue s x
      refine .inl ⟨_, _, ?_, ?_, refines_value h hvalue'⟩
      · rw [spec, hxs, h.others, hx]
        rfl
      · rw [run, bind_of_ok hp, bind_of_ok (get_apply _), hx]
        exact hstore
    · refine .inr ⟨by rw [spec, hxs]; rfl, e, _, ?_, hr⟩
      rw [run, bind_of_error hp]
  | assignTo i k =>
    rcases run_element h ht hv hlimit with ⟨xs, c, value, hxs, hp, hvalue⟩ | ⟨hxs, e, value, hp, hr⟩
    · obtain ⟨value', hstore, hvalue'⟩ := run_store hvalue s (s.others k)
      refine .inl ⟨_, _, ?_, ?_, refines_leaveNull (refines_value h hvalue') k⟩
      · rw [spec, hxs, h.others]
        rfl
      · rw [run, bind_of_ok hp, bind_of_ok (get_apply _), bind_of_ok hstore]
        rfl
    · refine .inr ⟨by rw [spec, hxs]; rfl, e, _, ?_, hr⟩
      rw [run, bind_of_error hp]
  | assign k =>
    have hvalue := Storage.holds_ofValue (h.sized k)
    refine .inl ⟨_, _, ?_, rfl, refines_leaveNull (refines_value h hvalue) k⟩
    rw [spec, h.others]

end

/-! ## Sequences of operations -/

section

variable {s : Objects} {t : Lists}

/-- After one operation the stored value is the next list. -/
theorem refines_next (op : ArrayOp) (h : s.Refines t) (hlimit : op.Within s) :
    (reached (op.run s)).Refines (next t op) := by
  rcases op.endsAs h hlimit with ⟨t', s', hspec, hrun, hr⟩ | ⟨hspec, e, s', hrun, hr⟩
  · rw [next, hspec, hrun]
    exact hr
  · rw [next, hspec, hrun]
    exact hr

/-- After a sequence of operations the stored value is the list that they are for. -/
theorem refines_runAll (ops : List ArrayOp) :
    ∀ {s : Objects} {t : Lists}, s.Refines t → WithinAll ops s →
      (runAll ops s).Refines (ops.foldl next t) := by
  induction ops with
  | nil =>
    intro s t h _
    exact h
  | cons op ops ih =>
    intro s t h hlimit
    exact ih (op.refines_next h hlimit.1) hlimit.2

/-- Resizing keeps the elements that fit. -/
theorem getElem?_resize {n j : ℕ} {xs : List Value} (hx : j < xs.length)
    (hy : j < (Sequence.resize n xs).length) : (Sequence.resize n xs)[j]? = xs[j]? := by
  have hn : j < n := by
    rw [Sequence.resize, List.length_append, List.length_take, List.length_replicate] at hy
    omega
  have htake : j < (xs.take n).length := by
    rw [List.length_take]
    omega
  rw [Sequence.resize, List.getElem?_append_left htake, List.getElem?_take_of_lt hn]

/-- The elements that an operation does not address are those that they were. -/
theorem getElem?_next (op : ArrayOp) {xs ys : List Value} (hxs : t.value = .list xs)
    (hys : (next t op).value = .list ys) {j : ℕ} (haddress : ¬ op.Addresses j)
    (hx : j < xs.length) (hy : j < ys.length) : ys[j]? = xs[j]? := by
  have hlist : t.value.list? = some xs := by rw [hxs]; rfl
  have hstarted : t.value.started? = some xs := by rw [hxs]; rfl
  have hsame : t.value = .list ys → ys[j]? = xs[j]? := by
    intro h
    rw [hxs] at h
    cases h
    rfl
  have hextend (i : ℕ) : (Sequence.extend i xs)[j]? = xs[j]? := List.getElem?_append_left hx
  cases op with
  | setArray | setArrayOf | clear | assign => exact absurd trivial haddress
  | setSize n =>
    rw [next, spec, hstarted] at hys
    cases hys
    exact getElem?_resize hx hy
  | reserve n =>
    rw [next, spec, hlist] at hys
    exact hsame hys
  | pushBack k =>
    rw [next, spec, hlist] at hys
    cases hys
    exact List.getElem?_append_left hx
  | index i =>
    rw [next, spec, hstarted] at hys
    cases hys
    exact hextend i
  | copyTo i k =>
    rw [next, spec, hstarted] at hys
    cases hcopy : (Value.copyInternal (t.others k)).toOption with
    | none =>
      rw [hcopy] at hys
      exact hsame hys
    | some x =>
      rw [hcopy] at hys
      cases hys
      rw [List.getElem?_set_ne (Ne.symm haddress), hextend]
  | assignTo i k =>
    rw [next, spec, hstarted] at hys
    cases hys
    rw [List.getElem?_set_ne (Ne.symm haddress), hextend]

end

end ArrayOp

end AnyRpc
