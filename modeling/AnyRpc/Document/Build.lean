import AnyRpc.Document.Document
import AnyRpc.Handler.EventTree
import Mathlib.Data.List.Forall2

/-! # What a document builds

The value that a tree of calls stands for, as a recursion over the tree (`EventTree.build`), and the
proof that a `Document` on which the calls are made fills the position it points to with exactly
that value, leaving everything else as it was. -/

namespace AnyRpc

open Library Handler

/-! ## Growth -/

/-- The fault of a string that is referenced without being terminated. -/
def notTerminated : Fault :=
  .exception { code := ErrorCode.stringNotTerminated, message := ascii "String not null terminated" }

/-- The fault of a value that arrives where a value of the given type already stands. -/
def notInvalid (type : ℕ) : Fault :=
  .exception { code := ErrorCode.accessNotInvalidValue,
               message := ascii "Not invalid, type=" ++ decimal type }

/-- The fault of an array that would grow beyond the limit. -/
def tooManyElements (capacity : ℕ) : Fault :=
  .exception { code := ErrorCode.memoryAllocation, message := Value.tooManyElements capacity }

/-- The fault of a map that would grow beyond the limit. -/
def tooManyMembers (size capacity : ℕ) : Fault :=
  .exception { code := ErrorCode.memoryAllocation,
               message := ascii "Too many members, size=" ++ decimal size ++
                 ascii ", capacity=" ++ decimal capacity }

/-- The capacity of an array after one more element. -/
def pushCapacity (size capacity : ℕ) : Except Fault ℕ :=
  if capacity ≤ size then
    if Value.grownArrayCapacity capacity < Value.maxArrayCapacity then
      .ok (max (Value.grownArrayCapacity capacity) capacity)
    else .error (tooManyElements (Value.grownArrayCapacity capacity))
  else .ok capacity

/-- The capacity of a map after one more member. -/
def memberCapacity (size capacity : ℕ) : Except Fault ℕ :=
  let capacity := if capacity ≤ size then Value.grownMapCapacity capacity else capacity
  if size < capacity then .ok capacity else .error (tooManyMembers size capacity)

/-- The outcome of `PushBack` on an array. -/
theorem outcome_pushBack (v : Value) (es : List Value) (c : ℕ) :
    outcome (Value.pushBack v) (.array es c) =
      (pushCapacity es.length c).map fun c' => .array (es ++ [v]) c' := by
  by_cases hc : c ≤ es.length
  · rw [outcome, Value.pushBack_of_le es hc, pushCapacity, if_pos hc]
    by_cases hmax : Value.grownArrayCapacity c < Value.maxArrayCapacity
    · rw [if_pos hmax, if_pos hmax]
      rfl
    · rw [if_neg hmax, if_neg hmax]
      rfl
  · rw [outcome, Value.pushBack_of_lt es (by omega), pushCapacity, if_neg hc]
    rfl

/-! ## The calls, one by one -/

namespace Document

section

variable {d : Document} {p : Path} {l : List Path} {v₀ : Value}
variable (h₀ : Nested.get? p d.value = some v₀)

include h₀

/-- Assigning a position that is not yet assigned. -/
theorem outcome_assign (w : Value) :
    outcome (assign w) (d.within p .invalid (p :: l)) = .ok (d.within p w (p :: l)) := by
  rw [assign, outcome_onBack h₀]
  rfl

/-- The call for a string at a position that is not yet assigned. -/
theorem outcome_string (str : StrArg) :
    outcome (string str) (d.within p .invalid (p :: l)) =
      if str.terminated then .ok (d.within p (.string str.bytes) (p :: l))
      else .error notTerminated := by
  rw [string, outcome_onBack h₀]
  cases hstr : str.terminated <;>
    simp [outcome, assertInvalid, Value.checkTerminated, hstr, Except.map, notTerminated,
      Value.isInvalid]

/-- The call that starts a map. -/
theorem outcome_startMap :
    outcome startMap (d.within p .invalid (p :: l)) = .ok (d.within p (.map [] 0) (p :: l)) := by
  rw [startMap, outcome_onBack h₀]
  rfl

/-- The call for a key appends a member, to which it points. -/
theorem outcome_key (str : StrArg) (ms : List (Bytes × Value)) (c : ℕ) :
    outcome (key str) (d.within p (.map ms c) (p :: l)) =
      (memberCapacity ms.length c).bind fun c' =>
        if str.terminated then
          .ok (d.within p (.map (ms ++ [(str.bytes, .invalid)]) c')
            ((p ++ [ms.length]) :: p :: l))
        else .error notTerminated := by
  have hback := onBack_within h₀ (l := l) (do assertMap; Value.addMember str) (.map ms c)
  rw [outcome, key, bind_apply, hback, memberCapacity]
  generalize hc' : (if c ≤ ms.length then Value.grownMapCapacity c else c) = c'
  by_cases hlt : ms.length < c'
  · cases hstr : str.terminated <;>
      simp [assertMap, Value.isMap, Value.addMember, Value.addMemberCheckCapacity, Value.isInvalid,
        hc', hlt, Value.checkTerminated, hstr, Except.bind, pushChild, within, notTerminated]
  · simp [assertMap, Value.isMap, Value.addMember, Value.addMemberCheckCapacity, Value.isInvalid,
      hc', hlt, Except.bind, tooManyMembers]

/-- The call that separates members returns to the map. -/
theorem outcome_mapSeparator (ms : List (Bytes × Value)) (c : ℕ) (q : Path) :
    outcome mapSeparator (d.within p (.map ms c) (q :: p :: l)) =
      .ok (d.within p (.map ms c) (p :: l)) := by
  have hpop : popBack (d.within p (.map ms c) (q :: p :: l)) =
      .ok () (d.within p (.map ms c) (p :: l)) := rfl
  rw [outcome, mapSeparator, bind_of_ok hpop, onBack_within h₀]
  rfl

/-- The call that ends a map with members returns to the map. -/
theorem outcome_endMap {ms : List (Bytes × Value)} (hms : ms ≠ []) (c : ℕ) (q : Path) :
    outcome (endMap ms.length) (d.within p (.map ms c) (q :: p :: l)) =
      .ok (d.within p (.map ms c) (p :: l)) := by
  have hpop : popBack (d.within p (.map ms c) (q :: p :: l)) =
      .ok () (d.within p (.map ms c) (p :: l)) := rfl
  have hlen : ms.length ≠ 0 := by simpa using hms
  rw [outcome, endMap, if_pos hlen, bind_of_ok hpop]
  simp [onBack_within h₀, memberCount, assertMap, Value.isMap]

/-- The call that ends a map without members. -/
theorem outcome_endMap_zero (c : ℕ) :
    outcome (endMap 0) (d.within p (.map [] c) (p :: l)) =
      .ok (d.within p (.map [] c) (p :: l)) := by
  rw [outcome, endMap, if_neg (by simp)]
  simp [onBack_within h₀, memberCount, assertMap, Value.isMap]

/-- The call that starts an array assigns it with one element, to which it points. -/
theorem outcome_startArray :
    outcome startArray (d.within p .invalid (p :: l)) =
      .ok (d.within p (.array [.invalid] Value.defaultArrayCapacity) ((p ++ [0]) :: p :: l)) := by
  have hfirst : onBack (do assertInvalid; Value.setArray; Value.pushBack .invalid)
      (d.within p .invalid (p :: l)) =
      .ok () (d.within p (.array [.invalid] Value.defaultArrayCapacity) (p :: l)) := by
    rw [onBack_within h₀]
    rfl
  have helement : onBack (Value.element 0)
      (d.within p (.array [.invalid] Value.defaultArrayCapacity) (p :: l)) =
      .ok 0 (d.within p (.array [.invalid] Value.defaultArrayCapacity) (p :: l)) := by
    rw [onBack_within h₀]
    rfl
  rw [outcome, startArray, bind_of_ok hfirst, bind_of_ok helement]
  rfl

/-- The call that separates elements appends one, to which it points. -/
theorem outcome_arraySeparator {es : List Value} {v : Value} (hv : v ≠ .invalid) (c : ℕ) :
    outcome arraySeparator
        (d.within p (.array (es ++ [v]) c) ((p ++ [es.length]) :: p :: l)) =
      (pushCapacity (es.length + 1) c).map fun c' =>
        d.within p (.array (es ++ [v] ++ [.invalid]) c')
          ((p ++ [es.length + 1]) :: p :: l) := by
  have hlast : Nested.get? (p ++ [es.length])
      (d.within p (.array (es ++ [v]) c) ((p ++ [es.length]) :: p :: l)).value = some v := by
    rw [get?_child h₀]
    simp [Value.child?]
  have hvalid : v.isValid = true := by simpa using hv
  have hassert := onBack_read (do
    let v ← get
    anyrpcAssert v.isValid ErrorCode.accessInvalidValue
      (ascii "Not valid, type=" ++ decimal v.getType)) rfl hlast
      (a := ()) (by simp [hvalid])
  have hpop : popBack (d.within p (.array (es ++ [v]) c) ((p ++ [es.length]) :: p :: l)) =
      .ok () (d.within p (.array (es ++ [v]) c) (p :: l)) := rfl
  have hsize : onBack Value.size (d.within p (.array (es ++ [v]) c) (p :: l)) =
      .ok (es.length + 1) (d.within p (.array (es ++ [v]) c) (p :: l)) := by
    rw [onBack_within h₀, Value.size_array, List.length_append, List.length_singleton]
  have hpush := outcome_onBack h₀ (l := l) (Value.pushBack .invalid) (.array (es ++ [v]) c)
  rw [outcome_pushBack, List.length_append, List.length_singleton] at hpush
  rw [outcome, arraySeparator, bind_of_ok hassert, bind_of_ok hpop, bind_of_ok hsize]
  cases hcap : pushCapacity (es.length + 1) c with
  | error f =>
    rw [hcap] at hpush
    cases hrun : onBack (Value.pushBack .invalid) (d.within p (.array (es ++ [v]) c) (p :: l)) with
    | ok _ d' =>
      rw [outcome_of_ok hrun] at hpush
      cases hpush
    | error f' d' =>
      rw [outcome_of_error hrun] at hpush
      rw [bind_of_error hrun]
      cases hpush
      rfl
  | ok c' =>
    rw [hcap] at hpush
    have hrun := outcome_eq_ok.mp hpush
    have helement : onBack (Value.element (es.length + 1))
        (d.within p (.array (es ++ [v] ++ [.invalid]) c') (p :: l)) =
        .ok (es.length + 1) (d.within p (.array (es ++ [v] ++ [.invalid]) c') (p :: l)) := by
      rw [onBack_within h₀, Value.element_array _ _ (by simp)]
    rw [bind_of_ok hrun, bind_of_ok helement]
    rfl

end

end Document

variable [Platform]

/-! ## The value of a tree -/

/-- The value that a scalar call assigns. -/
def Scalar.value : Scalar → Value
  | null => .null
  | boolTrue => .bool true
  | boolFalse => .bool false
  | dateTime dt => .dateTime dt
  | string str => .string str.bytes
  | binary str => .binary str.bytes
  | int i => .number (.ofInt i)
  | uint u => .number (.ofUint u)
  | int64 i64 => .number (.ofInt64 i64)
  | uint64 u64 => .number (.ofUint64 u64)
  | float f => .number (.ofDouble (Platform.floatToDouble f))
  | double d => .number (.ofDouble d)

/-- The outcome of a scalar call at a position that is not yet assigned. -/
def Scalar.build : Scalar → Except Fault Value
  | string str => if str.terminated then .ok (.string str.bytes) else .error notTerminated
  | s => .ok s.value

namespace EventTree

/-- The outcome of the call that ends an array of elements. -/
def finish (convert : Bool) (es : List Value) (capacity : ℕ) : Except Fault Value :=
  outcome (Document.finishArray convert es.length) (.array es capacity)

section

variable (convert : Bool)

mutual

/-- The value that a tree stands for, or the fault of the first call that is refused. -/
def build : EventTree → Except Fault Value
  | leaf s => s.build
  | array _ [] => .ok (.array [] Value.defaultArrayCapacity)
  | array _ (t :: ts) => do
    let v ← build t
    let (es, c) ← buildElements ts [v] Value.defaultArrayCapacity
    finish convert es c
  | map _ ms => do
    let (vs, c) ← buildMembers ms [] 0
    return .map vs c

/-- The elements after those that are built, with the capacity that their array reaches. -/
def buildElements : List EventTree → List Value → ℕ → Except Fault (List Value × ℕ)
  | [], es, c => .ok (es, c)
  | t :: ts, es, c => do
    let c' ← pushCapacity es.length c
    let v ← build t
    buildElements ts (es ++ [v]) c'

/-- The members after those that are built, with the capacity that their map reaches. -/
def buildMembers : List (Option StrArg × EventTree) → List (Bytes × Value) → ℕ →
    Except Fault (List (Bytes × Value) × ℕ)
  | [], ms, c => .ok (ms, c)
  | (none, _) :: _, _, _ => .error (notInvalid 4)
  | (some k, t) :: rest, ms, c => do
    let c' ← memberCapacity ms.length c
    if k.terminated then
      let v ← build t
      buildMembers rest (ms ++ [(k.bytes, v)]) c'
    else .error notTerminated

end

end

/-! ## The end of an array -/

/-- An array that is taken for an extension, by the conversion that it selects, and the string of
its second element. -/
inductive Extension where
  | dateTime (data : Bytes)
  | base64 (data : Bytes)
  deriving DecidableEq, Repr

/-- The extension for which the end of an array takes its elements. -/
def extension? : List Value → Option Extension
  | .string str :: .string data :: _ =>
    if Document.strncmpEq str Document.dateTimeString then some (.dateTime data)
    else if Document.strncmpEq str Document.base64String then some (.base64 data)
    else none
  | _ => none

/-- The outcome of the conversion of an array. -/
def Extension.convert : Extension → Value → Except Fault Value
  | .dateTime data, v => outcome (Document.convertDateTime data) v
  | .base64 data, v => outcome (Document.convertBase64 data) v

/-- The end of an array whose elements are not taken for an extension. -/
theorem finish_of_none {convert : Bool} {es : List Value} (c : ℕ)
    (h : convert = true → extension? es = none) : finish convert es c = .ok (.array es c) := by
  rw [finish, outcome_eq_ok]
  simp only [Document.finishArray, bind_apply, Value.size_array, get_apply, decide_true,
    anyrpcAssert_true]
  rcases es with _ | ⟨a, _ | ⟨b, rest⟩⟩
  · rfl
  · cases a <;> rfl
  · cases a with
    | string str =>
      cases convert with
      | false => rfl
      | true =>
        have hnone := h rfl
        cases b with
        | string data =>
          rw [extension?] at hnone
          split_ifs at hnone with hdate hbase
          simp [hdate, hbase]
        | _ => rfl
    | _ => rfl

/-- The end of an array whose elements are taken for an extension. -/
theorem finish_of_some {es : List Value} {x : Extension} (c : ℕ) (h : extension? es = some x) :
    finish true es c = x.convert (.array es c) := by
  match es, h with
  | .string str :: .string data :: rest, h =>
    simp only [finish, outcome, Document.finishArray, bind_apply, Value.size_array, get_apply,
      if_true]
    rw [extension?] at h
    split_ifs at h with hdate hbase
    · cases h
      rw [if_pos hdate]
      rfl
    · cases h
      rw [if_neg hdate, if_pos hbase]
      rfl

/-- A conversion leaves a point in time or a binary. -/
theorem Extension.convert_eq_ok {x : Extension} {v w : Value} (h : x.convert v = .ok w) :
    (∃ dt, w = .dateTime dt) ∨ ∃ s, w = .binary s := by
  cases x with
  | dateTime data =>
    rw [convert, outcome_eq_ok, Document.convertDateTime] at h
    cases hscan : (if data.length = 17 then Document.scanDateTime (cString data) else none) with
    | none =>
      rw [hscan] at h
      cases h
    | some t =>
      rw [hscan] at h
      cases h
      exact .inl ⟨_, rfl⟩
  | base64 data =>
    rw [convert, outcome_eq_ok, Document.convertBase64] at h
    simp only [bind_apply, set_apply] at h
    split_ifs at h with hdec
    · cases h
    · cases h
      exact .inr ⟨_, rfl⟩

/-- What the end of an array leaves is the array itself, a point in time or a binary. -/
theorem finish_eq_ok {convert : Bool} {es : List Value} {c : ℕ} {v : Value}
    (h : finish convert es c = .ok v) :
    v = .array es c ∨ (∃ dt, v = .dateTime dt) ∨ ∃ s, v = .binary s := by
  by_cases hnone : convert = true → extension? es = none
  · rw [finish_of_none c hnone] at h
    exact .inl (Except.ok.inj h).symm
  · obtain ⟨rfl, hx⟩ := Classical.not_imp.mp hnone
    obtain ⟨x, hx⟩ := Option.ne_none_iff_exists'.mp hx
    rw [finish_of_some c hx] at h
    exact .inr (Extension.convert_eq_ok h)

end EventTree

/-! ## The calls that depend on the platform -/

namespace Document

section

variable {d : Document} {p : Path} {l : List Path} {v₀ : Value}
variable (h₀ : Nested.get? p d.value = some v₀)

include h₀

/-- A scalar call fills a position that is not yet assigned. -/
theorem outcome_scalar (s : Scalar) :
    outcome (scalar s) (d.within p .invalid (p :: l)) =
      s.build.map fun v => d.within p v (p :: l) := by
  cases s with
  | string str =>
    rw [show scalar (.string str) = string str from rfl, outcome_string h₀, Scalar.build]
    split_ifs <;> rfl
  | _ => exact outcome_assign h₀ _

/-- The call that ends an array without elements. -/
theorem outcome_endArray_zero (c : ℕ) :
    outcome (endArray 0) (d.within p (.array [.invalid] c) ((p ++ [0]) :: p :: l)) =
      .ok (d.within p (.array [] c) (p :: l)) := by
  have hlast : Nested.get? (p ++ [0])
      (d.within p (.array [.invalid] c) ((p ++ [0]) :: p :: l)).value = some .invalid := by
    rw [get?_child h₀]
    rfl
  have hread := onBack_read get rfl hlast rfl
  have hpop : popBack (d.within p (.array [.invalid] c) ((p ++ [0]) :: p :: l)) =
      .ok () (d.within p (.array [.invalid] c) (p :: l)) := rfl
  have hset := Value.setSize_array [.invalid] c (n := 0) (by decide)
  rw [outcome, endArray, bind_of_ok hread, if_pos (by rfl), bind_of_ok hpop, onBack_within h₀]
  simp [hset]

/-- The call that ends an array with elements. -/
theorem outcome_endArray {es : List Value} (hne : es ≠ []) (hes : ∀ e ∈ es, e ≠ Value.invalid)
    (c : ℕ) :
    outcome (endArray es.length)
        (d.within p (.array es c) ((p ++ [es.length - 1]) :: p :: l)) =
      (EventTree.finish d.convertExtensions es c).map fun w => d.within p w (p :: l) := by
  obtain ⟨v, hv⟩ : ∃ v, es[es.length - 1]? = some v :=
    ⟨_, List.getElem?_eq_getElem (Nat.sub_lt (List.length_pos_iff.mpr hne) one_pos)⟩
  have hlast : Nested.get? (p ++ [es.length - 1])
      (d.within p (.array es c) ((p ++ [es.length - 1]) :: p :: l)).value = some v := by
    rw [get?_child h₀]
    exact hv
  have hread := onBack_read get rfl hlast rfl
  have hpop : popBack (d.within p (.array es c) ((p ++ [es.length - 1]) :: p :: l)) =
      .ok () (d.within p (.array es c) (p :: l)) := rfl
  have hvalid : v.isInvalid = false := by simpa using hes v (List.mem_of_getElem? hv)
  rw [EventTree.finish, ← outcome_onBack h₀, outcome, outcome, endArray, bind_of_ok hread]
  simp only [hvalid, Bool.false_eq_true, if_false, bind_apply, hpop, get_apply,
    convertExtensions_within]

end

end Document

/-! ## Every part of what is built is valid -/

namespace EventTree

omit [Platform] in
/-- What is related to a list comes from its members. -/
theorem exists_of_forall₂ {α β : Type} {R : α → β → Prop} {as : List α} {bs : List β}
    (h : List.Forall₂ R as bs) {b : β} (hb : b ∈ bs) : ∃ a ∈ as, R a b := by
  induction h with
  | nil => cases hb
  | @cons a b' as bs hab _ ih =>
    rcases List.mem_cons.mp hb with rfl | hb
    · exact ⟨a, List.mem_cons_self, hab⟩
    · obtain ⟨a', ha', hab'⟩ := ih hb
      exact ⟨a', List.mem_cons_of_mem _ ha', hab'⟩

/-- A scalar call assigns a valid value. -/
theorem fullyValid_of_scalar {s : Scalar} {v : Value} (h : s.build = .ok v) : v.FullyValid := by
  cases s with
  | string str =>
    rw [Scalar.build] at h
    split_ifs at h
    cases h
    exact Value.noConfusion
  | _ =>
    cases h
    exact Value.noConfusion

/-- The elements that are built are those so far, and one for every tree. -/
theorem buildElements_eq_ok {convert : Bool} {ts : List EventTree} {es es' : List Value} {c c' : ℕ}
    (h : buildElements convert ts es c = .ok (es', c')) :
    ∃ vs, es' = es ++ vs ∧ List.Forall₂ (fun t v => build convert t = .ok v) ts vs := by
  induction ts generalizing es c with
  | nil =>
    cases h
    exact ⟨[], by simp, .nil⟩
  | cons t ts ih =>
    rw [buildElements] at h
    cases hcap : pushCapacity es.length c with
    | error f => rw [hcap] at h; cases h
    | ok c₁ =>
      cases hv : t.build convert with
      | error f => rw [hcap, hv] at h; cases h
      | ok v =>
        rw [hcap, hv] at h
        obtain ⟨vs, rfl, hvs⟩ := ih h
        exact ⟨v :: vs, by simp, .cons hv hvs⟩

/-- The members that are built are those so far, and one for every key and tree. -/
theorem buildMembers_eq_ok {convert : Bool} {rest : List (Option StrArg × EventTree)}
    {ms ms' : List (Bytes × Value)} {c c' : ℕ}
    (h : buildMembers convert rest ms c = .ok (ms', c')) :
    ∃ vs, ms' = ms ++ vs ∧
      List.Forall₂ (fun m v => m.1.map StrArg.bytes = some v.1 ∧ build convert m.2 = .ok v.2)
        rest vs := by
  induction rest generalizing ms c with
  | nil =>
    cases h
    exact ⟨[], by simp, .nil⟩
  | cons m rest ih =>
    obtain ⟨k, t⟩ := m
    cases k with
    | none => cases h
    | some k =>
      rw [buildMembers] at h
      cases hcap : memberCapacity ms.length c with
      | error f => rw [hcap] at h; cases h
      | ok c₁ =>
        cases hk : k.terminated with
        | false => rw [hcap, hk] at h; cases h
        | true =>
          cases hv : t.build convert with
          | error f => rw [hcap, hk, hv] at h; cases h
          | ok v =>
            rw [hcap, hk, hv] at h
            obtain ⟨vs, rfl, hvs⟩ := ih h
            exact ⟨(k.bytes, v) :: vs, by simp, .cons ⟨rfl, hv⟩ hvs⟩

/-- The outcome of the elements of an array that is not empty. -/
def buildArray (convert : Bool) (t : EventTree) (ts : List EventTree) :
    Except Fault (List Value × ℕ) := do
  let v ← build convert t
  buildElements convert ts [v] Value.defaultArrayCapacity

theorem build_array_cons (convert : Bool) (count : Option ℕ) (t : EventTree)
    (ts : List EventTree) :
    build convert (.array count (t :: ts)) =
      (buildArray convert t ts).bind fun r => finish convert r.1 r.2 := by
  rw [build, buildArray]
  cases build convert t <;> rfl

/-- The elements of an array are one for every tree. -/
theorem buildArray_eq_ok {convert : Bool} {t : EventTree} {ts : List EventTree} {es : List Value}
    {c : ℕ} (h : buildArray convert t ts = .ok (es, c)) :
    List.Forall₂ (fun t v => build convert t = .ok v) (t :: ts) es := by
  rw [buildArray] at h
  cases hv : build convert t with
  | error f => rw [hv] at h; cases h
  | ok v =>
    rw [hv] at h
    obtain ⟨vs, rfl, hvs⟩ := buildElements_eq_ok h
    exact .cons hv hvs

/-- No part of what a tree stands for is invalid. -/
theorem fullyValid_of_build {convert : Bool} {t : EventTree} {v : Value}
    (h : t.build convert = .ok v) : v.FullyValid := by
  induction t using EventTree.induction generalizing v with
  | leaf s => exact fullyValid_of_scalar h
  | array c ts ih =>
    match ts, ih, h with
    | [], _, h =>
      cases h
      simp [Value.FullyValid]
    | t :: ts, ih, h =>
      rw [build_array_cons] at h
      cases hes : buildArray convert t ts with
      | error f => rw [hes] at h; cases h
      | ok r =>
        obtain ⟨es, c'⟩ := r
        rw [hes] at h
        have hall : ∀ e ∈ es, e.FullyValid := by
          intro e he
          obtain ⟨t', ht', hbuild⟩ := exists_of_forall₂ (buildArray_eq_ok hes) he
          exact ih t' ht' hbuild
        rcases finish_eq_ok h with rfl | ⟨dt, rfl⟩ | ⟨s, rfl⟩
        · exact Value.all_array.mpr ⟨Value.noConfusion, hall⟩
        · exact Value.noConfusion
        · exact Value.noConfusion
  | map c ms ih =>
    rw [build] at h
    cases hms : buildMembers convert ms [] 0 with
    | error f => rw [hms] at h; cases h
    | ok r =>
      obtain ⟨vs, c'⟩ := r
      rw [hms] at h
      cases h
      obtain ⟨_, rfl, hvs⟩ := buildMembers_eq_ok hms
      refine Value.all_map.mpr ⟨Value.noConfusion, fun m hm => ?_⟩
      obtain ⟨m', hm', -, hbuild⟩ := exists_of_forall₂ hvs hm
      exact ih m' hm' hbuild

/-- The elements that are built are valid, and there is at least one. -/
theorem buildArray_valid {convert : Bool} {t : EventTree} {ts : List EventTree}
    {r : List Value × ℕ} (h : buildArray convert t ts = .ok r) :
    r.1 ≠ [] ∧ ∀ e ∈ r.1, e ≠ Value.invalid := by
  have hbuilt := buildArray_eq_ok h
  constructor
  · intro hnil
    rw [hnil] at hbuilt
    cases hbuilt
  · intro e he
    obtain ⟨t', -, hbuild⟩ := exists_of_forall₂ hbuilt he
    exact (fullyValid_of_build hbuild).root

end EventTree

/-! ## What the calls of a tree do -/

namespace Document

variable {d : Document} {p : Path} {l : List Path} {v₀ : Value}

/-- The calls of a tree are refused where a value already stands. -/
theorem deliver_events_of_ne_invalid (t : EventTree) (hs : d.stack = p :: l)
    (hv : Nested.get? p d.value = some v₀) (hne : v₀ ≠ .invalid) :
    deliver t.events d = .error (notInvalid v₀.getType) := by
  have hfalse : v₀.isInvalid = false := by simpa using hne
  have hrefuse : ∀ op : Exec Value Unit,
      outcome (onBack (do assertInvalid; op)) d = .error (notInvalid v₀.getType) := by
    intro op
    rw [eq_within hs hv, outcome_onBack hv]
    simp [outcome, assertInvalid, hfalse, notInvalid, Except.map]
  have hscalar : ∀ s, outcome (scalar s) d = .error (notInvalid v₀.getType) := by
    intro s
    cases s <;> exact hrefuse _
  have harray : outcome startArray d = .error (notInvalid v₀.getType) := by
    rw [startArray, outcome, bind_apply]
    have h := hrefuse (do Value.setArray; Value.pushBack .invalid)
    cases hrun : onBack (do assertInvalid; Value.setArray; Value.pushBack .invalid) d with
    | ok _ d' =>
      rw [outcome_of_ok hrun] at h
      cases h
    | error f d' =>
      rw [outcome_of_error hrun] at h
      exact h
  cases t with
  | leaf s => rw [EventTree.events, deliver_singleton]; exact hscalar s
  | array c ts =>
    rw [EventTree.events, deliver_cons, show handle (Event.startArray c) = startArray from rfl,
      harray]
    rfl
  | map c ms =>
    rw [EventTree.events, deliver_cons, show handle (Event.startMap c) = startMap from rfl,
      startMap, hrefuse]
    rfl

/-- The calls of a tree fill every position that is not yet assigned with what it stands for. -/
def Fills (t : EventTree) : Prop :=
  ∀ (d : Document) (p : Path) (l : List Path), d.stack = p :: l →
    Nested.get? p d.value = some .invalid →
    deliver t.events d =
      (t.build d.convertExtensions).map fun v => d.within p v (p :: l)

section

variable (h₀ : Nested.get? p d.value = some v₀)

include h₀

/-- A tree fills the last element of an array. -/
theorem deliver_element {t : EventTree} (ht : Fills t) (es : List Value) (c : ℕ) :
    deliver t.events
        (d.within p (.array (es ++ [.invalid]) c) ((p ++ [es.length]) :: p :: l)) =
      (t.build d.convertExtensions).map fun v =>
        d.within p (.array (es ++ [v]) c) ((p ++ [es.length]) :: p :: l) := by
  have hlast : (Value.array (es ++ [.invalid]) c).child? es.length = some .invalid := by
    simp [Value.child?]
  rw [ht _ _ _ rfl (by rw [get?_child h₀, hlast])]
  congr 1
  funext v
  rw [within_child h₀ hlast, Value.setChild, List.set_append_right _ _ (le_refl _), Nat.sub_self]
  rfl

/-- A tree fills the value of the last member of a map. -/
theorem deliver_member {t : EventTree} (ht : Fills t) (ms : List (Bytes × Value)) (k : Bytes)
    (c : ℕ) :
    deliver t.events
        (d.within p (.map (ms ++ [(k, .invalid)]) c) ((p ++ [ms.length]) :: p :: l)) =
      (t.build d.convertExtensions).map fun v =>
        d.within p (.map (ms ++ [(k, v)]) c) ((p ++ [ms.length]) :: p :: l) := by
  have hlast : (Value.map (ms ++ [(k, .invalid)]) c).child? ms.length = some .invalid := by
    simp [Value.child?]
  rw [ht _ _ _ rfl (by rw [get?_child h₀, hlast])]
  congr 1
  funext v
  rw [within_child h₀ hlast, Value.setChild_append]

/-- The calls for the elements after those that are built. -/
theorem deliver_moreElementEvents {ts : List EventTree} (hts : ∀ t ∈ ts, Fills t)
    (es : List Value) (hne : es ≠ []) (hes : ∀ e ∈ es, e ≠ Value.invalid) (c : ℕ) :
    deliver (EventTree.moreElementEvents ts)
        (d.within p (.array es c) ((p ++ [es.length - 1]) :: p :: l)) =
      (EventTree.buildElements d.convertExtensions ts es c).map fun r =>
        d.within p (.array r.1 r.2) ((p ++ [r.1.length - 1]) :: p :: l) := by
  induction ts generalizing es c with
  | nil => rfl
  | cons t ts ih =>
    obtain ⟨es, v, rfl⟩ := List.eq_nil_or_concat' es |>.resolve_left hne
    have hv : v ≠ .invalid := hes v (by simp)
    have hlen : (es ++ [v]).length = es.length + 1 := by simp
    rw [EventTree.moreElementEvents, deliver_cons, EventTree.buildElements, hlen,
      Nat.add_sub_cancel,
      show handle Event.arraySeparator = arraySeparator from rfl, outcome_arraySeparator h₀ hv]
    cases pushCapacity (es.length + 1) c with
    | error f => rfl
    | ok c' =>
      have helement := deliver_element h₀ (l := l) (hts t List.mem_cons_self) (es ++ [v]) c'
      rw [hlen] at helement
      simp only [Except.map, Except.bind, bind, deliver_append, helement]
      cases hb : t.build d.convertExtensions with
      | error f => rfl
      | ok w =>
        have hw : w ≠ .invalid := (EventTree.fullyValid_of_build hb).root
        have hmore := ih (fun t' ht' => hts t' (List.mem_cons_of_mem _ ht'))
          (es ++ [v] ++ [w]) (by simp) (by
            intro e he
            rcases List.mem_append.mp he with he | he
            · exact hes e he
            · exact List.mem_singleton.mp he ▸ hw) c'
        have hlen' : (es ++ [v] ++ [w]).length - 1 = es.length + 1 := by simp
        rw [hlen'] at hmore
        exact hmore

/-- The calls for the elements of an array. -/
theorem deliver_elementEvents {t : EventTree} {ts : List EventTree}
    (hts : ∀ t' ∈ t :: ts, Fills t') :
    deliver (EventTree.elementEvents (t :: ts))
        (d.within p (.array [.invalid] Value.defaultArrayCapacity) ((p ++ [0]) :: p :: l)) =
      (EventTree.buildArray d.convertExtensions t ts).map fun r =>
        d.within p (.array r.1 r.2) ((p ++ [r.1.length - 1]) :: p :: l) := by
  have helement := deliver_element h₀ (l := l) (hts t List.mem_cons_self) []
    Value.defaultArrayCapacity
  rw [List.nil_append, List.length_nil] at helement
  rw [EventTree.elementEvents, deliver_append, helement, EventTree.buildArray]
  cases hb : t.build d.convertExtensions with
  | error f => rfl
  | ok v =>
    have hvalid : v ≠ .invalid := (EventTree.fullyValid_of_build hb).root
    have hmore := deliver_moreElementEvents h₀ (l := l)
      (fun t' ht' => hts t' (List.mem_cons_of_mem _ ht')) [v] (by simp)
      (fun e he => List.mem_singleton.mp he ▸ hvalid) Value.defaultArrayCapacity
    rw [List.length_singleton, Nat.sub_self] at hmore
    exact hmore

/-- The call that ends an array whose elements are built. -/
theorem deliver_endArray {t : EventTree} {ts : List EventTree} {es : List Value} {c : ℕ}
    (h : EventTree.buildArray d.convertExtensions t ts = .ok (es, c)) :
    deliver [.endArray (t :: ts).length]
        (d.within p (.array es c) ((p ++ [es.length - 1]) :: p :: l)) =
      (EventTree.finish d.convertExtensions es c).map fun w => d.within p w (p :: l) := by
  obtain ⟨hne, hall⟩ := EventTree.buildArray_valid h
  rw [(EventTree.buildArray_eq_ok h).length_eq, deliver_singleton]
  exact outcome_endArray h₀ hne hall c

/-- The outcome of the calls for one more member. -/
def memberOutcome (d : Document) (p : Path) (l : List Path) (ms : List (Bytes × Value)) (c : ℕ)
    (k : Option StrArg) (t : EventTree) : Except Fault Document :=
  match k with
  | none => .error (notInvalid 4)
  | some k => do
    let c' ← memberCapacity ms.length c
    if k.terminated then
      let v ← t.build d.convertExtensions
      return d.within p (.map (ms ++ [(k.bytes, v)]) c') ((p ++ [ms.length]) :: p :: l)
    else .error notTerminated

/-- The calls for a key and its value, on a map. -/
theorem deliver_keyEvents_events {t : EventTree} (ht : Fills t) (k : Option StrArg)
    (ms : List (Bytes × Value)) (c : ℕ) :
    deliver (EventTree.keyEvents k ++ t.events) (d.within p (.map ms c) (p :: l)) =
      memberOutcome d p l ms c k t := by
  cases k with
  | none =>
    rw [EventTree.keyEvents, List.nil_append,
      deliver_events_of_ne_invalid (p := p) (l := l) t rfl
        (Nested.get?_put h₀ (.map ms c)) Value.noConfusion]
    rfl
  | some k =>
    rw [EventTree.keyEvents, List.singleton_append, deliver_cons,
      show handle (Event.key k) = key k from rfl, outcome_key h₀, memberOutcome]
    cases memberCapacity ms.length c with
    | error f => rfl
    | ok c' =>
      cases hk : k.terminated with
      | false => rfl
      | true =>
        simp only [Except.bind, if_true, deliver_member h₀ ht]
        cases t.build d.convertExtensions <;> rfl

/-- The calls for the members after those that are built. -/
theorem deliver_moreMemberEvents {rest : List (Option StrArg × EventTree)}
    (hrest : ∀ m ∈ rest, Fills m.2) (ms : List (Bytes × Value)) (hne : ms ≠ []) (c : ℕ) :
    deliver (EventTree.moreMemberEvents rest)
        (d.within p (.map ms c) ((p ++ [ms.length - 1]) :: p :: l)) =
      (EventTree.buildMembers d.convertExtensions rest ms c).map fun r =>
        d.within p (.map r.1 r.2) ((p ++ [r.1.length - 1]) :: p :: l) := by
  induction rest generalizing ms c with
  | nil => rfl
  | cons m rest ih =>
    obtain ⟨k, t⟩ := m
    have hstep := deliver_keyEvents_events h₀ (l := l) (hrest (k, t) List.mem_cons_self) k ms c
    rw [EventTree.moreMemberEvents, deliver_cons,
      show handle Event.mapSeparator = mapSeparator from rfl, outcome_mapSeparator h₀,
      ← List.append_assoc]
    simp only [Except.bind, deliver_append _ (EventTree.moreMemberEvents rest), hstep]
    cases k with
    | none => rfl
    | some k =>
      rw [memberOutcome, EventTree.buildMembers]
      cases memberCapacity ms.length c with
      | error f => rfl
      | ok c' =>
        cases hk : k.terminated with
        | false => rfl
        | true =>
          cases hv : t.build d.convertExtensions with
          | error f => rfl
          | ok v =>
            have hmore := ih (fun m' hm' => hrest m' (List.mem_cons_of_mem _ hm'))
              (ms ++ [(k.bytes, v)]) (by simp) c'
            rw [List.length_append, List.length_singleton, Nat.add_sub_cancel] at hmore
            exact hmore

/-- The calls for the members of a map that is not empty. -/
theorem deliver_memberEvents {m : Option StrArg × EventTree}
    {rest : List (Option StrArg × EventTree)} (hms : ∀ m' ∈ m :: rest, Fills m'.2) (c : ℕ) :
    deliver (EventTree.memberEvents (m :: rest)) (d.within p (.map [] c) (p :: l)) =
      (EventTree.buildMembers d.convertExtensions (m :: rest) [] c).map fun r =>
        d.within p (.map r.1 r.2) ((p ++ [r.1.length - 1]) :: p :: l) := by
  obtain ⟨k, t⟩ := m
  have hstep := deliver_keyEvents_events h₀ (l := l) (hms (k, t) List.mem_cons_self) k [] c
  rw [EventTree.memberEvents, ← List.append_assoc, deliver_append, hstep]
  cases k with
  | none => rfl
  | some k =>
    rw [memberOutcome, EventTree.buildMembers]
    cases memberCapacity ([] : List (Bytes × Value)).length c with
    | error f => rfl
    | ok c' =>
      cases hk : k.terminated with
      | false => rfl
      | true =>
        cases hv : t.build d.convertExtensions with
        | error f => rfl
        | ok v =>
          exact deliver_moreMemberEvents h₀ (l := l)
            (fun m' hm' => hms m' (List.mem_cons_of_mem _ hm')) [(k.bytes, v)] (by simp) c'

/-- The call that ends a map whose members are built. -/
theorem deliver_endMap {m : Option StrArg × EventTree} {rest : List (Option StrArg × EventTree)}
    {vs : List (Bytes × Value)} {c c' : ℕ}
    (h : EventTree.buildMembers d.convertExtensions (m :: rest) [] c = .ok (vs, c')) :
    deliver [.endMap (m :: rest).length]
        (d.within p (.map vs c') ((p ++ [vs.length - 1]) :: p :: l)) =
      .ok (d.within p (.map vs c') (p :: l)) := by
  obtain ⟨_, rfl, hbuilt⟩ := EventTree.buildMembers_eq_ok h
  rw [hbuilt.length_eq, deliver_singleton]
  refine outcome_endMap h₀ ?_ c' _
  rintro rfl
  cases hbuilt

end

/-- The calls of every tree fill a position that is not yet assigned with what the tree stands for,
or are refused with the same fault; nothing else changes. -/
theorem fills (t : EventTree) : Fills t := by
  induction t using EventTree.induction with
  | leaf s =>
    intro d p l hs hv
    rw [EventTree.events, deliver_singleton]
    conv_lhs => rw [eq_within hs hv]
    exact outcome_scalar hv s
  | array c ts ih =>
    intro d p l hs hv
    rw [EventTree.events, deliver_cons, show handle (Event.startArray c) = startArray from rfl]
    conv_lhs => rw [eq_within hs hv, outcome_startArray hv]
    cases ts with
    | nil =>
      rw [EventTree.elementEvents, List.nil_append, Except.bind, deliver_singleton]
      exact outcome_endArray_zero hv _
    | cons t ts =>
      rw [EventTree.build_array_cons, Except.bind, deliver_append, deliver_elementEvents hv ih]
      cases hr : EventTree.buildArray d.convertExtensions t ts with
      | error f => rfl
      | ok r => exact deliver_endArray hv hr
  | map c ms ih =>
    intro d p l hs hv
    rw [EventTree.events, deliver_cons, show handle (Event.startMap c) = startMap from rfl]
    conv_lhs => rw [eq_within hs hv, outcome_startMap hv]
    rw [Except.bind, EventTree.build]
    cases ms with
    | nil =>
      rw [EventTree.memberEvents, List.nil_append, deliver_singleton]
      exact outcome_endMap_zero hv 0
    | cons m rest =>
      rw [deliver_append, deliver_memberEvents hv ih]
      cases hr : EventTree.buildMembers d.convertExtensions (m :: rest) [] 0 with
      | error f => rfl
      | ok r => exact deliver_endMap hv hr

/-- A tree delivered to a document that has just started. -/
theorem deliver_startDocument (t : EventTree) (d : Document) :
    deliver t.events (startDocument d) =
      (t.build d.convertExtensions).map fun v => { d with value := v, stack := [[]] } :=
  fills t _ [] [] rfl rfl

end Document

end AnyRpc
