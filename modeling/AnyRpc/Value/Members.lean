import AnyRpc.Value.Container

/-! # Members of maps

What the lookups of a map do, by whether the map has the member. -/

namespace AnyRpc.Value

open Library

/-- `MemberEnd`, as far as it may throw. -/
def assertMap : Exec Value Unit := do
  let v ← get
  anyrpcAssert v.isMap ErrorCode.valueAccess (ascii "Not map, type=" ++ decimal v.getType)

/-- `HasMember`. -/
def hasMember (str : Bytes) : Exec Value Bool := do
  let it ← findMember str
  assertMap
  return it.isSome

/-- An operation on the child that a reference leads to. -/
def onChild {α : Type} (ref : Exec Value ℕ) (op : Exec Value α) : Exec Value α := do
  let i ← ref
  let v ← get
  match v.child? i with
  | none => throw .undefined
  | some x =>
    match op x with
    | .ok a y => do
      set (v.setChild i y)
      return a
    | .error f y => do
      set (v.setChild i y)
      throw f

/-- An operation on a child that returns. -/
theorem onChild_of_ok {α : Type} {ref : Exec Value ℕ} {op : Exec Value α} {v w x y : Value} {i : ℕ}
    {a : α} (href : ref v = .ok i w) (hchild : w.child? i = some x) (hop : op x = .ok a y) :
    onChild ref op v = .ok a (w.setChild i y) := by
  rw [onChild, bind_of_ok href, bind_of_ok (get_apply w)]
  simp only [hchild, hop]
  rfl

variable {str : Bytes} {ms : List (Bytes × Value)} {c : ℕ}

/-! ## Indices -/

theorem memberIndex_eq_none : memberIndex str ms = none ↔ ∀ m ∈ ms, m.1 ≠ str := by
  simp [memberIndex, List.findIdx?_eq_none_iff]

/-- The index is that of a member with the key. -/
theorem getElem?_memberIndex {i : ℕ} (h : memberIndex str ms = some i) :
    ∃ v, ms[i]? = some (str, v) := by
  obtain ⟨hi, hkey, -⟩ := List.findIdx?_eq_some_iff_getElem.mp h
  exact ⟨ms[i].2, by rw [List.getElem?_eq_getElem hi, ← of_decide_eq_true hkey]⟩

/-- A member that is added behind the others is found where it is. -/
theorem memberIndex_append (h : ∀ m ∈ ms, m.1 ≠ str) (v : Value) (ns : List (Bytes × Value)) :
    memberIndex str (ms ++ (str, v) :: ns) = some ms.length := by
  have hnone : ms.findIdx? (fun m => decide (m.1 = str)) = none := memberIndex_eq_none.mpr h
  rw [memberIndex, List.findIdx?_append, hnone]
  simp [List.findIdx?_cons]

/-! ## Growth -/

/-- A full map below the limit grows, and stays within the limit. -/
theorem lt_grownMapCapacity {size : ℕ} (hc : c ≤ maxMapCapacity) (hfull : c ≤ size)
    (hsize : size ≤ c) (h : size < maxMapCapacity) :
    size < grownMapCapacity c ∧ grownMapCapacity c ≤ maxMapCapacity := by
  simp only [grownMapCapacity, defaultMapCapacity, maxMapCapacity] at *
  split_ifs <;> omega

/-! ## Lookups -/

theorem findMember_map (h : (0 : UInt8) ∉ str) :
    findMember str (map ms c) = .ok (memberIndex str ms) (map ms c) := by
  rw [findMember, bind_of_ok (get_apply _), cString_of_notMem h]
  rfl

theorem hasMember_map (h : (0 : UInt8) ∉ str) :
    hasMember str (map ms c) = .ok (memberIndex str ms).isSome (map ms c) := by
  rw [hasMember, bind_of_ok (findMember_map h)]
  rfl

/-- A lookup in a map searches it, and adds the member where the search fails. -/
theorem member_map (h : (0 : UInt8) ∉ str) :
    member str (map ms c) = (match memberIndex str ms with
      | some i => pure i
      | none => addMember { bytes := str } : Exec Value ℕ) (map ms c) := by
  have hvalid : (map ms c).isInvalid = false := rfl
  have hfound : ∀ f : Option ℕ → Exec Value ℕ,
      ((do f (← findMember str)) : Exec Value ℕ) (map ms c) = f (memberIndex str ms) (map ms c) :=
    fun f => bind_of_ok (findMember_map h)
  rw [member, bind_of_ok (get_apply _), hvalid, if_neg Bool.false_ne_true, cString_of_notMem h]
  exact hfound _

/-- A member that exists is found. -/
theorem member_of_some {i : ℕ} (h : (0 : UInt8) ∉ str) (hi : memberIndex str ms = some i) :
    member str (map ms c) = .ok i (map ms c) := by
  rw [member_map h, hi]
  rfl

/-- There is room for one more member. -/
theorem addMemberCheckCapacity_of_lt (hc : ms.length < c) :
    addMemberCheckCapacity (map ms c) = .ok () (map ms c) := by
  have hroom : ¬ c ≤ ms.length := Nat.not_le.mpr hc
  simp [addMemberCheckCapacity, isInvalid, isMap, hroom, hc]

/-- A member that does not exist is added, where the map has room for it. -/
theorem member_of_none (h : (0 : UInt8) ∉ str) (hi : memberIndex str ms = none)
    (hc : ms.length < c) :
    member str (map ms c) = .ok ms.length (map (ms ++ [(str, invalid)]) c) := by
  rw [member_map h, hi]
  show addMember { bytes := str } (map ms c) = _
  rw [addMember, bind_of_ok (addMemberCheckCapacity_of_lt hc)]
  rfl

/-- A value that is not yet assigned becomes a map with the member. -/
theorem member_invalid (h : (0 : UInt8) ∉ str) :
    member str invalid = .ok 0 (map [(str, invalid)] defaultMapCapacity) := by
  rw [member, bind_of_ok (get_apply _), cString_of_notMem h]
  rfl

/-! ## The values of members -/

/-- The value of the first member with a key. -/
def field? (key : Bytes) : Value → Option Value
  | map ms c => (memberIndex key ms).bind (map ms c).child?
  | _ => none

/-- A member that is found has a value. -/
theorem field?_of_some {i : ℕ} (hi : memberIndex str ms = some i) :
    ∃ v, (map ms c).child? i = some v ∧ field? str (map ms c) = some v := by
  obtain ⟨v, hv⟩ := getElem?_memberIndex hi
  have hchild : (map ms c).child? i = some v := by rw [child?, hv, Option.map_some]
  exact ⟨v, hchild, by rw [field?, hi, Option.bind_some, hchild]⟩

theorem field?_of_none (hi : memberIndex str ms = none) : field? str (map ms c) = none := by
  rw [field?, hi, Option.bind_none]

theorem hasMember_field? (h : (0 : UInt8) ∉ str) :
    hasMember str (map ms c) = .ok (field? str (map ms c)).isSome (map ms c) := by
  rw [hasMember_map h]
  cases hi : memberIndex str ms with
  | none => rw [field?_of_none hi, Option.isSome_none, Option.isSome_none]
  | some i =>
    obtain ⟨v, -, hv⟩ := field?_of_some (c := c) hi
    rw [hv, Option.isSome_some, Option.isSome_some]

/-- The reference to a member that exists leads to its value. -/
theorem member_of_field? {v x : Value} (h : (0 : UInt8) ∉ str) (hx : v.field? str = some x) :
    ∃ i, member str v = .ok i v ∧ v.child? i = some x := by
  cases v with
  | map ms c =>
    cases hi : memberIndex str ms with
    | none =>
      rw [field?_of_none hi] at hx
      cases hx
    | some i =>
      obtain ⟨y, hchild, hy⟩ := field?_of_some (c := c) hi
      cases hx.symm.trans hy
      exact ⟨i, member_of_some h hi, hchild⟩
  | _ => cases hx

/-- A member that is added behind the others is not found where another key is looked for. -/
theorem field?_append {key : Bytes} (h : str ≠ key) (v : Value) (c c' : ℕ) :
    field? key (map (ms ++ [(str, v)]) c') = field? key (map ms c) := by
  have hindex : memberIndex key (ms ++ [(str, v)]) = memberIndex key ms := by
    simp [memberIndex, List.findIdx?_append, h]
  rw [field?, hindex, field?]
  cases hi : memberIndex key ms with
  | none => rfl
  | some i =>
    obtain ⟨w, hw⟩ := getElem?_memberIndex hi
    have hlt : i < ms.length := (List.getElem?_eq_some_iff.mp hw).1
    rw [Option.bind_some, Option.bind_some, child?, child?, List.getElem?_append_left hlt]

/-- A member that is added, where that does not throw. -/
theorem addMember_ok {arg : StrArg} {i : ℕ} {w : Value}
    (h : addMember arg (map ms c) = .ok i w) :
    i = ms.length ∧ ∃ c', w = map (ms ++ [(arg.bytes, invalid)]) c' := by
  obtain ⟨_, v₁, hroom, hrest⟩ := bind_eq_ok.mp h
  obtain ⟨c', rfl⟩ : ∃ c', v₁ = map ms c' := by
    have hrun : addMemberCheckCapacity (map ms c) =
        (anyrpcAssert (ms.length < if c ≤ ms.length then grownMapCapacity c else c)
          ErrorCode.memoryAllocation (ascii "Too many members, size=" ++ decimal ms.length ++
            ascii ", capacity=" ++ decimal (if c ≤ ms.length then grownMapCapacity c else c)) :
          Exec Value Unit) (map ms (if c ≤ ms.length then grownMapCapacity c else c)) := rfl
    rw [hrun] at hroom
    by_cases hlt : ms.length < if c ≤ ms.length then grownMapCapacity c else c
    · simp only [hlt, decide_true, anyrpcAssert_true, pure_apply] at hroom
      cases hroom
      exact ⟨_, rfl⟩
    · simp only [hlt, decide_false, anyrpcAssert_false, anyrpcThrow_apply] at hroom
      cases hroom
  obtain ⟨_, v₂, hcheck, hadd⟩ := bind_eq_ok.mp hrest
  obtain rfl : v₂ = map ms c' := by
    rw [checkTerminated] at hcheck
    cases hterminated : arg.terminated with
    | false =>
      rw [hterminated] at hcheck
      cases hcheck
    | true =>
      rw [hterminated] at hcheck
      cases hcheck
      rfl
  cases hadd
  exact ⟨rfl, c', rfl⟩

/-- Where a lookup does not throw, it leads to the value of the member, which is not yet assigned if
the member is new. No other member changes. -/
theorem member_ok {v w : Value} {i : ℕ} (h : (0 : UInt8) ∉ str) (hrun : member str v = .ok i w) :
    w.child? i = some ((v.field? str).getD invalid) ∧
      (∀ j x, v.child? j = some x → w.child? j = some x) ∧
      ∀ key, str ≠ key → w.field? key = v.field? key := by
  cases v with
  | map ms c =>
    rw [member_map h] at hrun
    cases hi : memberIndex str ms with
    | some j =>
      rw [hi] at hrun
      cases hrun
      obtain ⟨x, hchild, hx⟩ := field?_of_some (c := c) hi
      exact ⟨by rw [hchild, hx, Option.getD_some], fun _ _ h => h, fun _ _ => rfl⟩
    | none =>
      rw [hi] at hrun
      obtain ⟨rfl, c', rfl⟩ := addMember_ok hrun
      refine ⟨?_, fun j x hx => ?_, fun key hkey => field?_append hkey invalid c c'⟩
      · rw [field?_of_none hi, child?, List.getElem?_concat_length]
        rfl
      · have hlt : j < ms.length := by
          by_contra hge
          rw [child?, List.getElem?_eq_none (Nat.not_lt.mp hge)] at hx
          cases hx
        rw [child?] at hx ⊢
        rw [List.getElem?_append_left hlt, hx]
  | invalid =>
    rw [member_invalid h] at hrun
    cases hrun
    refine ⟨rfl, ?_, ?_⟩
    · intro j x hx
      cases hx
    · intro key hkey
      exact @field?_append str [] key hkey invalid 0 defaultMapCapacity
  | _ => cases hrun

/-! ## Assignments to members -/

/-- The first assignment to a member. -/
theorem assignMember_invalid (h : (0 : UInt8) ∉ str) (v : Value) :
    onChild (member str) (set v) invalid = .ok () (map [(str, v)] defaultMapCapacity) :=
  onChild_of_ok (member_invalid h) (x := invalid) rfl rfl

/-- Assignment to a member that does not exist yet. -/
theorem assignMember_of_none (h : (0 : UInt8) ∉ str) (hnone : ∀ m ∈ ms, m.1 ≠ str)
    (hc : ms.length < c) (v : Value) :
    onChild (member str) (set v) (map ms c) = .ok () (map (ms ++ [(str, v)]) c) := by
  have hchild : (map (ms ++ [(str, invalid)]) c).child? ms.length = some invalid := by
    rw [child?, List.getElem?_concat_length, Option.map_some]
  have hop : (set v : Exec Value Unit) invalid = .ok () v := rfl
  have hmember := member_of_none (c := c) h (memberIndex_eq_none.mpr hnone) hc
  rw [onChild_of_ok hmember hchild hop, setChild_append]

end AnyRpc.Value
