import AnyRpc.Document.Limits
import AnyRpc.Value.Members

/-! # The pointers of a document

The pointers on the stack of a `Document` lead from the root to the value under construction, each to
the last child of the one below it (`Chain`). Every call keeps this, and what a call makes larger is
a container that no pointer on the stack leads into (`Document.Advances`). -/

namespace AnyRpc

open Library Handler

/-! ## Containers at positions -/

namespace Value

/-- The number of elements of an array or of members of a map. -/
def childCount : Value → ℕ
  | array es _ => es.length
  | map ms _ => ms.length
  | _ => 0

/-- The size of the allocation of a container. -/
def capacity? : Value → Option ℕ
  | array _ c => some c
  | map _ c => some c
  | _ => none

/-- The size of the allocation of the container at a position. -/
def capacityAt (p : Path) (v : Value) : Option ℕ := (Nested.get? p v).bind capacity?

theorem childCount_setChild (v : Value) (i : ℕ) (x : Value) :
    (v.setChild i x).childCount = v.childCount := by
  cases v <;> simp [setChild, childCount]

theorem capacity?_setChild (v : Value) (i : ℕ) (x : Value) :
    (v.setChild i x).capacity? = v.capacity? := by
  cases v <;> rfl

/-- Other children stay. -/
theorem child?_setChild_of_ne {i j : ℕ} (h : i ≠ j) (v x : Value) :
    (v.setChild i x).child? j = v.child? j := by
  cases v <;> simp [setChild, child?, h]

/-- There is no container below a value without the child. -/
theorem capacityAt_cons (v : Value) (i : ℕ) (p : Path) :
    capacityAt (i :: p) v = (v.child? i).bind (capacityAt p) := by
  rw [capacityAt, Nested.get?, nested_child?]
  cases v.child? i <;> rfl

section

variable {a v x : Value} {p q : Path}

/-- Replacing a value leaves the containers that it is not part of, and those around it, as large as
they are. -/
theorem capacityAt_put (h : Nested.get? p a = some v) (hq : ¬ p <+: q) :
    capacityAt q (Nested.put p a x) = capacityAt q a := by
  induction p generalizing a q with
  | nil => exact absurd List.nil_prefix hq
  | cons i p ih =>
    rw [Nested.get?] at h
    obtain ⟨b, hb, h⟩ := Option.bind_eq_some_iff.mp h
    rw [Nested.put_cons hb]
    cases q with
    | nil => exact capacity?_setChild a i _
    | cons j q =>
      rw [capacityAt_cons, capacityAt_cons, nested_setChild]
      by_cases hij : i = j
      · subst hij
        have hb' : a.child? i = some b := hb
        rw [child?_setChild _ hb', hb', Option.bind_some, Option.bind_some]
        exact ih h fun hprefix => hq (List.cons_prefix_cons.mpr ⟨rfl, hprefix⟩)
      · rw [child?_setChild_of_ne hij]

/-- The containers below a value that was put. -/
theorem capacityAt_put_append (h : Nested.get? p a = some v) (r : Path) :
    capacityAt (p ++ r) (Nested.put p a x) = capacityAt r x := by
  rw [capacityAt, Nested.get?_append, Nested.get?_put h, Option.bind_some, capacityAt]

theorem capacityAt_append (h : Nested.get? p a = some v) (r : Path) :
    capacityAt (p ++ r) a = capacityAt r v := by
  rw [capacityAt, Nested.get?_append, h, Option.bind_some, capacityAt]

end

/-- The containers within a value are as large as they were within another one, where they are still
there. -/
def KeepsInner (v w : Value) : Prop :=
  ∀ i r c c', capacityAt (i :: r) v = some c → capacityAt (i :: r) w = some c' → c' = c

theorem keepsInner_of_child {v w : Value}
    (h : ∀ i x y, v.child? i = some x → w.child? i = some y → y = x) : KeepsInner v w := by
  intro i r c c' hv hw
  rw [capacityAt_cons] at hv hw
  obtain ⟨x, hx, hv⟩ := Option.bind_eq_some_iff.mp hv
  obtain ⟨y, hy, hw⟩ := Option.bind_eq_some_iff.mp hw
  rw [h i x y hx hy, hv] at hw
  exact (Option.some.inj hw).symm

theorem keepsInner_refl (v : Value) : KeepsInner v v :=
  keepsInner_of_child fun _ _ _ hx hy => Option.some.inj (hy.symm.trans hx)

/-- Nothing is within a value that is not yet assigned. -/
theorem keepsInner_invalid (w : Value) : KeepsInner invalid w :=
  keepsInner_of_child fun _ _ _ hx _ => by cases hx

/-- A container with one more child. -/
theorem keepsInner_array_append (es : List Value) (e : Value) (c c' : ℕ) :
    KeepsInner (array es c) (array (es ++ [e]) c') := by
  refine keepsInner_of_child fun i x y hx hy => ?_
  obtain ⟨hi, -⟩ := List.getElem?_eq_some_iff.mp hx
  have hy' : (es ++ [e])[i]? = some y := hy
  rw [List.getElem?_append_left hi] at hy'
  exact Option.some.inj (hy'.symm.trans hx)

theorem keepsInner_map_append (ms : List (Bytes × Value)) (m : Bytes × Value) (c c' : ℕ) :
    KeepsInner (map ms c) (map (ms ++ [m]) c') := by
  refine keepsInner_of_child fun i x y hx hy => ?_
  obtain ⟨m', hm', rfl⟩ := Option.map_eq_some_iff.mp hx
  obtain ⟨hi, -⟩ := List.getElem?_eq_some_iff.mp hm'
  have hy' : (ms ++ [m])[i]?.map Prod.snd = some y := hy
  rw [List.getElem?_append_left hi, hm'] at hy'
  exact (Option.some.inj hy').symm

end Value

/-! ## Chains of pointers -/

/-- The pointers lead from the root on, each to the last child of what the one below it leads to. -/
inductive Chain (root : Value) : List Path → Prop
  | root : Chain root [[]]
  | child {p : Path} {l : List Path} {v : Value} {i : ℕ} (h : Chain root (p :: l))
      (hv : Nested.get? p root = some v) (hlast : v.childCount = i + 1) :
      Chain root ((p ++ [i]) :: p :: l)

namespace Chain

variable {root v x : Value} {p q : Path} {l : List Path}

/-- Without its last pointer it is still a chain. -/
theorem tail (h : Chain root (q :: p :: l)) : Chain root (p :: l) := by
  cases h with
  | child h _ _ => exact h

/-- The last pointer leads to the last child of the one below it. -/
theorem last (h : Chain root (q :: p :: l)) (hv : Nested.get? p root = some v) :
    ∃ i, v.childCount = i + 1 ∧ q = p ++ [i] := by
  cases h with
  | child _ hv' hlast =>
    cases hv.symm.trans hv'
    exact ⟨_, hlast, rfl⟩

/-- All pointers lead to containers around the last one. -/
theorem prefix_of_mem (h : Chain root (p :: l)) (hq : q ∈ p :: l) : q <+: p := by
  generalize hl : p :: l = l' at h hq
  induction h generalizing p l with
  | root =>
    cases hl
    cases List.mem_singleton.mp hq
    exact List.prefix_rfl
  | child _ _ _ ih =>
    cases hl
    rcases List.mem_cons.mp hq with rfl | hq
    · exact List.prefix_rfl
    · exact (ih rfl hq).trans (List.prefix_append _ _)

/-- The chain stays when the value is replaced that its last pointer leads to. -/
theorem put (h : Chain root (p :: l)) (hv : Nested.get? p root = some v) :
    Chain (Nested.put p root x) (p :: l) := by
  generalize hl : p :: l = l' at h
  induction h generalizing p l v x with
  | root => exact .root
  | @child p' l' w i h hw hlast ih =>
    cases hl
    -- Below the last pointer a child of the container is replaced.
    have hchild : Nested.child? w i = some v := by
      rw [Nested.get?_append, hw, Option.bind_some, Nested.get?] at hv
      obtain ⟨b, hb, hv⟩ := Option.bind_eq_some_iff.mp hv
      cases hv
      exact hb
    have hput : Nested.put (p' ++ [i]) root x = Nested.put p' root (w.setChild i x) := by
      rw [Nested.put_append hw, Nested.put_cons hchild]
      rfl
    rw [hput]
    exact .child (ih hw rfl) (Nested.get?_put hw _) (by rw [Value.childCount_setChild, hlast])

end Chain

/-! ## Calls -/

namespace Document

/-- A call changes what one pointer leads to, which becomes or stays the last one, or gets a new last
child with a pointer to it. -/
def Advances (d d' : Document) : Prop :=
  ∃ p l v w, Nested.get? p d.value = some v ∧ d'.value = Nested.put p d.value w ∧
    v.KeepsInner w ∧ (d.stack = p :: l ∨ ∃ q, d.stack = q :: p :: l) ∧
    (d'.stack = p :: l ∨
      d'.stack = (p ++ [v.childCount]) :: p :: l ∧ w.childCount = v.childCount + 1)

section

variable {d d' : Document}

/-- What a call does keeps the chain of pointers. -/
theorem Advances.chain (h : d.Advances d') (hchain : Chain d.value d.stack) :
    Chain d'.value d'.stack := by
  obtain ⟨p, l, v, w, hv, hvalue, -, hstack, hstack'⟩ := h
  have hbelow : Chain d.value (p :: l) := by
    rcases hstack with hs | ⟨q, hs⟩
    · rwa [hs] at hchain
    · rw [hs] at hchain
      exact hchain.tail
  have hput : Chain d'.value (p :: l) := by
    rw [hvalue]
    exact hbelow.put hv
  rcases hstack' with hs | ⟨hs, hcount⟩
  · rwa [hs]
  · rw [hs]
    exact .child hput (by rw [hvalue, Nested.get?_put hv]) hcount

/-- No pointer that stays on the stack leads into a container whose allocation changes. -/
theorem Advances.outside (h : d.Advances d') (hchain : Chain d.value d.stack) {q : Path} {c c' : ℕ}
    (hc : Value.capacityAt q d.value = some c) (hc' : Value.capacityAt q d'.value = some c')
    (hne : c' ≠ c) {r : Path} (hr : r ∈ d.stack) (hr' : r ∈ d'.stack) (hqr : q <+: r) : r = q := by
  obtain ⟨p, l, v, w, hv, hvalue, hkeeps, hstack, hstack'⟩ := h
  -- Only the container at `p` changes its allocation.
  have hq : q = p := by
    by_cases hpq : p <+: q
    · obtain ⟨s, rfl⟩ := hpq
      cases s with
      | nil => rw [List.append_nil]
      | cons i s =>
        rw [Value.capacityAt_append hv] at hc
        rw [hvalue, Value.capacityAt_put_append hv] at hc'
        exact absurd (hkeeps i s c c' hc hc') hne
    · rw [hvalue, Value.capacityAt_put hv hpq, hc] at hc'
      exact absurd (Option.some.inj hc').symm hne
  subst hq
  have hbelow : Chain d.value (q :: l) := by
    rcases hstack with hs | ⟨q', hs⟩
    · rwa [hs] at hchain
    · rw [hs] at hchain
      exact hchain.tail
  have hmem : r ∈ q :: l := by
    rcases hstack' with hs' | ⟨hs', -⟩
    · rwa [hs'] at hr'
    · rw [hs'] at hr'
      rcases List.mem_cons.mp hr' with rfl | hr'
      · rcases hstack with hs | ⟨q', hs⟩
        · rwa [hs] at hr
        · -- The new pointer is not the one that was there: its index is one more.
          rw [hs] at hr hchain
          obtain ⟨i, hi, rfl⟩ := hchain.last hv
          rw [hi] at hr ⊢
          rcases List.mem_cons.mp hr with heq | hr
          · have hlast := List.append_cancel_left heq
            simp at hlast
          · exact hr
      · exact hr'
  exact (hbelow.prefix_of_mem hmem).eq_of_length_le hqr.length_le

theorem onBack_eq_ok {α : Type} {op : Exec Value α} {a : α} (h : onBack op d = .ok a d') :
    ∃ p l v w, d.stack = p :: l ∧ Nested.get? p d.value = some v ∧ op v = .ok a w ∧
      d' = { d with value := Nested.put p d.value w } := by
  rw [onBack] at h
  split at h
  · cases h
  · rename_i p l hs
    split at h
    · cases h
    · rename_i v hv
      split at h
      · rename_i b w hop
        cases h
        exact ⟨p, l, v, w, hs, hv, hop, rfl⟩
      · cases h

theorem popBack_eq_ok (h : popBack d = .ok () d') :
    ∃ q l, d.stack = q :: l ∧ d' = { d with stack := l } := by
  rw [popBack] at h
  split at h
  · cases h
  · rename_i q l hs
    cases h
    exact ⟨q, l, hs, rfl⟩

theorem pushChild_eq_ok {i : ℕ} (h : pushChild i d = .ok () d') :
    ∃ p l, d.stack = p :: l ∧ d' = { d with stack := (p ++ [i]) :: p :: l } := by
  rw [pushChild] at h
  split at h
  · cases h
  · rename_i p l hs
    cases h
    exact ⟨p, l, hs, rfl⟩

/-- An operation on what the last pointer leads to. -/
theorem advances_onBack {op : Exec Value Unit} (h : onBack op d = .ok () d')
    (hop : ∀ v w, op v = .ok () w → v.KeepsInner w) : d.Advances d' := by
  obtain ⟨p, l, v, w, hs, hv, hrun, rfl⟩ := onBack_eq_ok h
  exact ⟨p, l, v, w, hv, rfl, hop v w hrun, .inl hs, .inl hs⟩

/-- An operation on what the pointer below the last one leads to, which becomes the last one. -/
theorem advances_popBack {op : Exec Value Unit} (h : (do popBack; onBack op) d = .ok () d')
    (hop : ∀ v w, op v = .ok () w → v.KeepsInner w) : d.Advances d' := by
  obtain ⟨_, d₁, hpop, h⟩ := bind_eq_ok.mp h
  obtain ⟨q, l', hs, rfl⟩ := popBack_eq_ok hpop
  obtain ⟨p, l, v, w, hs', hv, hrun, rfl⟩ := onBack_eq_ok h
  have hl : l' = p :: l := hs'
  subst hl
  exact ⟨p, l, v, w, hv, rfl, hop v w hrun, .inr ⟨q, hs⟩, .inl rfl⟩

/-! ### Operations on values -/

theorem assertInvalid_eq_ok {v w : Value} (h : assertInvalid v = .ok () w) :
    v = .invalid ∧ w = .invalid := by
  rw [assertInvalid, bind_of_ok (get_apply v)] at h
  cases v <;> first | exact ⟨rfl, by cases h; rfl⟩ | cases h

/-- An operation that requires that its value is not yet assigned. -/
theorem eq_invalid_of_assertInvalid {op : Exec Value Unit} {v w : Value}
    (h : (do assertInvalid; op) v = .ok () w) : v = .invalid ∧ op .invalid = .ok () w := by
  obtain ⟨_, v₁, hassert, h⟩ := bind_eq_ok.mp h
  obtain ⟨rfl, rfl⟩ := assertInvalid_eq_ok hassert
  exact ⟨rfl, h⟩

theorem keepsInner_of_assertInvalid {op : Exec Value Unit} {v w : Value}
    (h : (do assertInvalid; op) v = .ok () w) : v.KeepsInner w := by
  obtain ⟨rfl, -⟩ := eq_invalid_of_assertInvalid h
  exact Value.keepsInner_invalid w

/-- The assertion that a value is a map only reads. -/
theorem assertMap_eq_ok {v w : Value} (h : assertMap v = .ok () w) : v.isMap = true ∧ w = v := by
  rw [assertMap, bind_of_ok (get_apply v)] at h
  cases hmap : v.isMap with
  | true =>
    rw [hmap] at h
    cases h
    exact ⟨rfl, rfl⟩
  | false =>
    rw [hmap] at h
    cases h

theorem addMemberCheckCapacity_eq_ok {ms : List (Bytes × Value)} {c : ℕ} {w : Value}
    (h : Value.addMemberCheckCapacity (.map ms c) = .ok () w) : ∃ c', w = .map ms c' := by
  by_cases hfull : c ≤ ms.length
  · by_cases hlt : ms.length < Value.grownMapCapacity c
    · simp [Value.addMemberCheckCapacity, Value.isInvalid, Value.isMap, hfull, hlt] at h
      exact ⟨_, h.symm⟩
    · simp [Value.addMemberCheckCapacity, Value.isInvalid, Value.isMap, hfull, hlt] at h
  · rw [Value.addMemberCheckCapacity_of_lt (Nat.not_le.mp hfull)] at h
    cases h
    exact ⟨c, rfl⟩

/-- The key of a map appends a member. -/
theorem addMember_eq_ok {str : StrArg} {ms : List (Bytes × Value)} {c i : ℕ} {w : Value}
    (h : Value.addMember str (.map ms c) = .ok i w) :
    i = ms.length ∧ ∃ c', w = .map (ms ++ [(str.bytes, .invalid)]) c' := by
  obtain ⟨_, v₁, hcheck, h⟩ := bind_eq_ok.mp h
  obtain ⟨c', rfl⟩ := addMemberCheckCapacity_eq_ok hcheck
  obtain ⟨_, v₂, hterminated, h⟩ := bind_eq_ok.mp h
  rw [Value.checkTerminated] at hterminated
  cases hstr : str.terminated with
  | true =>
    rw [hstr] at hterminated
    cases hterminated
    cases h
    exact ⟨rfl, c', rfl⟩
  | false =>
    rw [hstr] at hterminated
    cases hterminated

/-- The count of members only reads. -/
theorem memberCount_eq_ok {v w : Value} {n : ℕ} (h : memberCount v = .ok n w) : w = v := by
  obtain ⟨_, v₁, hassert, hcount⟩ := bind_eq_ok.mp h
  obtain ⟨-, rfl⟩ := assertMap_eq_ok hassert
  cases v₁ <;> (cases hcount; rfl)

/-- An assertion on what was read only reads. -/
theorem anyrpcAssert_eq_ok {b : Bool} {code : BitVec 32} {message : Bytes} {v w : Value}
    (h : anyrpcAssert b code message v = .ok () w) : b = true ∧ w = v := by
  cases b with
  | true =>
    cases h
    exact ⟨rfl, rfl⟩
  | false => cases h

/-- The size of an array only reads. -/
theorem size_eq_ok {v w : Value} {n : ℕ} (h : Value.size v = .ok n w) :
    w = v ∧ ∃ es c, v = .array es c ∧ n = es.length := by
  obtain ⟨_, v₁, hassert, hsize⟩ := bind_eq_ok.mp h
  rw [Value.assertArray, bind_of_ok (get_apply v)] at hassert
  obtain ⟨harray, rfl⟩ := anyrpcAssert_eq_ok hassert
  cases v₁ <;> first | (cases hsize; exact ⟨rfl, _, _, rfl, rfl⟩) | cases harray

theorem pushBack_eq_ok {es : List Value} {c : ℕ} {x w : Value}
    (h : Value.pushBack x (.array es c) = .ok () w) : ∃ c', w = .array (es ++ [x]) c' := by
  rcases Nat.lt_or_ge es.length c with hroom | hfull
  · rw [Value.pushBack_of_lt es hroom] at h
    cases h
    exact ⟨c, rfl⟩
  · rw [Value.pushBack_of_le es hfull] at h
    split at h
    · cases h
      exact ⟨_, rfl⟩
    · cases h

/-- Nothing is within a value that is no container. -/
theorem keepsInner_of_child?_eq_none (v : Value) {w : Value} (h : ∀ i, w.child? i = none) :
    v.KeepsInner w :=
  Value.keepsInner_of_child fun i _ _ _ hy => by rw [h i] at hy; cases hy

/-- The end of an array leaves it as it is, or takes it for an extension. -/
theorem keepsInner_finishArray [Platform] {convert : Bool} {count : ℕ} {v w : Value}
    (h : finishArray convert count v = .ok () w) : v.KeepsInner w := by
  obtain ⟨n, v₁, hsize, hend⟩ := bind_eq_ok.mp h
  obtain ⟨rfl, es, c, rfl, -⟩ := size_eq_ok hsize
  have hsame : ∀ (es : List Value) (b : Bool) (code : BitVec 32) (message : Bytes),
      anyrpcAssert b code message (.array es c) = .ok () w → (Value.array es c).KeepsInner w := by
    intro es b code message h
    rw [(anyrpcAssert_eq_ok h).2]
    exact Value.keepsInner_refl _
  have hconvert (x : EventTree.Extension) (h : x.convert (.array es c) = .ok w) :
      (Value.array es c).KeepsInner w := by
    rcases EventTree.Extension.convert_eq_ok h with ⟨dt, rfl⟩ | ⟨s, rfl⟩
    · exact keepsInner_of_child?_eq_none _ fun i => rfl
    · exact keepsInner_of_child?_eq_none _ fun i => rfl
  rw [bind_of_ok (get_apply _)] at hend
  match es, hconvert, hend with
  | [], _, hend => exact hsame _ _ _ _ hend
  | .string str :: second :: rest, hconvert, hend =>
    cases convert with
    | false => exact hsame _ _ _ _ hend
    | true =>
      cases second with
      | string data =>
        simp only [if_true] at hend
        split_ifs at hend
        · exact hconvert (.dateTime data) (outcome_of_ok hend)
        · exact hconvert (.base64 data) (outcome_of_ok hend)
        · cases hend
          exact Value.keepsInner_refl _
      | _ =>
        cases hend
        exact Value.keepsInner_refl _
  | [a], _, hend => cases a <;> exact hsame _ _ _ _ hend
  | .invalid :: _ :: _, _, hend | .null :: _ :: _, _, hend | .bool _ :: _ :: _, _, hend
  | .map _ _ :: _ :: _, _, hend | .array _ _ :: _ :: _, _, hend | .number _ :: _ :: _, _, hend
  | .dateTime _ :: _ :: _, _, hend | .binary _ :: _ :: _, _, hend => exact hsame _ _ _ _ hend

/-! ### Calls -/

/-- An operation that only reads leaves the document as it is. -/
theorem onBack_read_eq_ok {α : Type} {op : Exec Value α} {a : α} (h : onBack op d = .ok a d')
    (hop : ∀ v w, op v = .ok a w → w = v) :
    d' = d ∧ ∃ p l v, d.stack = p :: l ∧ Nested.get? p d.value = some v ∧ op v = .ok a v := by
  obtain ⟨p, l, v, w, hs, hv, hrun, rfl⟩ := onBack_eq_ok h
  cases hop v w hrun
  exact ⟨by rw [Nested.put_get? hv], p, l, v, hs, hv, hrun⟩

theorem advances_key {str : StrArg} (h : key str d = .ok () d') : d.Advances d' := by
  obtain ⟨i, d₁, hback, hpush⟩ := bind_eq_ok.mp h
  obtain ⟨p, l, v, w, hs, hv, hrun, rfl⟩ := onBack_eq_ok hback
  obtain ⟨p', l', hs', rfl⟩ := pushChild_eq_ok hpush
  cases hs.symm.trans hs'
  obtain ⟨_, v₁, hassert, hadd⟩ := bind_eq_ok.mp hrun
  obtain ⟨hmap, rfl⟩ := assertMap_eq_ok hassert
  cases v₁ with
  | map ms c =>
    obtain ⟨rfl, c', rfl⟩ := addMember_eq_ok hadd
    refine ⟨p, l, _, _, hv, rfl, Value.keepsInner_map_append ms _ c c', .inl hs, .inr ⟨rfl, ?_⟩⟩
    simp [Value.childCount]
  | _ => cases hmap

theorem advances_startArray (h : startArray d = .ok () d') : d.Advances d' := by
  obtain ⟨_, d₁, hback, h⟩ := bind_eq_ok.mp h
  obtain ⟨p, l, v, w, hs, hv, hrun, rfl⟩ := onBack_eq_ok hback
  obtain ⟨rfl, hrun⟩ := eq_invalid_of_assertInvalid hrun
  cases hrun
  obtain ⟨i, d₂, helement, hpush⟩ := bind_eq_ok.mp h
  obtain ⟨p', l', v', w', hs', hv', hrun', rfl⟩ := onBack_eq_ok helement
  cases hs.symm.trans hs'
  rw [show Nested.get? p _ = some _ from Nested.get?_put hv _] at hv'
  cases hv'
  cases hrun'
  obtain ⟨p', l', hs', rfl⟩ := pushChild_eq_ok hpush
  cases hs.symm.trans hs'
  exact ⟨p, l, .invalid, _, hv, Nested.put_put .., Value.keepsInner_invalid _, .inl hs,
    .inr ⟨rfl, rfl⟩⟩

theorem advances_arraySeparator (h : arraySeparator d = .ok () d') : d.Advances d' := by
  obtain ⟨_, d₁, hvalid, hrest⟩ := bind_eq_ok.mp h
  obtain ⟨rfl, -⟩ := onBack_read_eq_ok hvalid fun v w hop => by
    rw [bind_of_ok (get_apply v)] at hop
    exact (anyrpcAssert_eq_ok hop).2
  obtain ⟨_, d₂, hpop, hrest⟩ := bind_eq_ok.mp hrest
  obtain ⟨q, l₀, hs₁, rfl⟩ := popBack_eq_ok hpop
  obtain ⟨n, d₃, hsize, hrest⟩ := bind_eq_ok.mp hrest
  obtain ⟨rfl, p, l, v, hs₂, hv, hsize⟩ := onBack_read_eq_ok hsize fun v w hop => (size_eq_ok hop).1
  obtain ⟨-, es, c, rfl, rfl⟩ := size_eq_ok hsize
  obtain ⟨_, d₄, hpush, hrest⟩ := bind_eq_ok.mp hrest
  obtain ⟨p', l', v', w, hs₃, hv', hrun, rfl⟩ := onBack_eq_ok hpush
  cases hs₂.symm.trans hs₃
  cases hv.symm.trans hv'
  obtain ⟨c', rfl⟩ := pushBack_eq_ok hrun
  obtain ⟨i, d₅, helement, hrest⟩ := bind_eq_ok.mp hrest
  have hlast : Value.element es.length (.array (es ++ [.invalid]) c') =
      .ok es.length (.array (es ++ [.invalid]) c') := Value.element_array _ _ (by simp)
  obtain ⟨p', l', v', w, hs₄, hv', hrun, rfl⟩ := onBack_eq_ok helement
  cases hs₂.symm.trans hs₄
  rw [show Nested.get? p _ = some _ from Nested.get?_put hv _] at hv'
  cases hv'
  rw [hlast] at hrun
  cases hrun
  obtain ⟨p', l', hs₅, rfl⟩ := pushChild_eq_ok hrest
  cases hs₂.symm.trans hs₅
  have hl : l₀ = p :: l := hs₂
  subst hl
  refine ⟨p, l, _, _, hv, Nested.put_put .., Value.keepsInner_array_append es .invalid c c',
    .inr ⟨q, hs₁⟩, .inr ⟨rfl, ?_⟩⟩
  simp [Value.childCount]

theorem advances_endMap {count : ℕ} (h : endMap count d = .ok () d') : d.Advances d' := by
  have hop : ∀ v w, (do
      let n ← memberCount
      anyrpcAssert (n = count) ErrorCode.mapCountWrong
        (ascii "Member counts different, call=" ++ decimal count ++ ascii ", value=" ++ decimal n) :
        Exec Value Unit) v = .ok () w → v.KeepsInner w := by
    intro v w h
    obtain ⟨n, v₁, hcount, hassert⟩ := bind_eq_ok.mp h
    obtain ⟨-, rfl⟩ := anyrpcAssert_eq_ok hassert
    rw [memberCount_eq_ok hcount]
    exact Value.keepsInner_refl v
  rw [endMap] at h
  by_cases hcount : count ≠ 0
  · rw [if_pos hcount] at h
    exact advances_popBack h hop
  · rw [if_neg hcount] at h
    exact advances_onBack h hop

theorem advances_endArray [Platform] {count : ℕ} (h : endArray count d = .ok () d') :
    d.Advances d' := by
  obtain ⟨last, d₁, hget, hrest⟩ := bind_eq_ok.mp h
  obtain ⟨rfl, -⟩ := onBack_read_eq_ok hget fun v w hop => by
    cases hop
    rfl
  cases hlast : last.isInvalid with
  | true =>
    rw [hlast, if_pos rfl] at hrest
    refine advances_popBack hrest fun v w hop => ?_
    obtain ⟨n, v₁, hsize, hset⟩ := bind_eq_ok.mp hop
    obtain ⟨rfl, es, c, rfl, -⟩ := size_eq_ok hsize
    obtain ⟨_, v₂, hassert, hset⟩ := bind_eq_ok.mp hset
    obtain ⟨-, rfl⟩ := anyrpcAssert_eq_ok hassert
    rw [Value.setSize_array es c (by decide)] at hset
    cases hset
    exact keepsInner_of_child?_eq_none _ fun i => by simp [Value.child?]
  | false =>
    rw [hlast, if_neg Bool.false_ne_true] at hrest
    obtain ⟨_, d₂, hpop, hend⟩ := bind_eq_ok.mp hrest
    rw [bind_of_ok (get_apply d₂)] at hend
    exact advances_popBack (bind_eq_ok.mpr ⟨_, d₂, hpop, hend⟩) fun v w => keepsInner_finishArray

/-- What every call does. -/
theorem advances_handle [Platform] {e : Event} (h : handle e d = .ok () d') : d.Advances d' := by
  have hassign {op : Exec Value Unit} (h : onBack (do assertInvalid; op) d = .ok () d') :
      d.Advances d' := advances_onBack h fun v w => keepsInner_of_assertInvalid
  cases e with
  | scalar s => cases s <;> exact hassign h
  | startMap _ => exact hassign h
  | key str => exact advances_key h
  | mapSeparator =>
    refine advances_popBack h fun v w hop => ?_
    rw [(assertMap_eq_ok hop).2]
    exact Value.keepsInner_refl v
  | endMap count => exact advances_endMap h
  | startArray _ => exact advances_startArray h
  | arraySeparator => exact advances_arraySeparator h
  | endArray count => exact advances_endArray h

/-- After any calls on a new document its pointers are a chain. -/
theorem chain_run [Platform] (es : List Event) :
    ∀ {d d' : Document}, Chain d.value d.stack → run es d = .ok () d' →
      Chain d'.value d'.stack := by
  induction es with
  | nil =>
    intro d d' h hrun
    cases hrun
    exact h
  | cons e es ih =>
    intro d d' h hrun
    obtain ⟨_, d₁, hcall, hrest⟩ := bind_eq_ok.mp hrun
    exact ih ((advances_handle hcall).chain h) hrest

end

end Document

end AnyRpc
