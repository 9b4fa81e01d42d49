import AnyRpc.Document.Build
import AnyRpc.Value.Integer
import AnyRpc.Value.Members
import Mathlib.Data.List.Forall2

/-! # Which trees a document accepts

An array grows by half each time it is full, so the limit on its capacity stops it short of the
limit itself (`maxPushedElements`). A tree whose containers stay within the limits, whose strings
may be stored and whose arrays are not taken for extensions builds the value it describes. -/

namespace AnyRpc

open Library Handler

/-! ## The growth of arrays -/

/-- The capacities that a growing array passes through. -/
def pushedCapacities : List ℕ := List.iterate Value.grownArrayCapacity Value.defaultArrayCapacity 35

/-- The number of elements beyond which an array can not grow. -/
def maxPushedElements : ℕ := 15663294

/-- A capacity grows to the next one, up to the last. -/
theorem grown_mem_pushedCapacities : ∀ c ∈ pushedCapacities,
    c ≤ maxPushedElements ∧ (c = maxPushedElements ∨
      Value.grownArrayCapacity c ∈ pushedCapacities ∧ c < Value.grownArrayCapacity c ∧
        Value.grownArrayCapacity c < Value.maxArrayCapacity) := by
  decide +kernel

/-- The last capacity does not grow. -/
theorem grown_maxPushedElements :
    Value.maxArrayCapacity ≤ Value.grownArrayCapacity maxPushedElements := by
  decide

section

variable {c size : ℕ} (hc : c ∈ pushedCapacities) (hsize : size ≤ c)

include hc hsize

/-- Below the limit there is room for one more element, after growing if need be. -/
theorem pushCapacity_of_lt (h : size < maxPushedElements) :
    ∃ c' ∈ pushedCapacities, size + 1 ≤ c' ∧ pushCapacity size c = .ok c' := by
  obtain ⟨-, rfl | ⟨hmem, hlt, hmax⟩⟩ := grown_mem_pushedCapacities c hc
  · exact ⟨_, hc, h, by rw [pushCapacity, if_neg (by omega)]⟩
  · by_cases hfull : c ≤ size
    · refine ⟨_, hmem, by omega, ?_⟩
      rw [pushCapacity, if_pos hfull, if_pos hmax, max_eq_left hlt.le]
    · exact ⟨c, hc, by omega, by rw [pushCapacity, if_neg hfull]⟩

/-- At the limit an array is full and does not grow. -/
theorem pushCapacity_of_ge (h : maxPushedElements ≤ size) :
    pushCapacity size c = .error (tooManyElements (Value.grownArrayCapacity maxPushedElements)) := by
  have hle := (grown_mem_pushedCapacities c hc).1
  have hceq : c = maxPushedElements := by omega
  have hmax := grown_maxPushedElements
  rw [pushCapacity, if_pos (by omega), hceq, if_neg (by omega)]

end

/-! ## The growth of maps -/

/-- Below the limit there is room for one more member, after growing if need be. -/
theorem memberCapacity_of_lt {c size : ℕ} (hc : c ≤ Value.maxMapCapacity) (hsize : size ≤ c)
    (h : size < Value.maxMapCapacity) :
    ∃ c', c' ≤ Value.maxMapCapacity ∧ size + 1 ≤ c' ∧ memberCapacity size c = .ok c' := by
  by_cases hfull : c ≤ size
  · obtain ⟨hlt, hle⟩ := Value.lt_grownMapCapacity hc hfull hsize h
    exact ⟨Value.grownMapCapacity c, hle, hlt, by rw [memberCapacity, if_pos hfull, if_pos hlt]⟩
  · refine ⟨c, hc, by omega, ?_⟩
    rw [memberCapacity, if_neg hfull, if_pos (by omega)]

/-- At the limit a map is full and does not grow. -/
theorem memberCapacity_of_ge {c size : ℕ} (hc : c ≤ Value.maxMapCapacity)
    (h : Value.maxMapCapacity ≤ size) : ∃ f, memberCapacity size c = .error f := by
  simp only [Value.maxMapCapacity] at hc h
  have hfull : c ≤ size := by omega
  refine ⟨tooManyMembers size (Value.grownMapCapacity c), ?_⟩
  simp only [memberCapacity, if_pos hfull]
  rw [if_neg]
  simp only [Value.grownMapCapacity, Value.defaultMapCapacity, Value.maxMapCapacity]
  split_ifs <;> omega

/-! ## Building a value -/

/-- The value that the call for an integer assigns. -/
theorem Scalar.build_of_integer [Platform] {sc : Scalar} {z : ℤ} (h : sc.integer? = some z) :
    sc.build = .ok (.number (.ofInteger z)) := by
  cases sc with
  | int i =>
    cases h
    rw [← Number.ofInt_eq]
    rfl
  | uint u =>
    cases h
    rw [← Number.ofUint_eq]
    rfl
  | int64 i64 =>
    cases h
    rw [← Number.ofInt64_eq]
    rfl
  | uint64 u64 =>
    cases h
    rw [← Number.ofUint64_eq]
    rfl
  | _ => cases h

namespace EventTree

variable [Platform] {convert : Bool}

/-- The tree builds a value with the contents of the given one. -/
def Builds (convert : Bool) (t : EventTree) (v : Value) : Prop :=
  ∃ w, t.build convert = .ok w ∧ w.contents = v.contents

/-- A scalar that may be stored builds its value. -/
theorem builds_leaf {s : Scalar} {v : Value} (h : s.build = .ok v) :
    Builds convert (.leaf s) v := ⟨v, h, rfl⟩

/-- The elements so far and the values of the new trees, within the limit. -/
theorem buildElements_of_le {ts : List EventTree} {vs : List Value}
    (h : List.Forall₂ (Builds convert) ts vs) (es : List Value) {c : ℕ}
    (hlen : es.length + ts.length ≤ maxPushedElements) (hc : c ∈ pushedCapacities)
    (hes : es.length ≤ c) :
    ∃ es' c', buildElements convert ts es c = .ok (es', c') ∧
      es'.map Value.contents = es.map Value.contents ++ vs.map Value.contents := by
  induction h generalizing es c with
  | nil => exact ⟨es, c, rfl, by simp⟩
  | @cons t v ts vs ht _ ih =>
    rw [List.length_cons] at hlen
    obtain ⟨c', hc', hle, hcap⟩ := pushCapacity_of_lt hc hes (by omega)
    obtain ⟨w, hw, hcontents⟩ := ht
    have hlen' : (es ++ [w]).length = es.length + 1 := by simp
    obtain ⟨es', c'', hbuild, hmap⟩ := ih (es ++ [w]) (by omega) hc' (by omega)
    refine ⟨es', c'', ?_, ?_⟩
    · simp only [buildElements, hcap, hw]
      exact hbuild
    · rw [hmap]
      simp [hcontents]

/-- More elements than an array can grow to are refused. -/
theorem buildElements_of_gt (convert : Bool) {ts : List EventTree} (es : List Value) {c : ℕ}
    (hlen : maxPushedElements < es.length + ts.length) (hc : c ∈ pushedCapacities)
    (hes : es.length ≤ c) : ∃ f, buildElements convert ts es c = .error f := by
  induction ts generalizing es c with
  | nil =>
    have hle := (grown_mem_pushedCapacities c hc).1
    rw [List.length_nil] at hlen
    omega
  | cons t ts ih =>
    rw [List.length_cons] at hlen
    by_cases hlt : es.length < maxPushedElements
    · obtain ⟨c', hc', hle, hcap⟩ := pushCapacity_of_lt hc hes hlt
      cases hv : t.build convert with
      | error f => exact ⟨f, by simp only [buildElements, hcap, hv]; rfl⟩
      | ok v =>
        have hlen' : (es ++ [v]).length = es.length + 1 := by simp
        obtain ⟨f, hf⟩ := ih (es ++ [v]) (by omega) hc' (by omega)
        exact ⟨f, by simp only [buildElements, hcap, hv]; exact hf⟩
    · exact ⟨_, by
        simp only [buildElements, pushCapacity_of_ge hc hes (by omega)]
        rfl⟩

omit [Platform] in
/-- Whether an array is taken for an extension is a matter of its contents. -/
theorem extension?_map_contents (es : List Value) :
    extension? (es.map Value.contents) = extension? es := by
  rcases es with _ | ⟨a, _ | ⟨b, es⟩⟩
  · rfl
  · cases a <;> rfl
  · cases a <;> cases b <;> rfl

/-- An array that is within the limit and not taken for an extension. -/
theorem builds_array {ts : List EventTree} {vs : List Value}
    (h : List.Forall₂ (Builds convert) ts vs) (hlen : ts.length ≤ maxPushedElements)
    (hx : convert = true → extension? vs = none) (count : Option ℕ) (c : ℕ) :
    Builds convert (.array count ts) (.array vs c) := by
  cases h with
  | nil => exact ⟨_, rfl, by simp⟩
  | @cons t v ts vs ht hts =>
    obtain ⟨w, hw, hcontents⟩ := ht
    obtain ⟨es, c', hbuild, hmap⟩ := buildElements_of_le hts [w]
      (c := Value.defaultArrayCapacity) (by simpa [Nat.add_comm] using hlen) (by decide) (by
        rw [List.length_singleton]
        decide)
    have hmap' : es.map Value.contents = (v :: vs).map Value.contents := by
      rw [hmap]
      simp [hcontents]
    have hes : convert = true → extension? es = none := by
      intro hconvert
      rw [← extension?_map_contents, hmap', extension?_map_contents, hx hconvert]
    refine ⟨.array es c', ?_, by simp [hmap']⟩
    simp only [build, hw, bind, Except.bind, hbuild]
    exact finish_of_none c' hes

/-- An array with more elements than it can grow to is refused. -/
theorem build_array_of_gt (convert : Bool) {ts : List EventTree} (h : maxPushedElements < ts.length)
    (count : Option ℕ) : ∃ f, build convert (.array count ts) = .error f := by
  match ts, h with
  | t :: ts, h =>
    cases hv : t.build convert with
    | error f => exact ⟨f, by simp only [build, hv]; rfl⟩
    | ok v =>
      obtain ⟨f, hf⟩ := buildElements_of_gt convert [v]
        (c := Value.defaultArrayCapacity) (by simpa [Nat.add_comm] using h) (by decide) (by
          rw [List.length_singleton]
          decide)
      exact ⟨f, by simp only [build, hv, bind, Except.bind, hf]⟩

/-- A member whose key may be stored and whose tree builds a value. -/
def BuildsMember (convert : Bool) (m : Option StrArg × EventTree) (v : Bytes × Value) : Prop :=
  ∃ k, m.1 = some k ∧ k.terminated = true ∧ k.bytes = v.1 ∧ Builds convert m.2 v.2

/-- The members so far and the new ones, within the limit. -/
theorem buildMembers_of_le {ms : List (Option StrArg × EventTree)} {vs : List (Bytes × Value)}
    (h : List.Forall₂ (BuildsMember convert) ms vs) (done : List (Bytes × Value)) {c : ℕ}
    (hlen : done.length + ms.length ≤ Value.maxMapCapacity) (hc : c ≤ Value.maxMapCapacity)
    (hdone : done.length ≤ c) :
    ∃ ms' c', buildMembers convert ms done c = .ok (ms', c') ∧
      ms'.map (fun m => (m.1, m.2.contents)) =
        done.map (fun m => (m.1, m.2.contents)) ++ vs.map fun m => (m.1, m.2.contents) := by
  induction h generalizing done c with
  | nil => exact ⟨done, c, rfl, by simp⟩
  | @cons m v ms vs hm _ ih =>
    rw [List.length_cons] at hlen
    obtain ⟨c', hc', hle, hcap⟩ := memberCapacity_of_lt hc hdone (by omega)
    obtain ⟨k, t⟩ := m
    obtain ⟨k, rfl, hk, hbytes, w, hw, hcontents⟩ := hm
    have hlen' : (done ++ [(k.bytes, w)]).length = done.length + 1 := by simp
    obtain ⟨ms', c'', hbuild, hmap⟩ := ih (done ++ [(k.bytes, w)]) (by omega) hc' (by omega)
    refine ⟨ms', c'', ?_, ?_⟩
    · simp only at hw
      simp only [buildMembers, hcap, hk, if_true, hw]
      exact hbuild
    · rw [hmap]
      simp [hcontents, hbytes]

/-- A map that is within the limit. -/
theorem builds_map {ms : List (Option StrArg × EventTree)} {vs : List (Bytes × Value)}
    (h : List.Forall₂ (BuildsMember convert) ms vs) (hlen : ms.length ≤ Value.maxMapCapacity)
    (count : Option ℕ) (c : ℕ) : Builds convert (.map count ms) (.map vs c) := by
  obtain ⟨ms', c', hbuild, hmap⟩ := buildMembers_of_le h [] (c := 0) (by simpa using hlen)
    (by decide) (by decide)
  exact ⟨.map ms' c', by rw [build, hbuild]; rfl, by simpa using hmap⟩

end EventTree

end AnyRpc
