import AnyRpc.Document.Limits
import AnyRpc.Value.Arrays

/-! # How containers grow

The containers of what a document builds have got their elements and members one by one. An array is
within the limit on arrays, and the capacity of a map follows from the number of its members alone. -/

namespace AnyRpc

open Library Handler

/-- The capacity of a map with a number of members that were added one by one. -/
def Value.capacityOf : ℕ → ℕ
  | 0 => 0
  | n + 1 => if capacityOf n ≤ n then grownMapCapacity (capacityOf n) else capacityOf n

/-- There is room for the members. -/
theorem Value.capacityOf_bounds {n : ℕ} (h : n ≤ maxMapCapacity) :
    n ≤ capacityOf n ∧ capacityOf n ≤ maxMapCapacity := by
  induction n with
  | zero => exact ⟨le_rfl, Nat.zero_le _⟩
  | succ n ih =>
    obtain ⟨hsize, hmax⟩ := ih (Nat.le_of_succ_le h)
    rw [capacityOf]
    split_ifs with hfull
    · exact lt_grownMapCapacity hmax hfull hsize h
    · exact ⟨not_le.mp hfull, hmax⟩

/-- The containers of a value got their elements and members one by one. -/
def Value.Grown (v : Value) : Prop :=
  v.All fun
    | array es c => es.length ≤ maxPushedElements ∧ es.length ≤ c ∧ c < maxArrayCapacity
    | map ms c => ms.length ≤ maxMapCapacity ∧ c = capacityOf ms.length
    | _ => True

/-- Such a value is within the limits. -/
theorem Value.Grown.sized {v : Value} (h : v.Grown) : v.Sized := by
  refine h.mono fun v hv => ?_
  cases v with
  | map ms c =>
    obtain ⟨hlen, rfl⟩ := hv
    exact capacityOf_bounds hlen
  | array es c => exact hv.2
  | _ => trivial

namespace EventTree

variable [Platform] {convert : Bool}

omit [Platform] in
/-- One more element. -/
theorem pushCapacity_bounds {size c c' : ℕ} (hsize : size ≤ c) (hc : c < Value.maxArrayCapacity)
    (h : pushCapacity size c = .ok c') : size + 1 ≤ c' ∧ c' < Value.maxArrayCapacity := by
  have hgrown := Value.lt_grownArrayCapacity c
  rw [pushCapacity] at h
  split_ifs at h with hfull hmax
  · cases h
    rw [max_eq_left hgrown.le]
    exact ⟨by omega, hmax⟩
  · cases h
    exact ⟨not_le.mp hfull, hc⟩

/-- The elements that are pushed stay within the limit. -/
theorem buildElements_bounds {ts : List EventTree} {es es' : List Value} {c c' : ℕ}
    (hes : es.length ≤ c) (hc : c < Value.maxArrayCapacity)
    (h : buildElements convert ts es c = .ok (es', c')) :
    es'.length ≤ c' ∧ c' < Value.maxArrayCapacity := by
  induction ts generalizing es c with
  | nil =>
    cases h
    exact ⟨hes, hc⟩
  | cons t ts ih =>
    rw [buildElements] at h
    cases hcap : pushCapacity es.length c with
    | error f =>
      rw [hcap] at h
      cases h
    | ok c₁ =>
      cases hv : t.build convert with
      | error f =>
        rw [hcap, hv] at h
        cases h
      | ok v =>
        rw [hcap, hv] at h
        obtain ⟨hroom, hmax⟩ := pushCapacity_bounds hes hc hcap
        have hlength : (es ++ [v]).length ≤ c₁ := by
          rw [List.length_append]
          exact hroom
        exact ih hlength hmax h

/-- The capacity that the members reach depends on their number alone. -/
theorem buildMembers_bounds {ms : List (Option StrArg × EventTree)} {done vs : List (Bytes × Value)}
    {c : ℕ} (hdone : done.length ≤ Value.maxMapCapacity)
    (h : buildMembers convert ms done (Value.capacityOf done.length) = .ok (vs, c)) :
    vs.length ≤ Value.maxMapCapacity ∧ c = Value.capacityOf vs.length := by
  induction ms generalizing done with
  | nil =>
    cases h
    exact ⟨hdone, rfl⟩
  | cons m ms ih =>
    obtain ⟨_ | k, t⟩ := m
    · cases h
    rw [buildMembers] at h
    cases hcap : memberCapacity done.length (Value.capacityOf done.length) with
    | error f =>
      rw [hcap] at h
      cases h
    | ok c₁ =>
      cases hk : k.terminated with
      | false =>
        rw [hcap, hk] at h
        cases h
      | true =>
        cases hv : t.build convert with
        | error f =>
          rw [hcap, hk, hv] at h
          cases h
        | ok v =>
          rw [hcap, hk, hv] at h
          have hmore : buildMembers convert ms (done ++ [(k.bytes, v)]) c₁ = .ok (vs, c) := h
          have hlength : (done ++ [(k.bytes, v)]).length = done.length + 1 := List.length_append
          have hnext : c₁ = Value.capacityOf (done ++ [(k.bytes, v)]).length := by
            rw [memberCapacity] at hcap
            rw [hlength, Value.capacityOf]
            split_ifs at hcap ⊢
            all_goals exact (Except.ok.inj hcap).symm
          have hlimit : done.length < Value.maxMapCapacity := by
            refine lt_of_not_ge fun hfull => ?_
            obtain ⟨f, hrefused⟩ := memberCapacity_of_ge (Value.capacityOf_bounds hdone).2 hfull
            cases hcap.symm.trans hrefused
          rw [hnext] at hmore
          exact ih (by omega) hmore

/-- The containers of what a tree stands for got their parts one by one. -/
theorem grown_of_build {t : EventTree} {v : Value} (h : t.build convert = .ok v) : v.Grown := by
  induction t using EventTree.induction generalizing v with
  | leaf s =>
    cases s with
    | string str =>
      rw [build, Scalar.build] at h
      split_ifs at h
      cases h
      trivial
    | _ =>
      cases h
      trivial
  | array count ts ih =>
    cases ts with
    | nil =>
      cases h
      exact Value.all_array.mpr ⟨⟨Nat.zero_le _, by decide⟩, fun _ he => absurd he List.not_mem_nil⟩
    | cons t ts =>
      have hfits : (t :: ts).length ≤ maxPushedElements := by
        refine not_lt.mp fun hgt => ?_
        obtain ⟨f, hrefused⟩ := build_array_of_gt convert hgt count
        cases h.symm.trans hrefused
      rw [build_array_cons] at h
      cases hes : buildArray convert t ts with
      | error f =>
        rw [hes] at h
        cases h
      | ok r =>
        rw [hes] at h
        have hfinish : finish convert r.1 r.2 = .ok v := h
        rcases finish_eq_ok hfinish with rfl | ⟨dt, rfl⟩ | ⟨str, rfl⟩
        · have hall := buildArray_eq_ok hes
          rw [hall.length_eq] at hfits
          rw [buildArray] at hes
          cases hv : t.build convert with
          | error f =>
            rw [hv] at hes
            cases hes
          | ok w =>
            rw [hv] at hes
            have hone : 1 ≤ Value.defaultArrayCapacity := by decide
            have hbounds := buildElements_bounds hone (by decide) hes
            refine Value.all_array.mpr ⟨⟨hfits, hbounds⟩, fun e he => ?_⟩
            obtain ⟨t', ht', hbuild⟩ := exists_of_forall₂ hall he
            exact ih t' ht' hbuild
        · trivial
        · trivial
  | map count ms ih =>
    rw [build] at h
    cases hms : buildMembers convert ms [] 0 with
    | error f =>
      rw [hms] at h
      cases h
    | ok r =>
      rw [hms] at h
      cases h
      have hstart : buildMembers convert ms [] (Value.capacityOf 0) = .ok r := hms
      obtain ⟨vs, hvs, hall⟩ := buildMembers_eq_ok hms
      refine Value.all_map.mpr ⟨buildMembers_bounds (Nat.zero_le _) hstart, fun m hm => ?_⟩
      rw [hvs, List.nil_append] at hm
      obtain ⟨m', hm', -, hbuild⟩ := exists_of_forall₂ hall hm
      exact ih m' hm' hbuild

end EventTree

end AnyRpc
