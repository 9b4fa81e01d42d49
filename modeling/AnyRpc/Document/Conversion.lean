import AnyRpc.Document.Limits

/-! # Documents without extensions

What the conversion of extensions leaves alone: a value none of whose arrays is taken for an extension
is built with the conversion as it is without. -/

namespace AnyRpc

/-- A node that the conversion leaves alone. -/
def Value.IsOrdinary : Value → Prop
  | array es _ => EventTree.extension? es = none
  | _ => True

/-- Whether the nodes of a value are left alone is a matter of its contents. -/
theorem Value.all_isOrdinary_contents (v : Value) :
    v.contents.All IsOrdinary ↔ v.All IsOrdinary := by
  induction v using Value.induction with
  | array es c ih =>
    rw [contents_array, all_array, all_array, List.forall_mem_map]
    exact and_congr (by rw [IsOrdinary, IsOrdinary, EventTree.extension?_map_contents])
      (forall₂_congr ih)
  | map ms c ih =>
    rw [contents_map, all_map, all_map, List.forall_mem_map]
    exact and_congr Iff.rfl (forall₂_congr ih)
  | _ => exact Iff.rfl

/-- A value that has the contents of a leaf is the leaf. -/
theorem Value.eq_of_contents {v w : Value} (h : v.contents = w) (harray : w.isArray = false)
    (hmap : w.isMap = false) : v = w := by
  subst h
  cases v with
  | array es c => simp [isArray] at harray
  | map ms c => simp [isMap] at hmap
  | _ => rfl

namespace EventTree

variable [Platform]

/-- Elements that are built alike with and without the conversion. -/
theorem buildElements_of_false {ts : List EventTree} {es es' : List Value} {c c' : ℕ}
    (h : buildElements false ts es c = .ok (es', c'))
    (hts : ∀ t ∈ ts, ∀ v ∈ es', build false t = .ok v → build true t = .ok v) :
    buildElements true ts es c = .ok (es', c') := by
  induction ts generalizing es c with
  | nil => exact h
  | cons t ts ih =>
    rw [buildElements] at h ⊢
    cases hcap : pushCapacity es.length c with
    | error f =>
      rw [hcap] at h
      cases h
    | ok c₁ =>
      cases hv : t.build false with
      | error f =>
        rw [hcap, hv] at h
        cases h
      | ok v =>
        rw [hcap, hv] at h
        have hmore : buildElements false ts (es ++ [v]) c₁ = .ok (es', c') := h
        obtain ⟨vs, rfl, -⟩ := buildElements_eq_ok hmore
        rw [hts t List.mem_cons_self v (by simp) hv]
        exact ih hmore fun t ht => hts t (List.mem_cons_of_mem _ ht)

/-- Members that are built alike with and without the conversion. -/
theorem buildMembers_of_false {ms : List (Option StrArg × EventTree)}
    {done done' : List (Bytes × Value)} {c c' : ℕ}
    (h : buildMembers false ms done c = .ok (done', c'))
    (hms : ∀ m ∈ ms, ∀ v ∈ done', build false m.2 = .ok v.2 → build true m.2 = .ok v.2) :
    buildMembers true ms done c = .ok (done', c') := by
  induction ms generalizing done c with
  | nil => exact h
  | cons m ms ih =>
    obtain ⟨_ | k, t⟩ := m
    · cases h
    rw [buildMembers] at h ⊢
    cases hcap : memberCapacity done.length c with
    | error f =>
      rw [hcap] at h
      cases h
    | ok c₁ =>
      cases hk : k.terminated with
      | false =>
        rw [hcap, hk] at h
        cases h
      | true =>
        cases hv : t.build false with
        | error f =>
          rw [hcap, hk, hv] at h
          cases h
        | ok v =>
          rw [hcap, hk, hv] at h
          have hmore : buildMembers false ms (done ++ [(k.bytes, v)]) c₁ = .ok (done', c') := h
          obtain ⟨vs, rfl, -⟩ := buildMembers_eq_ok hmore
          rw [hms (some k, t) List.mem_cons_self (k.bytes, v) (by simp) hv]
          exact ih hmore fun m hm => hms m (List.mem_cons_of_mem _ hm)

/-- A value without extensions is built with the conversion as it is without. -/
theorem build_of_isOrdinary {t : EventTree} {v : Value} (h : t.build false = .ok v)
    (hv : v.All Value.IsOrdinary) : t.build true = .ok v := by
  induction t using EventTree.induction generalizing v with
  | leaf s => exact h
  | array count ts ih =>
    match ts, ih, h with
    | [], _, h => exact h
    | t :: ts, ih, h =>
      rw [build_array_cons] at h ⊢
      cases hes : buildArray false t ts with
      | error f =>
        rw [hes] at h
        cases h
      | ok r =>
        obtain ⟨es, c⟩ := r
        rw [hes] at h
        have hfinish : finish false es c = .ok v := h
        have hplain : finish false es c = .ok (.array es c) := finish_of_none c (by simp)
        rw [hplain] at hfinish
        cases hfinish
        obtain ⟨hx, hes'⟩ := Value.all_array.mp hv
        have hbuild : buildArray true t ts = .ok (es, c) := by
          rw [buildArray] at hes ⊢
          cases hfirst : t.build false with
          | error f =>
            rw [hfirst] at hes
            cases hes
          | ok v =>
            rw [hfirst] at hes
            have hmore : buildElements false ts [v] Value.defaultArrayCapacity = .ok (es, c) := hes
            obtain ⟨vs, rfl, -⟩ := buildElements_eq_ok hmore
            rw [ih t List.mem_cons_self hfirst (hes' v (by simp))]
            exact buildElements_of_false hmore fun t ht w hw hw' =>
              ih t (List.mem_cons_of_mem _ ht) hw' (hes' w hw)
        rw [hbuild]
        exact finish_of_none c fun _ => hx
  | map count ms ih =>
    rw [build] at h ⊢
    cases hms : buildMembers false ms [] 0 with
    | error f =>
      rw [hms] at h
      cases h
    | ok r =>
      obtain ⟨vs, c⟩ := r
      rw [hms] at h
      cases h
      obtain ⟨-, hvs⟩ := Value.all_map.mp hv
      rw [buildMembers_of_false hms fun m hm w hw hw' => ih m hm hw' (hvs w hw)]
      rfl

/-- What builds a value without extensions does so with the conversion as well. -/
theorem Builds.of_isOrdinary {t : EventTree} {v : Value} (h : Builds false t v)
    (hv : v.All Value.IsOrdinary) (convert : Bool) : Builds convert t v := by
  obtain ⟨w, hw, hcontents⟩ := h
  cases convert with
  | false => exact ⟨w, hw, hcontents⟩
  | true =>
    refine ⟨w, build_of_isOrdinary hw ?_, hcontents⟩
    rw [← Value.all_isOrdinary_contents, hcontents, Value.all_isOrdinary_contents]
    exact hv

end EventTree

end AnyRpc
