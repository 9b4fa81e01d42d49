import AnyRpc.Library.OrderedMap
import AnyRpc.Value.Copy

/-! # Maps as finite maps

The abstract view of a map is the list of its keys with the contents of their values, in the order of
insertion. The lookups by a `std::string` read the key as a C string and the insertions do not, so a
map is a finite map in the runs whose keys have no null byte (`MapOp.isFiniteMap`). -/

namespace AnyRpc

open Library OrderedMap

namespace Value

/-! ## Insertions -/

/-- `AddMember(str, length, value)`, and `AddMember(str, value)` for a `std::string`: a member with a
copy of the value. -/
def addMemberValue (str : StrArg) (value : Value) : Exec Value ℕ := do
  addMemberCheckCapacity
  checkTerminated str
  match copyInternal value with
  | .ok w =>
    match ← get with
    | map ms c =>
      set (map (ms ++ [(str.bytes, w)]) c)
      return ms.length
    | _ => return 0
  | .error fault => throw fault

/-- The assignment of a value to the member that a reference stands for. -/
def assignMember (i : ℕ) (value : Value) : Exec Value Unit := do
  modify fun v => v.setChild i invalid
  match copyInternal value with
  | .ok w => modify fun v => v.setChild i w
  | .error fault => throw fault

/-- The members of a map stand for the entries of a finite map. -/
structure MapOf (ms : List (Bytes × Value)) (c : ℕ) (l : List (Bytes × Value)) : Prop where
  entries : ms.map (Prod.map id contents) = l
  size : ms.length ≤ c
  capacity : c ≤ maxMapCapacity

/-- A value stands for a finite map; before the first insertion it is invalid. -/
def IsMapOf (v : Value) (l : List (Bytes × Value)) : Prop :=
  v = invalid ∧ l = [] ∨ ∃ ms c, v = map ms c ∧ MapOf ms c l

section

variable {ms l : List (Bytes × Value)} {c : ℕ} {v : Value} {k : Bytes}

theorem MapOf.keys_eq (h : MapOf ms c l) : keys ms = keys l := by
  rw [← h.entries, keys, keys, List.map_map]
  rfl

theorem MapOf.length_eq (h : MapOf ms c l) : ms.length = l.length := by
  rw [← h.entries, List.length_map]

/-- The search finds the keys that are there. -/
theorem memberIndex_eq_none_iff : memberIndex k ms = none ↔ k ∉ keys ms := by
  rw [memberIndex_eq_none, keys, List.mem_map]
  constructor
  · rintro h ⟨m, hm, rfl⟩
    exact h m hm rfl
  · intro h m hm hkey
    exact h ⟨m, hm, hkey⟩

/-- Putting a key that is there is setting the member that the search finds. -/
theorem put_of_memberIndex {i : ℕ} (h : memberIndex k ms = some i) (x : Value) :
    map (put k x ms) c = (map ms c).setChild i x := by
  simp only [setChild, map.injEq, and_true]
  induction ms generalizing i with
  | nil => cases h
  | cons m ms ih =>
    rw [memberIndex, List.findIdx?_cons] at h
    rw [put]
    by_cases hm : m.1 = k
    · simp only [hm, decide_true, if_true, Option.some.injEq] at h
      rw [if_pos hm, ← h, List.modify_zero_cons]
    · simp only [hm, decide_false, Bool.false_eq_true, if_false] at h
      obtain ⟨j, hj, rfl⟩ := Option.map_eq_some_iff.mp h
      rw [if_neg hm, List.modify_succ_cons, ih hj]

/-- The entries after a member is put. -/
theorem MapOf.put (h : MapOf ms c l) (hk : k ∈ keys l) (x : Value) :
    MapOf (put k x ms) c (OrderedMap.put k x.contents l) := by
  refine ⟨by rw [map_put, h.entries], ?_, h.capacity⟩
  have hlen := congrArg List.length (keys_put k x ms)
  rw [insertKey, if_pos (h.keys_eq ▸ hk), keys, keys, List.length_map, List.length_map] at hlen
  rw [hlen]
  exact h.size

/-- The entries after a member is added. -/
theorem MapOf.append (h : MapOf ms c l) (hk : k ∉ keys l) (hroom : ms.length < c) (x : Value) :
    MapOf (ms ++ [(k, x)]) c (OrderedMap.put k x.contents l) := by
  refine ⟨?_, by rw [List.length_append]; exact hroom, h.capacity⟩
  rw [put_of_notMem hk, List.map_append, h.entries]
  rfl

/-- A map below its limit has room for one more member, after it grows if need be. -/
theorem addMemberCheckCapacity_of_mapOf (h : MapOf ms c l) (hlimit : l.length < maxMapCapacity) :
    ∃ c', addMemberCheckCapacity (map ms c) = .ok () (map ms c') ∧ MapOf ms c' l ∧
      ms.length < c' := by
  have hsize := h.length_eq
  by_cases hfull : c ≤ ms.length
  · obtain ⟨hlt, hle⟩ := lt_grownMapCapacity h.capacity hfull h.size (by omega)
    refine ⟨grownMapCapacity c, ?_, ⟨h.entries, hlt.le, hle⟩, hlt⟩
    simp [addMemberCheckCapacity, isInvalid, isMap, hfull, hlt]
  · have hroom := Nat.not_le.mp hfull
    exact ⟨c, addMemberCheckCapacity_of_lt hroom, h, hroom⟩

/-- An invalid value becomes a map when it is given a member. -/
theorem addMemberCheckCapacity_of_isMapOf (h : IsMapOf v l) (hlimit : l.length < maxMapCapacity) :
    ∃ ms c, addMemberCheckCapacity v = .ok () (map ms c) ∧ MapOf ms c l ∧ ms.length < c := by
  rcases h with ⟨rfl, rfl⟩ | ⟨ms, c, rfl, h⟩
  · exact ⟨[], defaultMapCapacity, rfl, ⟨rfl, by decide, by decide⟩, by decide⟩
  · obtain ⟨c', hrun, hms, hroom⟩ := addMemberCheckCapacity_of_mapOf h hlimit
    exact ⟨ms, c', hrun, hms, hroom⟩

/-- A member without a value is added behind the others. -/
theorem addMember_of_isMapOf (h : IsMapOf v l) (hlimit : l.length < maxMapCapacity) (k : Bytes) :
    ∃ ms c, addMember { bytes := k } v = .ok ms.length (map (ms ++ [(k, invalid)]) c) ∧
      MapOf ms c l ∧ ms.length < c := by
  obtain ⟨ms, c, hrun, hms, hroom⟩ := addMemberCheckCapacity_of_isMapOf h hlimit
  exact ⟨ms, c, by rw [addMember, bind_of_ok hrun]; rfl, hms, hroom⟩

/-- A member with a copy of a value is added behind the others. -/
theorem addMemberValue_of_isMapOf (h : IsMapOf v l) (hlimit : l.length < maxMapCapacity)
    (k : Bytes) {x w : Value} (hx : copyInternal x = .ok w) :
    ∃ ms c, addMemberValue { bytes := k } x v = .ok ms.length (map (ms ++ [(k, w)]) c) ∧
      MapOf ms c l ∧ ms.length < c := by
  obtain ⟨ms, c, hrun, hms, hroom⟩ := addMemberCheckCapacity_of_isMapOf h hlimit
  refine ⟨ms, c, ?_, hms, hroom⟩
  rw [addMemberValue, bind_of_ok hrun, hx]
  rfl

/-- The access to a key that is there. -/
theorem member_of_mem (h : IsMapOf v l) (hnull : (0 : UInt8) ∉ k) (hk : k ∈ keys l) :
    ∃ ms c i, v = map ms c ∧ MapOf ms c l ∧ memberIndex k ms = some i ∧ member k v = .ok i v := by
  rcases h with ⟨rfl, rfl⟩ | ⟨ms, c, rfl, h⟩
  · cases hk
  · cases hi : memberIndex k ms with
    | none => exact absurd (h.keys_eq ▸ hk) (memberIndex_eq_none_iff.mp hi)
    | some i => exact ⟨ms, c, i, rfl, h, hi, member_of_some hnull hi⟩

/-- The access to a key that is not there adds it. -/
theorem member_of_notMem (h : IsMapOf v l) (hnull : (0 : UInt8) ∉ k) (hk : k ∉ keys l) :
    member k v = addMember { bytes := k } v := by
  rcases h with ⟨rfl, rfl⟩ | ⟨ms, c, rfl, h⟩
  · rw [member, bind_of_ok (get_apply _), cString_of_notMem hnull]
    rfl
  · rw [member_map hnull, memberIndex_eq_none_iff.mpr (h.keys_eq ▸ hk)]

/-- A value is assigned to a member that was found. -/
theorem assignMember_of_child {i : ℕ} {x w : Value} (hx : copyInternal x = .ok w) (v : Value) :
    assignMember i x v = .ok () (v.setChild i w) := by
  rw [assignMember, bind_of_ok (modify_apply _ _), hx]
  show EStateM.Result.ok () ((v.setChild i invalid).setChild i w) = _
  rw [setChild_setChild]

end

end Value

/-! ## Operations -/

/-- The operations on a map by keys that are a `std::string`. -/
inductive MapOp where
  /-- `v[k] = x`. -/
  | put (k : Bytes) (x : Value)
  /-- `v.AddMember(k)`. -/
  | add (k : Bytes)
  /-- `v.AddMember(k, x)`. -/
  | addValue (k : Bytes) (x : Value)
  /-- `v[k]`. -/
  | lookup (k : Bytes)

namespace MapOp

def key : MapOp → Bytes
  | put k _ | add k | addValue k _ | lookup k => k

/-- What an operation does. -/
def run : MapOp → Exec Value Unit
  | put k x => do
    let i ← Value.member k
    Value.assignMember i x
  | add k => do let _ ← Value.addMember { bytes := k }
  | addValue k x => do let _ ← Value.addMemberValue { bytes := k } x
  | lookup k => do let _ ← Value.member k

/-- What a sequence of operations does. -/
def runAll : List MapOp → Exec Value Unit
  | [] => pure ()
  | op :: ops => do
    run op
    runAll ops

/-- The finite map after an operation. A key that is only looked up is there from then on. -/
def next (l : List (Bytes × Value)) : MapOp → List (Bytes × Value)
  | put k x | addValue k x => OrderedMap.put k x.contents l
  | add k => OrderedMap.put k .invalid l
  | lookup k => if k ∈ keys l then l else OrderedMap.put k .invalid l

/-- What the last operation on a key has stored. -/
def stored (k : Bytes) (last : Option Value) : MapOp → Option Value
  | put k' x | addValue k' x => if k' = k then some x.contents else last
  | add k' => if k' = k then some .invalid else last
  | lookup k' => if k' = k then some (last.getD .invalid) else last

/-- The value that an operation stores can be copied. -/
def Stores : MapOp → Prop
  | put _ x | addValue _ x => x.Sized ∧ x.KeysTerminated
  | _ => True

/-- The insertions by `AddMember` are of keys that are not yet there. -/
def IsNew (l : List (Bytes × Value)) : MapOp → Prop
  | add k | addValue k _ => k ∉ keys l
  | _ => True

/-- No key has a null byte, in the value that is stored as well, and a map at its limit is given no
new key. -/
structure Meets (op : MapOp) (l : List (Bytes × Value)) : Prop where
  key : (0 : UInt8) ∉ op.key
  stores : op.Stores
  isNew : op.IsNew l
  room : op.key ∉ keys l → l.length < Value.maxMapCapacity

/-- All operations of a sequence meet the condition. -/
def MeetsAll : List MapOp → List (Bytes × Value) → Prop
  | [], _ => True
  | op :: ops, l => op.Meets l ∧ MeetsAll ops (next l op)

section

variable {l : List (Bytes × Value)} {v : Value}

/-- The copy that an operation stores. -/
theorem exists_copy {x : Value} (h : x.Sized ∧ x.KeysTerminated) :
    ∃ w, Value.copyInternal x = .ok w ∧ w.contents = x.contents := by
  obtain ⟨w, hw, hcontents⟩ := Value.copyInternal_ok h.1
  exact ⟨w, hw, hcontents.trans ((Value.cutKeys_eq_contents x).mpr h.2)⟩

/-- One operation does to the members what it does to the finite map. -/
theorem isMapOf_run (op : MapOp) (h : v.IsMapOf l) (hop : op.Meets l) :
    ∃ ms c, op.run v = .ok () (.map ms c) ∧ Value.MapOf ms c (next l op) := by
  obtain ⟨hnull, hstores, hnew, hroom⟩ := hop
  cases op with
  | put k x =>
    obtain ⟨w, hw, hcontents⟩ := exists_copy hstores
    by_cases hk : k ∈ keys l
    · obtain ⟨ms, c, i, rfl, hms, hi, hrun⟩ := Value.member_of_mem (k := k) h hnull hk
      refine ⟨OrderedMap.put k w ms, c, ?_, by rw [next, ← hcontents]; exact hms.put hk w⟩
      rw [run, bind_of_ok hrun, Value.assignMember_of_child hw, Value.put_of_memberIndex hi]
    · obtain ⟨ms, c, hrun, hms, hlt⟩ := Value.addMember_of_isMapOf h (hroom hk) k
      refine ⟨ms ++ [(k, w)], c, ?_, by rw [next, ← hcontents]; exact hms.append hk hlt w⟩
      rw [run, bind_of_ok ((Value.member_of_notMem (k := k) h hnull hk).trans hrun),
        Value.assignMember_of_child hw, Value.setChild_append]
  | add k =>
    obtain ⟨ms, c, hrun, hms, hlt⟩ := Value.addMember_of_isMapOf h (hroom hnew) k
    exact ⟨ms ++ [(k, .invalid)], c, bind_of_ok hrun, hms.append hnew hlt .invalid⟩
  | addValue k x =>
    obtain ⟨w, hw, hcontents⟩ := exists_copy hstores
    obtain ⟨ms, c, hrun, hms, hlt⟩ := Value.addMemberValue_of_isMapOf h (hroom hnew) k hw
    exact ⟨ms ++ [(k, w)], c, bind_of_ok hrun, by
      rw [next, ← hcontents]; exact hms.append hnew hlt w⟩
  | lookup k =>
    by_cases hk : k ∈ keys l
    · obtain ⟨ms, c, i, rfl, hms, hi, hrun⟩ := Value.member_of_mem (k := k) h hnull hk
      exact ⟨ms, c, bind_of_ok hrun, by rw [next, if_pos hk]; exact hms⟩
    · obtain ⟨ms, c, hrun, hms, hlt⟩ := Value.addMember_of_isMapOf h (hroom hk) k
      exact ⟨ms ++ [(k, .invalid)], c,
        bind_of_ok ((Value.member_of_notMem (k := k) h hnull hk).trans hrun), by
          rw [next, if_neg hk]; exact hms.append hk hlt .invalid⟩

/-- A sequence of operations does to the members what it does to the finite map. -/
theorem isMapOf_runAll (ops : List MapOp) :
    ∀ {l : List (Bytes × Value)} {v : Value}, v.IsMapOf l → MeetsAll ops l →
      ∃ v', runAll ops v = .ok () v' ∧ v'.IsMapOf (ops.foldl next l) ∧ (ops ≠ [] →
        ∃ ms c, v' = .map ms c) := by
  induction ops with
  | nil =>
    intro l v h _
    exact ⟨v, rfl, h, fun hne => absurd rfl hne⟩
  | cons op ops ih =>
    intro l v h hops
    obtain ⟨ms, c, hrun, hms⟩ := op.isMapOf_run h hops.1
    obtain ⟨v', hrest, hv', hmap⟩ := ih (.inr ⟨ms, c, rfl, hms⟩) hops.2
    refine ⟨v', by rw [runAll, bind_of_ok hrun, hrest], hv', fun _ => ?_⟩
    by_cases hops' : ops = []
    · subst hops'
      cases hrest
      exact ⟨ms, c, rfl⟩
    · exact hmap hops'

/-! ## Histories -/

/-- The keys after an operation. -/
theorem keys_next (op : MapOp) (l : List (Bytes × Value)) :
    keys (next l op) = insertKey (keys l) op.key := by
  cases op with
  | put | addValue | add => exact keys_put _ _ l
  | lookup k =>
    rw [next]
    split_ifs with hk
    · rw [key, insertKey, if_pos hk]
    · exact keys_put _ _ l

/-- The value of a key after an operation. -/
theorem get?_next (op : MapOp) (k : Bytes) :
    get? k (next l op) = stored k (get? k l) op := by
  have hput (k' : Bytes) (x : Value) :
      get? k (OrderedMap.put k' x l) = if k' = k then some x else get? k l := by
    split_ifs with hk
    · rw [hk, get?_put_self]
    · exact get?_put_of_ne (Ne.symm hk) x l
  cases op with
  | put | addValue | add => exact hput _ _
  | lookup k' =>
    rw [next, stored]
    by_cases hmem : k' ∈ keys l
    · rw [if_pos hmem]
      split_ifs with hk
      · subst hk
        cases hget : get? k' l with
        | none => exact absurd hmem (get?_eq_none.mp hget)
        | some x => rfl
      · rfl
    · rw [if_neg hmem, hput]
      split_ifs with hk
      · rw [← hk, get?_eq_none.mpr hmem]
        rfl
      · rfl

/-- The keys after a sequence of operations are those of the operations, in the order of their first
occurrence. -/
theorem keys_foldl (ops : List MapOp) :
    ∀ l : List (Bytes × Value),
      keys (ops.foldl next l) = (ops.map key).foldl insertKey (keys l) := by
  induction ops with
  | nil => exact fun l => rfl
  | cons op ops ih =>
    intro l
    rw [List.foldl_cons, ih, keys_next, List.map_cons, List.foldl_cons]

/-- The value of a key after a sequence of operations is what was stored for it last. -/
theorem get?_foldl (ops : List MapOp) (k : Bytes) :
    ∀ l : List (Bytes × Value),
      get? k (ops.foldl next l) = ops.foldl (stored k) (get? k l) := by
  induction ops with
  | nil => exact fun l => rfl
  | cons op ops ih =>
    intro l
    rw [List.foldl_cons, ih, get?_next, List.foldl_cons]

/-- The keys of a sequence of operations are distinct. -/
theorem nodup_insertKeys (ks : List Bytes) :
    ∀ {done : List Bytes}, done.Nodup → (ks.foldl insertKey done).Nodup := by
  induction ks with
  | nil => exact fun h => h
  | cons k ks ih => exact fun h => ih (nodup_insertKey h k)

/-- A key is one of those of a sequence of operations when one of them has it. -/
theorem mem_insertKeys {k : Bytes} (ks : List Bytes) :
    ∀ done : List Bytes, k ∈ ks.foldl insertKey done ↔ k ∈ done ∨ k ∈ ks := by
  induction ks with
  | nil => exact fun done => by simp
  | cons k' ks ih =>
    intro done
    have hinsert : k ∈ insertKey done k' ↔ k ∈ done ∨ k = k' := by
      rw [insertKey]
      split_ifs with h
      · exact ⟨.inl, fun hk => hk.elim id fun heq => heq ▸ h⟩
      · simp
    rw [List.foldl_cons, ih, hinsert, List.mem_cons, or_assoc]

end

end MapOp

end AnyRpc
