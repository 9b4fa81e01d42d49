import AnyRpc.Library.Memory
import AnyRpc.Value.Members

/-! # Copies

What a deep copy has in common with the value that is copied. The keys are copied as C strings, so a
copy is structurally equal exactly when no key has a null byte (`CopyOp.copies_iff`). -/

namespace AnyRpc

open Library

/-! ## Strings -/

/-- The storage of a string or a binary: inside the value, allocated for it, or referenced. -/
inductive StringData where
  /-- `ShortString`: its last byte tells how much of it is not used. -/
  | inline (str : Bytes)
  | allocated (str : Bytes) (length : ℕ)
  | referenced (str : Bytes) (length : ℕ)
  deriving Repr

namespace StringData

/-- `ShortString::MaxSize`, with pointers and sizes of 64 bits. -/
def maxSize : ℕ := 15

/-- `GetString` and `GetBinary`, as the memory that the pointer leads to. -/
def str : StringData → Bytes
  | inline str => str
  | allocated str _ => str
  | referenced str _ => str

/-- `GetStringLength` and `GetBinaryLength`. -/
def length : StringData → ℕ
  | inline str => maxSize - (str.getD maxSize 0).toNat
  | allocated _ length => length
  | referenced _ length => length

/-- The string or the binary. -/
def bytes (d : StringData) : Bytes := d.str.take d.length

/-- The length is that of memory which is there. -/
def Wf (d : StringData) : Prop := d.length ≤ d.str.length

/-- `CopyString(s, length)`, onto data that is not initialized. -/
def copyString (data s : Bytes) (length : ℕ) : StringData :=
  if length ≤ maxSize then
    let str := data.set maxSize (.ofNat (maxSize - length))
    inline ((overwrite str 0 (s.take length)).set length 0)
  else
    allocated (s.take length ++ [0]) length

/-- `CopyBinary(s, length)`. -/
def copyBinary (data s : Bytes) (length : ℕ) : StringData :=
  if length ≤ maxSize then
    let str := data.set maxSize (.ofNat (maxSize - length))
    inline (overwrite str 0 (s.take length))
  else
    allocated (s.take length) length

variable {data s : Bytes} {n : ℕ}

/-- What is written into the value itself is read back from there. -/
theorem inline_overwrite (hdata : data.length = maxSize + 1) (hn : n ≤ maxSize) (hs : n ≤ s.length) :
    let str := overwrite (data.set maxSize (.ofNat (maxSize - n))) 0 (s.take n)
    str.length = maxSize + 1 ∧ str.take n = s.take n ∧ str[maxSize]? = some (.ofNat (maxSize - n)) := by
  intro str
  have hlen : (s.take n).length = n := List.length_take_of_le hs
  have hset : (data.set maxSize (.ofNat (maxSize - n))).length = maxSize + 1 := by
    rw [List.length_set, hdata]
  refine ⟨?_, ?_, ?_⟩
  · rw [length_overwrite (by omega), hset]
  · have htake := take_overwrite (m := data.set maxSize (.ofNat (maxSize - n))) (l := s.take n)
      (i := 0) (by omega)
    rwa [hlen, Nat.zero_add, List.take_zero, List.nil_append] at htake
  · have hbehind : (s.take n).length ≤ maxSize := by omega
    simp only [str, overwrite, List.take_zero, List.nil_append, Nat.zero_add]
    rw [List.getElem?_append_right hbehind, List.getElem?_drop, Nat.add_sub_cancel' hbehind,
      List.getElem?_set_self (by omega)]

/-- The length that the last byte of a short string tells. -/
theorem length_inline {str : Bytes} (hn : n ≤ maxSize)
    (h : str[maxSize]? = some (.ofNat (maxSize - n))) : (inline str).length = n := by
  have hsmall : (UInt8.ofNat (maxSize - n)).toNat = maxSize - n := by
    rw [maxSize] at hn ⊢
    exact UInt8.toNat_ofNat_of_lt' (show 15 - n < 2 ^ 8 by omega)
  rw [length, List.getD_eq_getElem?_getD, h, Option.getD_some, hsmall]
  omega

/-- A copied string has the bytes that it is made of, and its length is within its memory. -/
theorem bytes_copyString (hdata : data.length = maxSize + 1) (hs : n ≤ s.length) :
    (copyString data s n).bytes = s.take n ∧ (copyString data s n).Wf := by
  by_cases hn : n ≤ maxSize
  · obtain ⟨hlen, htake, hlast⟩ := inline_overwrite hdata hn hs
    simp only [copyString, if_pos hn]
    generalize overwrite (data.set maxSize (.ofNat (maxSize - n))) 0 (s.take n) = str at *
    -- The terminator of a string of the greatest length is its last byte as well.
    have hlast' : (str.set n 0)[maxSize]? = some (.ofNat (maxSize - n)) := by
      by_cases hmax : n = maxSize
      · rw [hmax, List.getElem?_set_self (by omega), Nat.sub_self]
        rfl
      · rw [List.getElem?_set_ne hmax, hlast]
    have hlength := length_inline hn hlast'
    refine ⟨?_, ?_⟩
    · rw [bytes, hlength, StringData.str, List.take_set_of_le le_rfl, htake]
    · rw [Wf, hlength, StringData.str, List.length_set]
      omega
  · have hlen : (s.take n).length = n := List.length_take_of_le hs
    rw [copyString, if_neg hn]
    refine ⟨?_, ?_⟩
    · show (s.take n ++ [0]).take n = s.take n
      rw [List.take_append_of_le_length hlen.ge, List.take_take, Nat.min_self]
    · show n ≤ (s.take n ++ [0]).length
      rw [List.length_append, hlen]
      omega

/-- A copied binary has the bytes that it is made of, and its length is within its memory. -/
theorem bytes_copyBinary (hdata : data.length = maxSize + 1) (hs : n ≤ s.length) :
    (copyBinary data s n).bytes = s.take n ∧ (copyBinary data s n).Wf := by
  by_cases hn : n ≤ maxSize
  · obtain ⟨hlen, htake, hlast⟩ := inline_overwrite hdata hn hs
    simp only [copyBinary, if_pos hn]
    have hlength := length_inline hn hlast
    refine ⟨?_, ?_⟩
    · rw [bytes, hlength, StringData.str, htake]
    · rw [Wf, hlength, StringData.str, hlen]
      omega
  · have hlen : (s.take n).length = n := List.length_take_of_le hs
    rw [copyBinary, if_neg hn]
    refine ⟨?_, hlen.ge⟩
    show (s.take n).take n = s.take n
    rw [List.take_take, Nat.min_self]

end StringData

/-! ## Deep copies -/

namespace Value

/-- No key in the value has a null byte. -/
def KeysTerminated (v : Value) : Prop :=
  v.All fun
    | map ms _ => ∀ m ∈ ms, (0 : UInt8) ∉ m.1
    | _ => True

mutual

/-- The contents of a value, with every key up to its first null byte. -/
def cutKeys : Value → Value
  | map ms _ => map (cutKeysMembers ms) 0
  | array es _ => array (cutKeysElements es) 0
  | v => v

/-- `cutKeys` over the elements of an array. -/
def cutKeysElements : List Value → List Value
  | [] => []
  | v :: vs => v.cutKeys :: cutKeysElements vs

/-- `cutKeys` over the members of a map. -/
def cutKeysMembers : List (Bytes × Value) → List (Bytes × Value)
  | [] => []
  | (k, v) :: ms => (cString k, v.cutKeys) :: cutKeysMembers ms

end

theorem cutKeysElements_eq (es : List Value) : cutKeysElements es = es.map cutKeys := by
  induction es with
  | nil => rfl
  | cons e es ih => simp [cutKeysElements, ih]

theorem cutKeysMembers_eq (ms : List (Bytes × Value)) :
    cutKeysMembers ms = ms.map fun m => (cString m.1, m.2.cutKeys) := by
  induction ms with
  | nil => rfl
  | cons m ms ih => simp [cutKeysMembers, ih]

/-- The contents are kept exactly where no key has a null byte. -/
theorem cutKeys_eq_contents (v : Value) : v.cutKeys = v.contents ↔ v.KeysTerminated := by
  induction v using Value.induction with
  | map ms c ih =>
    rw [cutKeys, cutKeysMembers_eq, contents_map, KeysTerminated, all_map]
    simp only [map.injEq, and_true, List.map_inj_left, Prod.mk.injEq, cString_eq_self]
    constructor
    · intro h
      exact ⟨fun m hm => (h m hm).1, fun m hm => (ih m hm).mp (h m hm).2⟩
    · intro h m hm
      exact ⟨h.1 m hm, (ih m hm).mpr (h.2 m hm)⟩
  | array es c ih =>
    rw [cutKeys, cutKeysElements_eq, contents_array, KeysTerminated, all_array]
    simp only [array.injEq, and_true, List.map_inj_left, true_and]
    exact forall₂_congr ih
  | _ => exact iff_of_true rfl trivial

/-- The copies of elements. -/
theorem copyElements_ok {es : List Value}
    (h : ∀ e ∈ es, ∃ w, copyInternal e = .ok w ∧ w.contents = e.cutKeys) :
    ∃ ws, copyElements es = .ok ws ∧ ws.map contents = es.map cutKeys := by
  induction es with
  | nil => exact ⟨[], rfl, rfl⟩
  | cons e es ih =>
    obtain ⟨w, hw, hcontents⟩ := h e List.mem_cons_self
    obtain ⟨ws, hws, hmap⟩ := ih fun e' he' => h e' (List.mem_cons_of_mem e he')
    refine ⟨w :: ws, ?_, by rw [List.map_cons, List.map_cons, hcontents, hmap]⟩
    rw [copyElements, hw]
    show (do let vs' ← copyElements es; pure (w :: vs')) = _
    rw [hws]
    rfl

/-- The members that are copied so far and the copies of the others. -/
theorem copyMembers_ok {ms : List (Bytes × Value)}
    (h : ∀ m ∈ ms, ∃ w, copyInternal m.2 = .ok w ∧ w.contents = m.2.cutKeys)
    (done : List (Bytes × Value)) {c : ℕ} (hlen : done.length + ms.length ≤ maxMapCapacity)
    (hc : c ≤ maxMapCapacity) (hdone : done.length ≤ c) :
    ∃ ws c', copyMembers ms done c = .ok (map ws c') ∧
      ws.map (fun m => (m.1, m.2.contents)) = done.map (fun m => (m.1, m.2.contents)) ++
        ms.map fun m => (cString m.1, m.2.cutKeys) := by
  induction ms generalizing done c with
  | nil => exact ⟨done, c, rfl, by simp⟩
  | cons m ms ih =>
    obtain ⟨k, v⟩ := m
    obtain ⟨w, hw, hcontents⟩ := h (k, v) List.mem_cons_self
    rw [List.length_cons] at hlen
    have hroom : done.length < (if c ≤ done.length then grownMapCapacity c else c) ∧
        (if c ≤ done.length then grownMapCapacity c else c) ≤ maxMapCapacity := by
      by_cases hfull : c ≤ done.length
      · rw [if_pos hfull]
        exact lt_grownMapCapacity hc hfull hdone (by omega)
      · rw [if_neg hfull]
        exact ⟨Nat.not_le.mp hfull, hc⟩
    have hlen' : (done ++ [(cString k, w)]).length = done.length + 1 := by simp
    obtain ⟨ws, c', hrun, hmap⟩ := ih (fun m hm => h m (List.mem_cons_of_mem _ hm))
      (done ++ [(cString k, w)]) (by omega) hroom.2 (by omega)
    refine ⟨ws, c', ?_, ?_⟩
    · simp only at hw
      simp only [copyMembers, hroom.1, if_true, hw]
      exact hrun
    · rw [hmap]
      simp [hcontents]

/-- A copy has the contents of what is copied, with every key up to its first null byte. -/
theorem copyInternal_ok {v : Value} (h : v.Sized) :
    ∃ w, copyInternal v = .ok w ∧ w.contents = v.cutKeys := by
  induction v using Value.induction with
  | map ms c ih =>
    obtain ⟨⟨hle, hmax⟩, hms⟩ := all_map.mp h
    obtain ⟨ws, c', hrun, hmap⟩ := copyMembers_ok (fun m hm => ih m hm (hms m hm)) [] (c := 0)
      (by rw [List.length_nil]; omega) (by decide) le_rfl
    refine ⟨map ws c', by rw [copyInternal, hrun], ?_⟩
    rw [contents_map, hmap, cutKeys, cutKeysMembers_eq]
    rfl
  | array es c ih =>
    obtain ⟨⟨hle, hmax⟩, hes⟩ := all_array.mp h
    obtain ⟨ws, hrun, hmap⟩ := copyElements_ok fun e he => ih e he (hes e he)
    refine ⟨array ws es.length, ?_, ?_⟩
    · rw [copyInternal, hrun, if_pos (by omega)]
      rfl
    · rw [contents_array, hmap, cutKeys, cutKeysElements_eq]
  | _ => exact ⟨_, rfl, rfl⟩

/-- `CopyInternal(value)`, onto a value without data. What is copied is a constant. -/
def copyFrom (value : Value) : Exec Value Unit :=
  match copyInternal value with
  | .ok w => set w
  | .error fault => throw fault

end Value

/-- The ways to copy a value onto another one. -/
inductive CopyOp where
  /-- `Value(const Value& rhs)`. -/
  | construct
  /-- `operator=(const Value& rhs)`. -/
  | assign
  /-- `Copy(const Value& value)`. -/
  | copy
  deriving DecidableEq

namespace CopyOp

/-- What a copy does to the value that it is made onto. -/
def run (rhs : Value) : CopyOp → Exec Value Unit
  | construct => do
    set Value.invalid
    Value.copyFrom rhs
  | assign => do
    set Value.invalid
    Value.copyFrom rhs
  | copy => Value.copyFrom rhs

/-- `Copy` destroys nothing: it is for a value without data. -/
def IsFor (op : CopyOp) (target : Value) : Prop := op = copy → target = .invalid

/-- Every way to copy gives a value that is structurally equal. -/
def Copies (v : Value) : Prop :=
  ∀ (op : CopyOp) (target : Value), op.IsFor target →
    ∃ w, op.run v target = .ok () w ∧ w.contents = v.contents

/-- All ways to copy give the deep copy. -/
theorem run_eq (v : Value) {op : CopyOp} {target : Value} (h : op.IsFor target) :
    op.run v target = Value.copyFrom v .invalid := by
  cases op with
  | construct | assign => rfl
  | copy => rw [run, h rfl]

/-- A copy is structurally equal to the value, with its keys in order and byte for byte, exactly
when no key in it has a null byte. The bytes of strings and binaries are copied from any storage to
any other. -/
theorem copies_iff {v : Value} (h : v.Sized) :
    (Copies v ↔ v.KeysTerminated) ∧
      ∀ (data : Bytes) (d : StringData), data.length = StringData.maxSize + 1 → d.Wf →
        (StringData.copyString data d.str d.length).bytes = d.bytes ∧
          (StringData.copyBinary data d.str d.length).bytes = d.bytes := by
  obtain ⟨w, hcopy, hcontents⟩ := Value.copyInternal_ok h
  have hfrom : Value.copyFrom v .invalid = .ok () w := by
    rw [Value.copyFrom, hcopy]
    rfl
  refine ⟨?_, fun data d hdata hd =>
    ⟨(StringData.bytes_copyString hdata hd).1, (StringData.bytes_copyBinary hdata hd).1⟩⟩
  rw [← Value.cutKeys_eq_contents]
  constructor
  · intro hcopies
    obtain ⟨w', hrun, hequal⟩ := hcopies construct .invalid (fun _ => rfl)
    rw [run_eq v fun _ => rfl, hfrom] at hrun
    cases hrun
    rw [← hcontents, hequal]
  · intro hcut op target hfor
    exact ⟨w, by rw [run_eq v hfor, hfrom], by rw [hcontents, hcut]⟩

/-- A map with a key of three bytes, of which the second one is null. -/
def nullKey : Value := .map [([0x61, 0, 0x62], .null)] 16

/-- A copy of nested containers without such a key. -/
theorem copies_nested : Copies (.array [.map [([0x61], .binary [0, 1])] 16, .invalid] 2) :=
  (copies_iff (by
    simp [Value.Sized, Value.All, Value.AllElements, Value.AllMembers, Value.maxArrayCapacity,
      Value.maxMapCapacity])).1.mpr (by
    simp [Value.KeysTerminated, Value.All, Value.AllElements, Value.AllMembers])

/-- The key of the copy ends at the null byte. -/
theorem not_copies_nullKey : ¬ Copies nullKey := by
  intro h
  obtain ⟨w, hrun, hcontents⟩ := h construct .invalid fun _ => rfl
  have hcopy : construct.run nullKey .invalid = .ok () (.map [([0x61], .null)] 16) := rfl
  rw [hcopy] at hrun
  cases hrun
  rw [nullKey, Value.contents_map, Value.contents_map] at hcontents
  simp at hcontents

end CopyOp

end AnyRpc
