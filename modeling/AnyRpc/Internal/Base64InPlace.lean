import AnyRpc.Internal.Base64Stream

/-! # Base64 in place

`Base64Decode` on memory with both of its pointers into one buffer, which is how a string is converted
(`dest` is `src`): the bytes that are decoded take the place of the text. The decoder on lists keeps
them apart, which is right as long as no store reaches a character that is still to be read. -/

namespace AnyRpc.Internal

/-- A buffer with the positions of the two pointers. -/
structure Base64Buffer where
  memory : Bytes
  src : ℕ := 0
  dest : ℕ := 0
  deriving DecidableEq, Repr

namespace Base64Buffer

/-- `*src++`. -/
def next (s : Base64Buffer) : UInt8 × Base64Buffer :=
  (s.memory.getD s.src 0, { s with src := s.src + 1 })

/-- `*dest++ = b`. The source does not look where `src` is: here a store that would reach a character
that is still to be read fails. -/
def store (s : Base64Buffer) (b : UInt8) : Option Base64Buffer :=
  if s.dest < s.src then some { s with memory := s.memory.set s.dest b, dest := s.dest + 1 }
  else none

/-- One store after the other. -/
def storeAll (s : Base64Buffer) (bytes : Bytes) : Option Base64Buffer := bytes.foldlM store s

end Base64Buffer

open Base64Buffer

/-- The end of `Base64Decode`, `n` being `srcEnd - src`: the number of bytes, with the memory. -/
def base64FinishInPlace (n : ℕ) (s : Base64Buffer) : ℕ × Bytes :=
  (if n = 0 then s.dest else 0, s.memory)

/-- What `Base64Decode` does at a pad character. -/
def base64DecodePadInPlace (n : ℕ) (s : Base64Buffer) : List ℕ → Option (ℕ × Bytes)
  | [data0, data1] =>
    match n with
    | 0 => (s.store (UInt8.ofNat ((data0 <<< 2) + (data1 >>> 4)))).map (base64FinishInPlace 0)
    | n + 1 =>
      if base64Value s.next.1 = base64Pad then
        (s.next.2.store (UInt8.ofNat ((data0 <<< 2) + (data1 >>> 4)))).map (base64FinishInPlace n)
      else some (0, s.memory)
  | [data0, data1, data2] =>
    (s.storeAll [UInt8.ofNat ((data0 <<< 2) + (data1 >>> 4)),
      UInt8.ofNat (((data1 &&& 0x0f) <<< 4) + (data2 >>> 2))]).map (base64FinishInPlace n)
  | _ => some (0, s.memory)

/-- `Base64Decode(dest, src, srcLength)`, with `srcEnd - src` and the sextets of the current quantum:
the number of bytes that it returns, with the memory that it leaves. -/
def base64DecodeInPlace : ℕ → List ℕ → Base64Buffer → Option (ℕ × Bytes)
  | 0, _, s => some (base64FinishInPlace 0 s)
  | n + 1, data, s =>
    let d := base64Value s.next.1
    if d = base64Ignore then base64DecodeInPlace n data s.next.2
    else if d = base64Pad then base64DecodePadInPlace n s.next.2 data
    else (s.next.2.storeAll (base64Sextet d data).2).bind
      (base64DecodeInPlace n (base64Sextet d data).1)

/-! ## One step -/

/-- The buffer holds what is decoded, then what is read already, then what is still to be read. -/
structure Placed (s : Base64Buffer) (out gap rest : Bytes) : Prop where
  memory : s.memory = out ++ (gap ++ rest)
  src : s.src = out.length + gap.length
  dest : s.dest = out.length

section

variable {s : Base64Buffer} {out gap rest : Bytes}

/-- Reading moves a character to the gap. -/
theorem Placed.next {c : UInt8} (h : Placed s out gap (c :: rest)) :
    s.next.1 = c ∧ Placed s.next.2 out (gap ++ [c]) rest := by
  obtain ⟨memory, src, dest⟩ := s
  obtain ⟨rfl, rfl, rfl⟩ := h
  refine ⟨?_, ?_, ?_, rfl⟩
  · simp [Base64Buffer.next, List.getD]
  · simp [Base64Buffer.next]
  · simp [Base64Buffer.next, Nat.add_assoc]

/-- A store takes a place in the gap. -/
theorem Placed.store {g : UInt8} (h : Placed s out (g :: gap) rest) (b : UInt8) :
    ∃ s', s.store b = some s' ∧ Placed s' (out ++ [b]) gap rest := by
  obtain ⟨memory, src, dest⟩ := s
  obtain ⟨rfl, rfl, rfl⟩ := h
  have hlt : out.length < out.length + (g :: gap).length := by simp
  refine ⟨_, if_pos hlt, ?_, ?_, ?_⟩
  · simp
  · simp [Nat.add_comm, Nat.add_left_comm]
  · simp

/-- As many stores as the gap has places for. -/
theorem Placed.storeAll (bytes : Bytes) (h : Placed s out gap rest)
    (hlength : bytes.length ≤ gap.length) :
    ∃ s', s.storeAll bytes = some s' ∧
      Placed s' (out ++ bytes) (gap.drop bytes.length) rest := by
  induction bytes generalizing s out gap with
  | nil => exact ⟨s, rfl, by simpa using h⟩
  | cons b bytes ih =>
    cases gap with
    | nil => simp at hlength
    | cons g gap =>
      obtain ⟨s₁, hstore, hplaced⟩ := h.store b
      obtain ⟨s₂, hstores, hplaced'⟩ := ih hplaced (Nat.le_of_succ_le_succ hlength)
      refine ⟨s₂, ?_, by simpa using hplaced'⟩
      rw [Base64Buffer.storeAll, List.foldlM_cons, hstore]
      exact hstores

end

/-! ## Runs -/

/-- A run that returns with some bytes at the start of the memory, and what stands behind the text left
as it was. -/
def DecodedInPlace (r : Option (ℕ × Bytes)) (bytes after : Bytes) : Prop :=
  ∃ gap, r = some (bytes.length, bytes ++ (gap ++ after))

section

variable {s : Base64Buffer} {out gap after : Bytes} {text : Bytes}

/-- A failure returns zero. -/
theorem Placed.refused (h : Placed s out gap (text ++ after)) :
    DecodedInPlace (some (0, s.memory)) [] after := by
  refine ⟨out ++ (gap ++ text), ?_⟩
  rw [h.memory]
  simp

theorem Placed.finish (h : Placed s out gap (text ++ after)) :
    DecodedInPlace (some (base64FinishInPlace text.length s)) (base64Finish text out) after := by
  rw [base64FinishInPlace]
  cases text with
  | nil =>
    rw [List.length_nil, if_pos rfl, h.dest, h.memory, base64Finish, if_pos rfl]
    exact ⟨gap, rfl⟩
  | cons c text => exact h.refused

theorem Placed.pad (h : Placed s out gap (text ++ after)) {data : List ℕ}
    (hdata : data.length ≤ gap.length) :
    DecodedInPlace (base64DecodePadInPlace text.length s data) (base64DecodePad text out data)
      after := by
  match data, hdata with
  | [], _ => exact h.refused
  | [_], _ => exact h.refused
  | [data0, data1], hdata =>
    obtain ⟨g, gap, rfl⟩ := List.exists_cons_of_length_pos (Nat.lt_of_lt_of_le Nat.two_pos hdata)
    cases text with
    | nil =>
      obtain ⟨s', hstore, hplaced⟩ := h.store (UInt8.ofNat ((data0 <<< 2) + (data1 >>> 4)))
      have hfinish := hplaced.finish
      rw [List.length_nil, base64DecodePadInPlace, hstore]
      exact hfinish
    | cons c text =>
      obtain ⟨hc, hnext⟩ := Placed.next h
      rw [List.length_cons, base64DecodePadInPlace, hc, base64DecodePad]
      by_cases hpad : base64Value c = base64Pad
      · obtain ⟨s', hstore, hplaced⟩ :=
          hnext.store (UInt8.ofNat ((data0 <<< 2) + (data1 >>> 4)))
        rw [if_pos hpad, if_pos hpad, hstore]
        exact hplaced.finish
      · rw [if_neg hpad, if_neg hpad]
        exact h.refused
  | [data0, data1, data2], hdata =>
    have htwo : 2 ≤ gap.length := Nat.le_of_succ_le hdata
    obtain ⟨s', hstore, hplaced⟩ := h.storeAll [UInt8.ofNat ((data0 <<< 2) + (data1 >>> 4)),
      UInt8.ofNat (((data1 &&& 0x0f) <<< 4) + (data2 >>> 2))] htwo
    rw [base64DecodePadInPlace, hstore]
    exact hplaced.finish
  | _ :: _ :: _ :: _ :: _, _ => exact h.refused

/-- As long as the gap is no shorter than the current quantum there is room for every store, so the
decoder works on one buffer as it does on lists. -/
theorem Placed.decode (h : Placed s out gap (text ++ after)) {data : List ℕ}
    (hdata : data.length ≤ gap.length) :
    DecodedInPlace (base64DecodeInPlace text.length data s) (base64DecodeLoop text data out)
      after := by
  induction text generalizing s out gap data with
  | nil =>
    have hfinish := h.finish
    rw [List.length_nil, base64DecodeInPlace, base64DecodeLoop]
    exact hfinish
  | cons c text ih =>
    obtain ⟨hc, hnext⟩ := Placed.next h
    have hroom : data.length + 1 ≤ (gap ++ [c]).length := by simpa using hdata
    rw [List.length_cons, base64DecodeInPlace, base64DecodeLoop, hc]
    by_cases hignore : base64Value c = base64Ignore
    · simp only [if_pos hignore]
      exact ih hnext (by omega)
    · simp only [if_neg hignore]
      by_cases hpad : base64Value c = base64Pad
      · simp only [if_pos hpad]
        exact hnext.pad (by omega)
      · simp only [if_neg hpad]
        have hsextet := base64Sextet_le (base64Value c) data
        obtain ⟨s', hstore, hplaced⟩ := hnext.storeAll
          (base64Sextet (base64Value c) data).2 (by omega)
        rw [hstore]
        exact ih hplaced (by rw [List.length_drop]; omega)

end

/-- Converting a string in place, whatever stands behind it in memory. -/
theorem base64DecodeInPlace_eq (src after : Bytes) :
    DecodedInPlace (base64DecodeInPlace src.length [] { memory := src ++ after }) (base64Decode src)
      after := by
  have hplaced : Placed { memory := src ++ after } [] [] (src ++ after) := ⟨rfl, rfl, rfl⟩
  exact hplaced.decode (Nat.le_refl 0)

/-- What was encoded is decoded from a stream up to the terminator, and in place without a store to a
character that is still to be read. -/
theorem base64_decodes (b rest after : Bytes) :
    base64DecodeStream 0x3c (base64Encode b ++ 0x3c :: rest) [] [] = (true, b, 0x3c :: rest) ∧
      ∃ memory, base64DecodeInPlace (base64Encode b).length []
          { memory := base64Encode b ++ after } = some (b.length, memory) ∧
        memory.take b.length = b := by
  refine ⟨base64DecodeStream_base64Encode b rest, ?_⟩
  obtain ⟨gap, hgap⟩ := base64DecodeInPlace_eq (base64Encode b) after
  rw [base64Decode_base64Encode] at hgap
  exact ⟨_, hgap, List.take_left⟩

end AnyRpc.Internal
