import AnyRpc.MessagePack.Integer
import AnyRpc.MessagePack.Sound
import Mathlib.Tactic.IntervalCases

/-! # Reading what the MessagePack writer writes

For each form in which the writer writes a value or a key, the reader makes the call for it and
leaves the bytes after it to be read. -/

namespace AnyRpc.MessagePackReader

open Library Reader MessagePack

/-- A part of the reader returns, with the calls `es` made and `r` left to be read. -/
def Returns (p : ReadM Unit) (s : State) (es : List Event) (ahead : Bool) (r : Bytes) : Prop :=
  ∃ s', p s = .ok () s' ∧ Step s s' es ∧ Left ahead s' r

/-- A part of the reader does what another one does once the bytes before `r` are consumed. -/
def Leads (p : ReadM Unit) (s : State) (q : ReadM Unit) (r : Bytes) : Prop :=
  ∃ s', p s = q s' ∧ Step s s' [] ∧ s'.is.region = none ∧ s'.is.rest = r

section

variable {p : ReadM Unit} {s : State} {es fs : List Event} {ahead ahead' : Bool} {r r' : Bytes}

/-- A part that does what another one does from a state with the same calls. -/
theorem Returns.of_eq {q : ReadM Unit} {s' : State} (hrun : p s = q s') (hstep : Step s s' [])
    (h : Returns q s' es ahead r) : Returns p s es ahead r := by
  obtain ⟨s'', hq, hstep', hleft⟩ := h
  exact ⟨s'', hrun.trans hq, hstep.trans hstep', hleft⟩

/-- One part after another. -/
theorem Returns.seq {q : ReadM Unit} (hp : Returns p s es ahead r)
    (hq : ∀ s', Step s s' es → Left ahead s' r → Returns q s' fs ahead' r') :
    Returns (do p; q) s (es ++ fs) ahead' r' := by
  obtain ⟨s', hp, hstep, hleft⟩ := hp
  obtain ⟨s'', hq, hstep', hleft'⟩ := hq s' hstep hleft
  exact ⟨s'', by rw [bind_of_ok hp, hq], hstep.trans hstep', hleft'⟩

/-- A call of the handler. -/
theorem returns_call (e : Event) (h : Left ahead s r) : Returns (call e) s [e] ahead r :=
  ⟨_, call_apply s e, ⟨rfl, rfl, rfl, events_of_calls rfl⟩, h⟩

/-- The separator after all but the last part. -/
theorem returns_separator (n : ℕ) (e : Event) (h : Left ahead s r) :
    Returns (if n ≠ 0 then call e else pure ()) s (if n ≠ 0 then [e] else []) ahead r := by
  split_ifs
  · exact returns_call e h
  · exact ⟨s, rfl, Step.refl s, h⟩

/-- The start of a container leaves no token. -/
theorem returns_start (e : Event) (hregion : s.is.region = none) (hrest : s.is.rest = r) :
    Returns (do resetToken; call e) s [e] false r :=
  ⟨_, rfl, ⟨rfl, rfl, rfl, events_of_calls rfl⟩, hregion, rfl, hrest⟩

theorem Leads.trans {q q' : ReadM Unit} (h : Leads p s q r')
    (hq : ∀ s', s'.is.region = none → s'.is.rest = r' → Leads q s' q' r) : Leads p s q' r := by
  obtain ⟨s', hrun, hstep, hregion, hrest⟩ := h
  obtain ⟨s'', hrun', hstep', hregion', hrest'⟩ := hq s' hregion hrest
  exact ⟨s'', hrun.trans hrun', hstep.trans hstep', hregion', hrest'⟩

/-- `ParseStream` goes by the token. -/
theorem parse_leads {b : UInt8} {body : Bytes} {q : ReadM Unit} {depth : ℕ}
    (h : Left ahead s (b :: body))
    (hlookup : ∀ s', s'.is.region = none → s'.sub.token = b → s'.is.rest = body →
      Leads (parseLookup (parse depth) b) s' q r) :
    Leads (parse (depth + 1)) s q r := by
  obtain ⟨s', hrun, hstep, hregion, hsub, hrest⟩ := parse_of_cons h depth
  obtain ⟨s'', hrun', hstep', hregion', hrest'⟩ := hlookup s' hregion (by rw [hsub]) hrest
  exact ⟨s'', hrun.trans hrun', hstep.trans hstep', hregion', hrest'⟩

/-- `ParseStream` goes by the token. -/
theorem parse_of_token {b : UInt8} {body : Bytes} {depth : ℕ} (h : Left ahead s (b :: body))
    (hlookup : ∀ s', s'.is.region = none → s'.sub.token = b → s'.is.rest = body →
      Returns (parseLookup (parse depth) b) s' es ahead' r) :
    Returns (parse (depth + 1)) s es ahead' r := by
  obtain ⟨s', hrun, hstep, hregion, hsub, hrest⟩ := parse_of_cons h depth
  exact .of_eq hrun hstep (hlookup s' hregion (by rw [hsub]) hrest)

end

/-! ## Bytes -/

section

variable {s : State} {xs r : Bytes} (hregion : s.is.region = none)

include hregion

/-- A scalar that is read from a number of bytes. -/
theorem scalar_readAll_append (f : Bytes → Scalar) (hrest : s.is.rest = xs ++ r) :
    Returns (do scalar (f (← readAll xs.length))) s [.scalar (f xs)] false r := by
  rcases scalar_readAll_cases xs.length f hregion with ⟨-, s', hrun, hstep, hleft⟩ | ⟨hlt, -⟩
  · rw [hrest, List.take_left] at hstep
    rw [hrest, List.drop_left] at hleft
    exact ⟨s', hrun, hstep, hleft⟩
  · rw [hrest, List.length_append] at hlt
    omega

/-- A scalar that is read from a big endian number. -/
theorem scalar_bigEndian {k n : ℕ} (f : ℕ → Scalar) (hrest : s.is.rest = bigEndian k n ++ r) :
    Returns (do scalar (f (ofBigEndian (← readAll k)))) s [.scalar (f (n % 256 ^ k))] false r := by
  have h := scalar_readAll_append hregion (fun str => f (ofBigEndian str)) hrest
  rw [ofBigEndian_bigEndian, length_bigEndian] at h
  exact h

/-- A scalar that is read from one byte. -/
theorem scalar_getByte_cons {b : UInt8} (f : UInt8 → Scalar) (hrest : s.is.rest = b :: r) :
    Returns (do scalar (f (← getByte))) s [.scalar (f b)] false r := by
  rcases scalar_getByte_cases f hregion with ⟨b', r', hrest', s', hrun, hstep, hleft⟩ | ⟨hnil, -⟩
  · rw [hrest] at hrest'
    cases hrest'
    exact ⟨s', hrun, hstep, hleft⟩
  · rw [hrest] at hnil
    cases hnil

/-- What is read from a big endian number. -/
theorem readAll_leads {k n : ℕ} (f : Bytes → ReadM Unit) (hrest : s.is.rest = bigEndian k n ++ r) :
    Leads (do f (← readAll k)) s (f (bigEndian k n)) r := by
  rcases readAll_cases k s with ⟨-, hrun⟩ | ⟨hlt, -⟩
  · rw [hrest, List.take_left' (length_bigEndian k n)] at hrun
    refine ⟨_, bind_of_ok hrun, ⟨rfl, rfl, rfl, (List.append_nil _).symm⟩,
      s.is.region_advance hregion k, ?_⟩
    rw [ReadStream.rest_advance, hrest, List.drop_left' (length_bigEndian k n)]
  · rw [hrest, List.length_append, length_bigEndian] at hlt
    omega

/-- What is read from a big endian size. -/
theorem readAll_size_leads {k n : ℕ} (f : ℕ → ReadM Unit) (hn : n < 256 ^ k)
    (hrest : s.is.rest = bigEndian k n ++ r) :
    Leads (do f (ofBigEndian (← readAll k))) s (f n) r := by
  have h := readAll_leads hregion (fun str => f (ofBigEndian str)) hrest
  rw [ofBigEndian_bigEndian, Nat.mod_eq_of_lt hn] at h
  exact h

/-- What is read from one byte. -/
theorem getByte_leads {b : UInt8} (f : UInt8 → ReadM Unit) (hrest : s.is.rest = b :: r) :
    Leads (do f (← getByte)) s (f b) r := by
  rcases getByte_cases s with ⟨b', r', hrest', hrun⟩ | ⟨hnil, -⟩
  · rw [hrest] at hrest'
    cases hrest'
    refine ⟨_, bind_of_ok hrun, ⟨rfl, rfl, rfl, (List.append_nil _).symm⟩,
      s.is.region_advance hregion 1, ?_⟩
    rw [ReadStream.rest_advance, hrest, List.drop_one, List.tail_cons]
  · rw [hrest] at hnil
    cases hnil

end

/-! ## Integers -/

/-- The low bits of an integer, from the number that is written for it. -/
theorem ofNat_emod (k : ℕ) {z : ℤ} {m : ℕ} (h : (z % 2 ^ 64).toNat % 2 ^ k = m % 2 ^ k)
    (hk : 2 ^ k ∣ 2 ^ 64) : BitVec.ofNat k m = BitVec.ofInt k z := by
  apply BitVec.eq_of_toNat_eq
  have hk' : (2 ^ k : ℤ) ∣ 2 ^ 64 := by exact_mod_cast hk
  have hz : ((z % 2 ^ 64).toNat : ℤ) = z % 2 ^ 64 :=
    Int.toNat_of_nonneg (Int.emod_nonneg _ (by norm_num))
  rw [BitVec.toNat_ofNat, BitVec.toNat_ofInt, ← h]
  zify
  rw [hz, Int.emod_emod_of_dvd _ hk', Int.toNat_of_nonneg (Int.emod_nonneg _ (by positivity))]

/-- The sign of a narrow integer is extended. -/
theorem signExtend_emod {k : ℕ} {z : ℤ} {x : BitVec k} (hx : x.toInt = z) :
    x.signExtend 32 = BitVec.ofInt 32 z := by
  rw [BitVec.signExtend, hx]

/-- The tokens of the integers that are not negative. -/
theorem parseLookup_of_lt {parse : ReadM Unit} {b : UInt8} (h : b.toNat < 128) :
    parseLookup parse b = parsePositiveFixInt := by
  have hlt : b < 0x80 := UInt8.lt_iff_toNat_lt.mpr h
  rw [parseLookup, if_pos hlt]

/-- The tokens of the integers that are negative. -/
theorem parseLookup_of_ge {parse : ReadM Unit} {b : UInt8} (h : 224 ≤ b.toNat) :
    parseLookup parse b = parseNegativeFixInt := by
  have hnot : ∀ c : UInt8, c.toNat ≤ 224 → ¬ b < c := by
    intro c hc hlt
    have := UInt8.lt_iff_toNat_lt.mp hlt
    omega
  have hge : (0xe0 : UInt8) ≤ b := UInt8.le_iff_toNat_le.mpr h
  rw [parseLookup, if_neg (hnot _ (by decide)), if_neg (hnot _ (by decide)),
    if_neg (hnot _ (by decide)), if_neg (hnot _ (by decide)), if_pos hge]

section

variable {z : ℤ} {s : State} {r : Bytes} {ahead : Bool} {depth : ℕ}

/-- Reading an integer that is written in one byte. -/
theorem parse_fixInt (hlo : -2 ^ 5 ≤ z) (hhi : z < 2 ^ 7)
    (h : Left ahead s (UInt8.ofNat (z % 2 ^ 64).toNat :: r)) :
    Returns (parse (depth + 1)) s [.scalar (integerScalar z)] false r := by
  refine parse_of_token h fun s' hregion htoken hrest => ?_
  have hbyte : (UInt8.ofNat (z % 2 ^ 64).toNat).toNat = (z % 2 ^ 64).toNat % 256 :=
    UInt8.toNat_ofNat'
  by_cases hneg : z < 0
  · have hint : (UInt8.ofNat (z % 2 ^ 64).toNat).toBitVec.toInt = z := by
      rw [BitVec.toInt_eq_toNat_cond, UInt8.toNat_toBitVec, hbyte]
      split <;> omega
    rw [parseLookup_of_ge (by omega), integerScalar, if_neg (by omega), if_pos hneg,
      ← signExtend_emod hint]
    refine .of_eq (bind_of_ok (get_apply s')) (Step.refl s') ?_
    rw [htoken]
    exact scalar_spec _ hregion hrest
  · rw [parseLookup_of_lt (by omega), integerScalar, if_neg (by omega), if_neg hneg,
      if_pos (by omega)]
    have hbits : (UInt8.ofNat (z % 2 ^ 64).toNat).toBitVec.setWidth 32 = BitVec.ofInt 32 z := by
      apply BitVec.eq_of_toNat_eq
      rw [BitVec.toNat_setWidth, UInt8.toNat_toBitVec, hbyte, BitVec.toNat_ofInt]
      omega
    refine .of_eq (bind_of_ok (get_apply s')) (Step.refl s') ?_
    rw [htoken, hbits]
    exact scalar_spec _ hregion hrest

/-- Reading an integer. -/
theorem parse_integer (hz : Number.InRange z) (h : Left ahead s (integerBytes z ++ r)) :
    Returns (parse (depth + 1)) s [.scalar (integerScalar z)] false r := by
  obtain ⟨hlo, hhi⟩ := hz
  rw [integerBytes] at h
  by_cases h₁ : z < -2 ^ 31
  · rw [if_pos h₁] at h
    refine parse_of_token h fun s' hregion _ hrest => ?_
    rw [integerScalar, if_pos h₁, ← ofNat_emod 64 (m := (z % 2 ^ 64).toNat % 256 ^ 8) (by norm_num) dvd_rfl]
    exact scalar_bigEndian hregion (fun n => .int64 (.ofNat 64 n)) hrest
  rw [if_neg h₁] at h
  by_cases h₂ : z < -2 ^ 15
  · rw [if_pos h₂] at h
    refine parse_of_token h fun s' hregion _ hrest => ?_
    rw [integerScalar, if_neg h₁, if_pos (by omega),
      ← ofNat_emod 32 (m := (z % 2 ^ 64).toNat % 256 ^ 4) (by norm_num) (by norm_num)]
    exact scalar_bigEndian hregion (fun n => .int (.ofNat 32 n)) hrest
  rw [if_neg h₂] at h
  by_cases h₃ : z < -2 ^ 7
  · rw [if_pos h₃] at h
    refine parse_of_token h fun s' hregion _ hrest => ?_
    have hint : (BitVec.ofNat 16 ((z % 2 ^ 64).toNat % 256 ^ 2)).toInt = z := by
      rw [BitVec.toInt_eq_toNat_cond, BitVec.toNat_ofNat]
      split <;> omega
    rw [integerScalar, if_neg h₁, if_pos (by omega), ← signExtend_emod hint]
    exact scalar_bigEndian hregion (fun n => .int ((BitVec.ofNat 16 n).signExtend 32)) hrest
  rw [if_neg h₃] at h
  by_cases h₄ : z < -2 ^ 5
  · rw [if_pos h₄] at h
    refine parse_of_token h fun s' hregion _ hrest => ?_
    have hint : (UInt8.ofNat (z % 2 ^ 64).toNat).toBitVec.toInt = z := by
      rw [BitVec.toInt_eq_toNat_cond, UInt8.toNat_toBitVec, UInt8.toNat_ofNat']
      split <;> omega
    rw [integerScalar, if_neg h₁, if_pos (by omega), ← signExtend_emod hint]
    exact scalar_getByte_cons hregion (fun b => .int (b.toBitVec.signExtend 32)) hrest
  rw [if_neg h₄] at h
  by_cases h₅ : z < 2 ^ 7
  · rw [if_pos h₅] at h
    exact parse_fixInt (by omega) h₅ h
  rw [if_neg h₅] at h
  have hneg : ¬ z < 0 := by omega
  by_cases h₆ : z < 2 ^ 8
  · rw [if_pos h₆] at h
    refine parse_of_token h fun s' hregion _ hrest => ?_
    have hbits : (UInt8.ofNat (z % 2 ^ 64).toNat).toBitVec.setWidth 32 = BitVec.ofInt 32 z := by
      apply BitVec.eq_of_toNat_eq
      rw [BitVec.toNat_setWidth, UInt8.toNat_toBitVec, UInt8.toNat_ofNat', BitVec.toNat_ofInt]
      omega
    rw [integerScalar, if_neg h₁, if_neg hneg, if_pos (by omega), ← hbits]
    exact scalar_getByte_cons hregion (fun b => .uint (b.toBitVec.setWidth 32)) hrest
  rw [if_neg h₆] at h
  by_cases h₇ : z < 2 ^ 16
  · rw [if_pos h₇] at h
    refine parse_of_token h fun s' hregion _ hrest => ?_
    rw [integerScalar, if_neg h₁, if_neg hneg, if_pos (by omega),
      ← ofNat_emod 32 (m := (z % 2 ^ 64).toNat % 256 ^ 2) (by omega) (by norm_num)]
    exact scalar_bigEndian hregion (fun n => .uint (.ofNat 32 n)) hrest
  rw [if_neg h₇] at h
  by_cases h₈ : z < 2 ^ 32
  · rw [if_pos h₈] at h
    refine parse_of_token h fun s' hregion _ hrest => ?_
    rw [integerScalar, if_neg h₁, if_neg hneg, if_pos h₈,
      ← ofNat_emod 32 (m := (z % 2 ^ 64).toNat % 256 ^ 4) (by norm_num) (by norm_num)]
    exact scalar_bigEndian hregion (fun n => .uint (.ofNat 32 n)) hrest
  · rw [if_neg h₈] at h
    refine parse_of_token h fun s' hregion _ hrest => ?_
    rw [integerScalar, if_neg h₁, if_neg hneg, if_neg h₈,
      ← ofNat_emod 64 (m := (z % 2 ^ 64).toNat % 256 ^ 8) (by norm_num) dvd_rfl]
    exact scalar_bigEndian hregion (fun n => .uint64 (.ofNat 64 n)) hrest

end

/-! ## Other scalars -/

/-- Reading a value that is nothing but its token. -/
theorem parse_token {s : State} {b : UInt8} (sc : Scalar) {r : Bytes} {ahead : Bool} {depth : ℕ}
    (hlookup : ∀ parse, parseLookup parse b = scalar sc) (h : Left ahead s (b :: r)) :
    Returns (parse (depth + 1)) s [.scalar sc] false r := by
  refine parse_of_token h fun s' hregion _ hrest => ?_
  rw [hlookup]
  exact scalar_spec sc hregion hrest

/-- Reading a double. -/
theorem parse_double {s : State} {d : BitVec 64} {r : Bytes} {ahead : Bool} {depth : ℕ}
    (h : Left ahead s (MessagePackWriter.double d ++ r)) :
    Returns (parse (depth + 1)) s [.scalar (.double d)] false r := by
  refine parse_of_token h fun s' hregion _ hrest => ?_
  have hbits : BitVec.ofNat 64 (d.toNat % 256 ^ 8) = d := by
    apply BitVec.eq_of_toNat_eq
    rw [BitVec.toNat_ofNat]
    have := d.isLt
    omega
  have hread := scalar_bigEndian hregion (fun n => .double (.ofNat 64 n)) hrest
  simp only [hbits] at hread
  exact hread

/-! ## Headers -/

/-- The size in a token of the shortest form. -/
theorem toNat_fixStr : ∀ n < 32, ((Format.fixStr ||| UInt8.ofNat n) &&& 0x1f).toNat = n ∧
    Format.fixStr ≤ Format.fixStr ||| UInt8.ofNat n ∧
    Format.fixStr ||| UInt8.ofNat n < Format.nil := by
  decide

theorem parseLookup_fixStr (parse : ReadM Unit) {n : ℕ} (h : n < 32) :
    parseLookup parse (Format.fixStr ||| UInt8.ofNat n) = parseFixStr := by
  interval_cases n <;> rfl

theorem parseLookup_fixArray (parse : ReadM Unit) {n : ℕ} (h : n < 16) :
    parseLookup parse (Format.fixArray ||| UInt8.ofNat n) = parseArray parse n := by
  interval_cases n <;> rfl

theorem parseLookup_fixMap (parse : ReadM Unit) {n : ℕ} (h : n < 16) :
    parseLookup parse (Format.fixMap ||| UInt8.ofNat n) = parseMap parse n := by
  interval_cases n <;> rfl

section

variable {s : State} {n : ℕ} {r : Bytes} {ahead : Bool} (depth : ℕ)

/-- After the header of a string, its bytes are read. -/
theorem parse_strHeader (hn : n < 2 ^ 32)
    (h : Left ahead s (MessagePackWriter.strHeader n ++ r)) :
    Leads (parse (depth + 1)) s (parseStr n) r := by
  rw [MessagePackWriter.strHeader] at h
  by_cases h₁ : n < 32
  · rw [if_pos h₁] at h
    refine parse_leads h fun s' hregion htoken hrest => ?_
    rw [parseLookup_fixStr _ h₁]
    refine ⟨s', ?_, Step.refl s', hregion, hrest⟩
    rw [parseFixStr, bind_of_ok (get_apply s'), htoken, (toNat_fixStr n h₁).1]
  rw [if_neg h₁] at h
  by_cases h₂ : n < 256
  · rw [if_pos h₂] at h
    refine parse_leads h fun s' hregion _ hrest => ?_
    have hbyte : s'.is.peek.toNat = n := by
      rw [ReadStream.peek, hrest]
      exact (UInt8.toNat_ofNat').trans (Nat.mod_eq_of_lt h₂)
    refine ⟨{ s' with is := s'.is.advance 1 }, ?_, ⟨rfl, rfl, rfl, (List.append_nil _).symm⟩,
      s'.is.region_advance hregion 1, ?_⟩
    · show parseStr8 s' = _
      rw [parseStr8, bind_of_ok (getChar_apply s'), hbyte]
    · rw [ReadStream.rest_advance, hrest]
      rfl
  rw [if_neg h₂] at h
  by_cases h₃ : n < 65536
  · rw [if_pos h₃] at h
    exact parse_leads h fun s' hregion _ hrest =>
      readAll_size_leads hregion (fun n => parseStr n) h₃ hrest
  · rw [if_neg h₃] at h
    exact parse_leads h fun s' hregion _ hrest =>
      readAll_size_leads hregion (fun n => parseStr n) hn hrest

/-- After the header of binary data, its bytes are read. -/
theorem parse_binHeader (hn : n < 2 ^ 32)
    (h : Left ahead s (MessagePackWriter.binHeader n ++ r)) :
    Leads (parse (depth + 1)) s (parseBin n) r := by
  rw [MessagePackWriter.binHeader] at h
  by_cases h₁ : n < 256
  · rw [if_pos h₁] at h
    refine parse_leads h fun s' hregion _ hrest => ?_
    have hread := getByte_leads hregion (fun b => parseBin b.toNat) hrest
    rw [UInt8.toNat_ofNat', Nat.mod_eq_of_lt h₁] at hread
    exact hread
  rw [if_neg h₁] at h
  by_cases h₂ : n < 65536
  · rw [if_pos h₂] at h
    exact parse_leads h fun s' hregion _ hrest =>
      readAll_size_leads hregion (fun n => parseBin n) h₂ hrest
  · rw [if_neg h₂] at h
    exact parse_leads h fun s' hregion _ hrest =>
      readAll_size_leads hregion (fun n => parseBin n) hn hrest

/-- After the header of an array, its elements are read. -/
theorem parse_startArray (hn : n < 2 ^ 32)
    (h : Left ahead s (MessagePackWriter.startArray n ++ r)) :
    Leads (parse (depth + 1)) s (parseArray (parse depth) n) r := by
  rw [MessagePackWriter.startArray] at h
  by_cases h₁ : n < 16
  · rw [if_pos h₁] at h
    refine parse_leads h fun s' hregion _ hrest => ?_
    rw [parseLookup_fixArray _ h₁]
    exact ⟨s', rfl, Step.refl s', hregion, hrest⟩
  rw [if_neg h₁] at h
  by_cases h₂ : n < 65536
  · rw [if_pos h₂] at h
    exact parse_leads h fun s' hregion _ hrest =>
      readAll_size_leads hregion (fun n => parseArray (parse depth) n) h₂ hrest
  · rw [if_neg h₂] at h
    exact parse_leads h fun s' hregion _ hrest =>
      readAll_size_leads hregion (fun n => parseArray (parse depth) n) hn hrest

/-- After the header of a map, its members are read. -/
theorem parse_startMap (hn : n < 2 ^ 32)
    (h : Left ahead s (MessagePackWriter.startMap n ++ r)) :
    Leads (parse (depth + 1)) s (parseMap (parse depth) n) r := by
  rw [MessagePackWriter.startMap] at h
  by_cases h₁ : n < 16
  · rw [if_pos h₁] at h
    refine parse_leads h fun s' hregion _ hrest => ?_
    rw [parseLookup_fixMap _ h₁]
    exact ⟨s', rfl, Step.refl s', hregion, hrest⟩
  rw [if_neg h₁] at h
  by_cases h₂ : n < 65536
  · rw [if_pos h₂] at h
    exact parse_leads h fun s' hregion _ hrest =>
      readAll_size_leads hregion (fun n => parseMap (parse depth) n) h₂ hrest
  · rw [if_neg h₂] at h
    exact parse_leads h fun s' hregion _ hrest =>
      readAll_size_leads hregion (fun n => parseMap (parse depth) n) hn hrest

end

/-! ## Strings -/

section

variable {s : State} {str r : Bytes} {ahead : Bool}

/-- Reading a string. -/
theorem parse_string (hstr : str.length < 2 ^ 32)
    (h : Left ahead s (MessagePackWriter.string str ++ r)) (depth : ℕ) :
    ∃ arg : StrArg, arg.bytes = str ∧ arg.terminated = true ∧
      Returns (parse (depth + 1)) s [.scalar (.string arg)] s.is.inSitu r := by
  rw [MessagePackWriter.string, List.append_assoc] at h
  obtain ⟨s', hrun, hstep, hregion, hrest⟩ := parse_strHeader depth hstr h
  rcases parseStr_cases str.length hregion with
    ⟨-, arg, s'', hrun', hstep', hbytes, hterminated, hleft⟩ | ⟨hlt, -⟩
  · rw [hrest, List.take_left] at hbytes
    rw [hrest, List.drop_left, hstep.inSitu] at hleft
    exact ⟨arg, hbytes, hterminated, s'', hrun.trans hrun', hstep.trans hstep', hleft⟩
  · rw [hrest, List.length_append] at hlt
    omega

/-- Reading binary data. -/
theorem parse_binary (hstr : str.length < 2 ^ 32)
    (h : Left ahead s (MessagePackWriter.binary str ++ r)) (depth : ℕ) :
    ∃ arg : StrArg, arg.bytes = str ∧
      Returns (parse (depth + 1)) s [.scalar (.binary arg)] false r := by
  rw [MessagePackWriter.binary, List.append_assoc] at h
  obtain ⟨s', hrun, hstep, hregion, hrest⟩ := parse_binHeader depth hstr h
  rcases parseBin_cases str.length hregion with
    ⟨-, arg, s'', hrun', hstep', hbytes, hleft⟩ | ⟨hlt, -⟩
  · rw [hrest, List.take_left] at hbytes
    rw [hrest, List.drop_left] at hleft
    exact ⟨arg, hbytes, s'', hrun.trans hrun', hstep.trans hstep', hleft⟩
  · rw [hrest, List.length_append] at hlt
    omega

/-- The length of a key that is short, from what is written for it. -/
theorem keyForm_string (hstr : str.length < 256) (r : Bytes) :
    ∃ b body, MessagePackWriter.string str ++ r = b :: body ∧
      keyForm b body = some (str.length, str ++ r) := by
  rw [MessagePackWriter.string, MessagePackWriter.strHeader, List.append_assoc]
  by_cases h₁ : str.length < 32
  · obtain ⟨hlen, hlo, hhi⟩ := toNat_fixStr _ h₁
    refine ⟨_, _, by rw [if_pos h₁]; rfl, ?_⟩
    unfold keyForm
    rw [if_pos ⟨hlo, hhi⟩, hlen]
    rfl
  · refine ⟨_, _, by rw [if_neg h₁, if_pos hstr]; rfl, ?_⟩
    show some ((UInt8.ofNat str.length).toNat, str ++ r) = _
    rw [UInt8.toNat_ofNat', Nat.mod_eq_of_lt hstr]

/-- Reading a key that is accepted, before a value. -/
theorem parseKey_string (hstr : KeyReadable s.is.inSitu str) (hr : r ≠ [])
    (h : Left ahead s (MessagePackWriter.string str ++ r)) :
    ∃ arg : StrArg, arg.bytes = str ∧ arg.terminated = true ∧
      Returns parseKey s [.key arg] s.is.inSitu r := by
  obtain ⟨b, body, hstring, hform⟩ := keyForm_string hstr.1 r
  rw [hstring] at h
  have hne : body ≠ [] := by
    rintro rfl
    have hle := (keyForm_bounds hform).2
    have hpos := List.length_pos_iff.mpr hr
    rw [List.length_append, List.length_nil] at hle
    omega
  have hrest : s.is.rest ≠ [] := by
    obtain ⟨-, h⟩ := h
    cases ahead
    · rw [h.2]
      exact List.cons_ne_nil _ _
    · rw [h.2]
      exact hne
  rcases parseKey_spec h hrest with
    ⟨k, body', s', hform', hrun, hstep, hregion, hsub, hbody⟩ | ⟨hnone, -⟩
  · rw [hform] at hform'
    cases hform'
    cases hmode : s'.is.inSitu with
    | true =>
      rcases parseKeyString_inSitu_cases str.length hmode with
        ⟨-, arg, s'', hrun', hstep', hbytes, hterminated, hleft⟩ | ⟨hlt, -⟩
      · rw [hbody, List.take_left] at hbytes
        rw [hbody, List.drop_left] at hleft
        rw [← hstep.inSitu, hmode]
        refine ⟨arg, hbytes, hterminated.mpr (.inr (.inl ?_)), s'', hrun.trans hrun',
          hstep.trans hstep', hleft⟩
        rw [hbody, List.drop_left]
        exact hr
      · rw [hbody, List.length_append] at hlt
        omega
    | false =>
      rw [← hstep.inSitu, hmode] at hstr
      have hpos : 0 < str.length := List.length_pos_iff.mpr (hstr.2.resolve_left (by decide))
      rcases parseKeyString_copy_cases hpos hregion hmode with
        ⟨-, s'', hrun', hstep', hleft⟩ | ⟨hlt, -⟩
      · rw [hbody, List.take_left] at hstep'
        rw [hbody, List.drop_left] at hleft
        rw [← hstep.inSitu, hmode]
        exact ⟨{ bytes := str }, rfl, rfl, s'', hrun.trans hrun', hstep.trans hstep', hleft⟩
      · rw [hbody, List.length_append] at hlt
        omega
  · rw [hform] at hnone
    cases hnone

end

end AnyRpc.MessagePackReader
