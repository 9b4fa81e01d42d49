import AnyRpc.MessagePack.Forms
import AnyRpc.Value.Integer

/-! # The shortest encoding of an integer

MessagePack has several encodings of an integer (`IntegerEncoding`): one byte for a small one, and a
token with one, two, four or eight bytes, signed or unsigned. What the writer writes is one of them,
and none is shorter. Which of the four calls is made for the integer does not matter. -/

namespace AnyRpc

open Library

namespace MessagePack

/-- The tokens of the unsigned formats, with the number of bytes behind them. -/
def unsignedFormats : List (UInt8 × ℕ) :=
  [(Format.uint8, 1), (Format.uint16, 2), (Format.uint32, 4), (Format.uint64, 8)]

/-- The tokens of the signed formats, with the number of bytes behind them. -/
def signedFormats : List (UInt8 × ℕ) :=
  [(Format.int8, 1), (Format.int16, 2), (Format.int32, 4), (Format.int64, 8)]

/-- The encodings of an integer. -/
inductive IntegerEncoding : ℤ → Bytes → Prop
  | positiveFixInt {z : ℤ} (hlo : 0 ≤ z) (hhi : z < 2 ^ 7) : IntegerEncoding z [UInt8.ofNat z.toNat]
  | negativeFixInt {z : ℤ} (hlo : -2 ^ 5 ≤ z) (hhi : z < 0) :
      IntegerEncoding z [UInt8.ofNat (z % 2 ^ 8).toNat]
  | unsigned {z : ℤ} {token : UInt8} {k : ℕ} (hformat : (token, k) ∈ unsignedFormats) (hlo : 0 ≤ z)
      (hhi : z < 256 ^ k) : IntegerEncoding z (token :: bigEndian k z.toNat)
  | signed {z : ℤ} {token : UInt8} {k : ℕ} (hformat : (token, k) ∈ signedFormats)
      (hlo : -(256 ^ k / 2) ≤ z) (hhi : z < 256 ^ k / 2) :
      IntegerEncoding z (token :: bigEndian k (z % 256 ^ k).toNat)

/-- An encoding of an integer such that no other one is shorter. -/
structure ShortestEncoding (z : ℤ) (bs : Bytes) : Prop where
  encodes : IntegerEncoding z bs
  length_le : ∀ {bs'}, IntegerEncoding z bs' → bs.length ≤ bs'.length

/-! ## The encoding that is written -/

section

variable {z : ℤ}

/-- One byte is the same as a number of one byte. -/
theorem bigEndian_one (n : ℕ) : bigEndian 1 n = [UInt8.ofNat n] := by
  simp [bigEndian]

/-- What the writer writes in a signed format. -/
theorem IntegerEncoding.of_signed {token : UInt8} {k : ℕ} (hformat : (token, k) ∈ signedFormats)
    (hlo : -(256 ^ k / 2) ≤ z) (hhi : z < 256 ^ k / 2) :
    IntegerEncoding z (token :: bigEndian k (z % 2 ^ 64).toNat) := by
  have hbytes : bigEndian k (z % 2 ^ 64).toNat = bigEndian k (z % 256 ^ k).toNat := by
    apply bigEndian_congr
    simp only [signedFormats, List.mem_cons, Prod.mk.injEq, List.not_mem_nil, or_false] at hformat
    obtain ⟨-, rfl⟩ | ⟨-, rfl⟩ | ⟨-, rfl⟩ | ⟨-, rfl⟩ := hformat <;> omega
  rw [hbytes]
  exact .signed hformat hlo hhi

/-- What the writer writes in an unsigned format. -/
theorem IntegerEncoding.of_unsigned {token : UInt8} {k : ℕ}
    (hformat : (token, k) ∈ unsignedFormats) (hlo : 0 ≤ z) (hhi : z < 256 ^ k) :
    IntegerEncoding z (token :: bigEndian k (z % 2 ^ 64).toNat) := by
  have hword : (z % 2 ^ 64).toNat = z.toNat := by
    simp only [unsignedFormats, List.mem_cons, Prod.mk.injEq, List.not_mem_nil, or_false] at hformat
    obtain ⟨-, rfl⟩ | ⟨-, rfl⟩ | ⟨-, rfl⟩ | ⟨-, rfl⟩ := hformat <;> omega
  rw [hword]
  exact .unsigned hformat hlo hhi

/-- What the writer writes in one byte. -/
theorem IntegerEncoding.of_fixInt (hlo : -2 ^ 5 ≤ z) (hhi : z < 2 ^ 7) :
    IntegerEncoding z [UInt8.ofNat (z % 2 ^ 64).toNat] := by
  by_cases hneg : z < 0
  · have hbyte : UInt8.ofNat (z % 2 ^ 64).toNat = UInt8.ofNat (z % 2 ^ 8).toNat :=
      MessagePackWriter.ofNat_congr (by omega)
    rw [hbyte]
    exact .negativeFixInt hlo hneg
  · have hword : (z % 2 ^ 64).toNat = z.toNat := by omega
    rw [hword]
    exact .positiveFixInt (by omega) hhi

/-- The bytes of an integer are an encoding of it. -/
theorem encodes_integerBytes (hz : Number.InRange z) : IntegerEncoding z (integerBytes z) := by
  obtain ⟨hlo, hhi⟩ := hz
  simp only [integerBytes, ← bigEndian_one]
  split_ifs with h₁ h₂ h₃ h₄ h₅ h₆ h₇ h₈
  · exact .of_signed (by decide) (by omega) (by omega)
  · exact .of_signed (by decide) (by omega) (by omega)
  · exact .of_signed (by decide) (by omega) (by omega)
  · exact .of_signed (by decide) (by omega) (by omega)
  · rw [bigEndian_one]
    exact .of_fixInt (by omega) h₅
  · exact .of_unsigned (by decide) (by omega) (by omega)
  · exact .of_unsigned (by decide) (by omega) (by omega)
  · exact .of_unsigned (by decide) (by omega) (by omega)
  · exact .of_unsigned (by decide) (by omega) (by omega)

/-- An integer that is written with more than `k` bytes behind the token does not fit a format of
`k` bytes. -/
theorem length_integerBytes_le {k : ℕ} (hk : k = 1 ∨ k = 2 ∨ k = 4 ∨ k = 8)
    (hlo : -(256 ^ k / 2) ≤ z) (hhi : z < 256 ^ k) : (integerBytes z).length ≤ k + 1 := by
  rw [integerBytes]
  split_ifs <;> simp only [List.length_cons, List.length_nil, length_bigEndian] <;>
    obtain rfl | rfl | rfl | rfl := hk <;> omega

/-- No encoding is shorter than the bytes of the integer. -/
theorem length_integerBytes_le_of_encodes {bs : Bytes} (h : IntegerEncoding z bs) :
    (integerBytes z).length ≤ bs.length := by
  have hfix : -2 ^ 5 ≤ z → z < 2 ^ 7 → (integerBytes z).length = 1 := by
    intro hlo hhi
    rw [integerBytes, if_neg (by omega), if_neg (by omega), if_neg (by omega), if_neg (by omega),
      if_pos hhi]
    rfl
  cases h with
  | positiveFixInt hlo hhi => exact (hfix (by omega) hhi).le
  | negativeFixInt hlo hhi => exact (hfix hlo (by omega)).le
  | @unsigned token k hformat hlo hhi =>
    have hk : k = 1 ∨ k = 2 ∨ k = 4 ∨ k = 8 := by
      simp only [unsignedFormats, List.mem_cons, Prod.mk.injEq, List.not_mem_nil,
        or_false] at hformat
      omega
    have hhalf : (0 : ℤ) ≤ 256 ^ k / 2 := by positivity
    rw [List.length_cons, length_bigEndian]
    exact length_integerBytes_le hk (by omega) hhi
  | @signed token k hformat hlo hhi =>
    have hk : k = 1 ∨ k = 2 ∨ k = 4 ∨ k = 8 := by
      simp only [signedFormats, List.mem_cons, Prod.mk.injEq, List.not_mem_nil, or_false] at hformat
      omega
    rw [List.length_cons, length_bigEndian]
    exact length_integerBytes_le hk hlo (by omega)

/-- The bytes of an integer are its shortest encoding. -/
theorem shortest_integerBytes (hz : Number.InRange z) : ShortestEncoding z (integerBytes z) where
  encodes := encodes_integerBytes hz
  length_le := length_integerBytes_le_of_encodes

end

end MessagePack

/-! ## The calls -/

open MessagePack MessagePackReader

/-- A call for an integer writes the bytes of it. -/
theorem MessagePackWriter.scalar_of_integer [Platform] {sc : Scalar} {z : ℤ}
    (h : sc.integer? = some z) : scalar sc = integerBytes z := by
  cases sc <;> cases h
  · exact int_eq _
  · exact writeUint_eq _
  · exact int64_eq _
  · exact writeUint64_eq _

/-- The call for an integer that is read carries it. -/
theorem integer?_integerScalar {z : ℤ} (hz : Number.InRange z) :
    (integerScalar z).integer? = some z := by
  obtain ⟨hlo, hhi⟩ := hz
  rw [integerScalar]
  split_ifs with h₁ h₂ h₃
  · exact congrArg some (BitVec.toInt_ofInt_eq_self (by decide) hlo (by omega))
  · exact congrArg some (BitVec.toInt_ofInt_eq_self (by decide) (by omega) (by omega))
  · rw [Scalar.integer?, BitVec.toNat_ofInt]
    congr 1
    omega
  · rw [Scalar.integer?, BitVec.toNat_ofInt]
    congr 1
    omega

namespace IntegerType

variable [Platform] {T : IntegerType} {z : ℤ}

/-- A call whose type can hold the integer writes the bytes of it. -/
theorem handle_scalar (h : T.Fits z) (w : MessagePackWriter) :
    (Handler.handle (.scalar (T.scalar z)) : Exec MessagePackWriter Unit) w =
      .ok () ⟨w.os ++ integerBytes z⟩ := by
  rw [← MessagePackWriter.scalar_of_integer (integer?_scalar h)]
  rfl

/-- Any two of the calls whose types can hold an integer write the same bytes, which are a shortest
encoding of it. The reader makes one call for them, which carries the integer, and leaves what
stands behind them. -/
theorem writes_shortest {T' : IntegerType} (h : T.Fits z) (h' : T'.Fits z) :
    ∃ bs sc, ShortestEncoding z bs ∧
      (∀ w : MessagePackWriter, Handler.handle (.scalar (T.scalar z)) w = .ok () ⟨w.os ++ bs⟩) ∧
      (∀ w : MessagePackWriter, Handler.handle (.scalar (T'.scalar z)) w = .ok () ⟨w.os ++ bs⟩) ∧
      sc.integer? = some z ∧
      ∀ (is : ReadStream) (r : Bytes), is.region = none → is.rest = bs ++ r →
        Returns (parse (is.rest.length + 1)) (new is) [.scalar sc] false r := by
  have hz := h.inRange
  refine ⟨integerBytes z, integerScalar z, shortest_integerBytes hz, handle_scalar h,
    handle_scalar h', integer?_integerScalar hz, ?_⟩
  intro is r hregion hrest
  have hleft : Left false (new is) (integerBytes z ++ r) := ⟨hregion, rfl, hrest⟩
  exact parse_integer hz hleft

omit [Platform] in
/-- The least `int`, by a call for 64 bits as well. -/
theorem writes_shortest_min :
    letI := Platform.blank
    ∃ bs sc, ShortestEncoding (-2 ^ 31) bs ∧
      (∀ w : MessagePackWriter,
        Handler.handle (.scalar (int.scalar (-2 ^ 31))) w = .ok () ⟨w.os ++ bs⟩) ∧
      (∀ w : MessagePackWriter,
        Handler.handle (.scalar (int64.scalar (-2 ^ 31))) w = .ok () ⟨w.os ++ bs⟩) ∧
      sc.integer? = some (-2 ^ 31) ∧
      ∀ (is : ReadStream) (r : Bytes), is.region = none → is.rest = bs ++ r →
        Returns (parse (is.rest.length + 1)) (new is) [.scalar sc] false r := by
  have hint : int.Fits (-2 ^ 31) := by decide
  have hint64 : int64.Fits (-2 ^ 31) := by decide
  exact @writes_shortest Platform.blank int (-2 ^ 31) int64 hint hint64

end IntegerType

end AnyRpc
