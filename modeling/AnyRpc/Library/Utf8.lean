import Mathlib.Algebra.Order.Group.Nat
import Mathlib.Tactic.Common

/-! # UTF-8

Well-formed UTF-8 is what the encodings of Unicode scalar values make up one behind the other. The
encoding of a number is spelled out beyond the scalar values, up to what four bytes have room for, so
that decoders that find out late about a surrogate can be compared with it. -/

namespace AnyRpc.Library.Utf8

/-! ## Well-formed texts -/

/-- A byte string is well-formed UTF-8. -/
def WellFormed (s : List UInt8) : Prop := s.toByteArray.IsValidUTF8

instance (s : List UInt8) : Decidable (WellFormed s) :=
  inferInstanceAs (Decidable s.toByteArray.IsValidUTF8)

/-- The well-formed texts are the encodings of characters one behind the other. -/
theorem wellFormed_iff {s : List UInt8} :
    WellFormed s ↔ ∃ cs : List Char, s = cs.flatMap String.utf8EncodeChar := by
  constructor
  · rintro ⟨cs, hcs⟩
    exact ⟨cs, List.toByteArray_inj.mp hcs⟩
  · rintro ⟨cs, rfl⟩
    exact ⟨cs, rfl⟩

theorem wellFormed_nil : WellFormed [] := wellFormed_iff.mpr ⟨[], rfl⟩

/-- A character in front does not matter. -/
theorem wellFormed_append (c : Char) (s : List UInt8) :
    WellFormed (String.utf8EncodeChar c ++ s) ↔ WellFormed s := by
  have h := ByteArray.isValidUTF8_utf8Encode_singleton_append_iff (b := s.toByteArray) (c := c)
  rwa [List.utf8Encode_singleton, ← List.toByteArray_append] at h

/-- A well-formed text starts with a character. -/
theorem WellFormed.exists_char {c : UInt8} {s : List UInt8} (h : WellFormed (c :: s)) :
    ∃ ch r, c :: s = String.utf8EncodeChar ch ++ r := by
  obtain ⟨cs, hcs⟩ := wellFormed_iff.mp h
  cases cs with
  | nil => cases hcs
  | cons ch cs => exact ⟨ch, _, hcs⟩

/-! ## The encoding of a number -/

/-- The encoding of a number. -/
def encode (v : ℕ) : List UInt8 :=
  if v ≤ 0x7f then [UInt8.ofNat v]
  else if v ≤ 0x7ff then [UInt8.ofNat (v / 64 % 0x20 + 0xc0), UInt8.ofNat (v % 0x40 + 0x80)]
  else if v ≤ 0xffff then
    [UInt8.ofNat (v / 4096 % 0x10 + 0xe0), UInt8.ofNat (v / 64 % 0x40 + 0x80),
      UInt8.ofNat (v % 0x40 + 0x80)]
  else
    [UInt8.ofNat (v / 262144 % 0x08 + 0xf0), UInt8.ofNat (v / 4096 % 0x40 + 0x80),
      UInt8.ofNat (v / 64 % 0x40 + 0x80), UInt8.ofNat (v % 0x40 + 0x80)]

/-- It is the encoding of the character, where there is one. -/
theorem encode_toNat (c : Char) : encode c.toNat = String.utf8EncodeChar c := rfl

/-- The bytes of a number beyond ASCII: a first one that tells how many there are, and six bits in
each of the others. -/
inductive Multibyte : ℕ → List UInt8 → Prop where
  | two {v : ℕ} {c c2 : UInt8} : 0x80 ≤ v → v < 0x800 → c.toNat = 0xc0 + v / 64 →
      c2.toNat = 0x80 + v % 64 → Multibyte v [c, c2]
  | three {v : ℕ} {c c2 c3 : UInt8} : 0x800 ≤ v → v < 0x10000 → c.toNat = 0xe0 + v / 4096 →
      c2.toNat = 0x80 + v / 64 % 64 → c3.toNat = 0x80 + v % 64 → Multibyte v [c, c2, c3]
  | four {v : ℕ} {c c2 c3 c4 : UInt8} : 0x10000 ≤ v → v < 0x200000 →
      c.toNat = 0xf0 + v / 262144 → c2.toNat = 0x80 + v / 4096 % 64 →
      c3.toNat = 0x80 + v / 64 % 64 → c4.toNat = 0x80 + v % 64 → Multibyte v [c, c2, c3, c4]

/-- The encoding of a number has these bytes. -/
theorem multibyte_encode {v : ℕ} (h : 0x80 ≤ v) (hv : v < 0x200000) : Multibyte v (encode v) := by
  unfold encode
  rw [if_neg (by omega)]
  split_ifs with h2 h3
  · refine .two h (by omega) ?_ ?_ <;> · rw [UInt8.toNat_ofNat']; omega
  · refine .three (by omega) (by omega) ?_ ?_ ?_ <;> · rw [UInt8.toNat_ofNat']; omega
  · refine .four (by omega) hv ?_ ?_ ?_ ?_ <;> · rw [UInt8.toNat_ofNat']; omega

/-- A number has one sequence of bytes. -/
theorem Multibyte.unique {v : ℕ} {s s' : List UInt8} (h : Multibyte v s) (h' : Multibyte v s') :
    s = s' := by
  cases h with
  | two h hv hc hc2 =>
    cases h' with
    | two h' hv' hc' hc2' =>
      rw [UInt8.toNat_inj.mp (hc.trans hc'.symm), UInt8.toNat_inj.mp (hc2.trans hc2'.symm)]
    | three => omega
    | four => omega
  | three h hv hc hc2 hc3 =>
    cases h' with
    | two => omega
    | three h' hv' hc' hc2' hc3' =>
      rw [UInt8.toNat_inj.mp (hc.trans hc'.symm), UInt8.toNat_inj.mp (hc2.trans hc2'.symm),
        UInt8.toNat_inj.mp (hc3.trans hc3'.symm)]
    | four => omega
  | four h hv hc hc2 hc3 hc4 =>
    cases h' with
    | two => omega
    | three => omega
    | four h' hv' hc' hc2' hc3' hc4' =>
      rw [UInt8.toNat_inj.mp (hc.trans hc'.symm), UInt8.toNat_inj.mp (hc2.trans hc2'.symm),
        UInt8.toNat_inj.mp (hc3.trans hc3'.symm), UInt8.toNat_inj.mp (hc4.trans hc4'.symm)]

/-- These bytes are for a number with an encoding. -/
theorem Multibyte.bounds {v : ℕ} {s : List UInt8} (h : Multibyte v s) :
    0x80 ≤ v ∧ v < 0x200000 := by
  cases h <;> omega

/-- These bytes are the encoding of the number. -/
theorem Multibyte.eq_encode {v : ℕ} {s : List UInt8} (h : Multibyte v s) : s = encode v :=
  h.unique (multibyte_encode h.bounds.1 h.bounds.2)

/-- Every scalar value is that of a character. -/
theorem exists_char {v : ℕ} (h : v.isValidChar) : ∃ c : Char, c.toNat = v :=
  ⟨Char.ofNatAux v h, rfl⟩

/-- A byte of ASCII encodes a character. -/
theorem exists_char_of_lt {c : UInt8} (h : c.toNat < 0x80) :
    ∃ ch : Char, [c] = String.utf8EncodeChar ch := by
  obtain ⟨ch, hch⟩ := exists_char (v := c.toNat) (.inl (by omega))
  refine ⟨ch, ?_⟩
  rw [← encode_toNat, hch, encode, if_pos (by omega), UInt8.ofNat_toNat]

/-- A well-formed text that does not start in ASCII starts with several bytes of a character. -/
theorem WellFormed.exists_multibyte {c : UInt8} {s : List UInt8} (h : WellFormed (c :: s))
    (hc : 0x80 ≤ c.toNat) :
    ∃ (ch : Char) (r : List UInt8), Multibyte ch.toNat (encode ch.toNat) ∧
      c :: s = encode ch.toNat ++ r := by
  obtain ⟨ch, r, hr⟩ := h.exists_char
  rw [← encode_toNat] at hr
  refine ⟨ch, r, multibyte_encode ?_ ?_, hr⟩
  · by_contra hlt
    rw [encode, if_pos (by omega)] at hr
    have hfirst : c.toNat = ch.toNat % 256 := by
      rw [(List.cons.inj hr).1, UInt8.toNat_ofNat']
    omega
  · have hvalid : ch.toNat.isValidChar := ch.valid
    rw [Nat.isValidChar] at hvalid
    omega

end AnyRpc.Library.Utf8
