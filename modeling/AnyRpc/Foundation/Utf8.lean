import AnyRpc.Foundation.Text
import AnyRpc.Library.Utf8

/-! # Code points in text

`EncodeUtf8` and the hexadecimal digits of an escape, of which both text formats have a copy. -/

namespace AnyRpc

/-- `EncodeUtf8(os, codepoint)`: the bytes that are put. -/
def encodeUtf8 (codepoint : ℕ) : Bytes :=
  if codepoint ≤ 0x7F then [UInt8.ofNat codepoint]
  else if codepoint ≤ 0x7FF then
    [UInt8.ofNat (0xC0 ||| codepoint >>> 6 &&& 0xFF), UInt8.ofNat (0x80 ||| codepoint &&& 0x3F)]
  else if codepoint ≤ 0xFFFF then
    [UInt8.ofNat (0xE0 ||| codepoint >>> 12 &&& 0xFF),
      UInt8.ofNat (0x80 ||| codepoint >>> 6 &&& 0x3F), UInt8.ofNat (0x80 ||| codepoint &&& 0x3F)]
  else
    [UInt8.ofNat (0xF0 ||| codepoint >>> 18 &&& 0xFF),
      UInt8.ofNat (0x80 ||| codepoint >>> 12 &&& 0x3F),
      UInt8.ofNat (0x80 ||| codepoint >>> 6 &&& 0x3F), UInt8.ofNat (0x80 ||| codepoint &&& 0x3F)]

/-- The value of a hexadecimal digit, in either case. -/
def hexDigitValue? (c : UInt8) : Option ℕ :=
  if 0x30 ≤ c ∧ c ≤ 0x39 then some (c.toNat - 0x30)
  else if 0x41 ≤ c ∧ c ≤ 0x46 then some (c.toNat - 0x41 + 10)
  else if 0x61 ≤ c ∧ c ≤ 0x66 then some (c.toNat - 0x61 + 10)
  else none

theorem hexDigitValue?_hexDigit {d : ℕ} (h : d < 16) : hexDigitValue? (hexDigit d) = some d := by
  have hall : ∀ d : Fin 16, hexDigitValue? (hexDigit d) = some d.val := by decide +kernel
  exact hall ⟨d, h⟩

/-! ## Masks -/

/-- The bits that a mask keeps. -/
theorem toNat_and (c m : UInt8) (i : ℕ) (hm : m.toNat = 2 ^ i - 1) :
    (c &&& m).toNat = c.toNat % 2 ^ i := by
  rw [UInt8.toNat_and, hm, Nat.and_two_pow_sub_one_eq_mod]

/-- The mask of a byte that continues a sequence. -/
theorem and_mask_iff (c : UInt8) : c &&& 0xc0 = 0x80 ↔ c.toNat / 64 = 2 := by
  have h : ∀ b : BitVec 8, UInt8.ofBitVec b &&& 0xc0 = 0x80 ↔ (UInt8.ofBitVec b).toNat / 64 = 2 := by
    decide +kernel
  exact h c.toBitVec

/-! ## The encoding of a code point -/

theorem encodeUtf8_length_le (v : ℕ) : (encodeUtf8 v).length ≤ 4 := by
  rw [encodeUtf8]
  split_ifs <;> simp

/-- The bits of a first byte stand below its marker. -/
theorem or_eq_add {a b : ℕ} (i : ℕ) (h : b < 2 ^ i) : 2 ^ i * a ||| b = b + 2 ^ i * a := by
  rw [← Nat.two_pow_add_eq_or_of_lt h, Nat.add_comm]

/-- Six bits of a byte that continues a sequence. -/
theorem continuation_eq (n : ℕ) : 0x80 ||| n &&& 0x3F = n % 0x40 + 0x80 := by
  have hmod : n &&& 0x3F = n % 0x40 := Nat.and_two_pow_sub_one_eq_mod n 6
  rw [hmod]
  exact or_eq_add (a := 2) 6 (Nat.mod_lt _ (by decide))

/-- The code points are encoded as UTF-8. -/
theorem encodeUtf8_eq {v : ℕ} (h : v < 0x200000) : encodeUtf8 v = Library.Utf8.encode v := by
  have hbyte (n : ℕ) : n &&& 0xFF = n % 0x100 := Nat.and_two_pow_sub_one_eq_mod n 8
  unfold encodeUtf8 Library.Utf8.encode
  simp only [Nat.shiftRight_eq_div_pow, continuation_eq, hbyte]
  split_ifs with h1 h2 h3
  · rfl
  · have hc : 0xC0 ||| v / 2 ^ 6 % 0x100 = v / 64 % 0x20 + 0xc0 := by
      rw [show v / 2 ^ 6 % 0x100 = v / 64 % 0x20 by omega]
      exact or_eq_add (a := 6) 5 (Nat.mod_lt _ (by decide))
    rw [hc]
  · have hc : 0xE0 ||| v / 2 ^ 12 % 0x100 = v / 4096 % 0x10 + 0xe0 := by
      rw [show v / 2 ^ 12 % 0x100 = v / 4096 % 0x10 by omega]
      exact or_eq_add (a := 14) 4 (Nat.mod_lt _ (by decide))
    rw [hc]
  · have hc : 0xF0 ||| v / 2 ^ 18 % 0x100 = v / 262144 % 0x08 + 0xf0 := by
      rw [show v / 2 ^ 18 % 0x100 = v / 262144 % 0x08 by omega]
      exact or_eq_add (a := 30) 3 (Nat.mod_lt _ (by decide))
    rw [hc]

end AnyRpc
