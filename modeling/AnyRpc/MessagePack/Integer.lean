import AnyRpc.Document.Build
import AnyRpc.MessagePack.Reader
import AnyRpc.MessagePack.Writer

/-! # Integers in MessagePack

The encoding of an integer does not depend on the call by which it is written (`integerBytes`), and
reading it gives one call that delivers the same integer (`integerScalar`). -/

namespace AnyRpc

open Library MessagePack

/-- The encoding of an integer of the joint range of `int64_t` and `uint64_t`. -/
def integerBytes (z : ℤ) : Bytes :=
  let w := (z % 2 ^ 64).toNat
  if z < -2 ^ 31 then Format.int64 :: bigEndian 8 w
  else if z < -2 ^ 15 then Format.int32 :: bigEndian 4 w
  else if z < -2 ^ 7 then Format.int16 :: bigEndian 2 w
  else if z < -2 ^ 5 then [Format.int8, UInt8.ofNat w]
  else if z < 2 ^ 7 then [UInt8.ofNat w]
  else if z < 2 ^ 8 then [Format.uint8, UInt8.ofNat w]
  else if z < 2 ^ 16 then Format.uint16 :: bigEndian 2 w
  else if z < 2 ^ 32 then Format.uint32 :: bigEndian 4 w
  else Format.uint64 :: bigEndian 8 w

/-- The call by which an integer that is read is delivered. -/
def integerScalar (z : ℤ) : Scalar :=
  if z < -2 ^ 31 then .int64 (.ofInt 64 z)
  else if z < 0 then .int (.ofInt 32 z)
  else if z < 2 ^ 32 then .uint (.ofInt 32 z)
  else .uint64 (.ofInt 64 z)

/-! ## Writing -/

namespace MessagePackWriter

/-- The bits of an integer, from its value. -/
theorem toNat_eq_emod {n : ℕ} (x : BitVec n) : x.toNat = (x.toInt % 2 ^ n).toNat := by
  have h : (BitVec.ofInt n x.toInt).toNat = _ := BitVec.toNat_ofInt _
  rw [BitVec.ofInt_toInt] at h
  exact_mod_cast h

/-- Two numbers with the same low byte. -/
theorem ofNat_congr {n m : ℕ} (h : n % 256 = m % 256) : UInt8.ofNat n = UInt8.ofNat m := by
  rw [← UInt8.ofNat_mod_size, h, UInt8.ofNat_mod_size]

/-- `WriteUint` writes the integer. -/
theorem writeUint_eq (u : BitVec 32) : writeUint u = integerBytes u.toNat := by
  have hlt := u.isLt
  have hw : ((u.toNat : ℤ) % 2 ^ 64).toNat = u.toNat := by omega
  simp only [writeUint, integerBytes, hw]
  split_ifs <;> first | omega | rfl

/-- `WriteUint64` writes the integer. -/
theorem writeUint64_eq (u64 : BitVec 64) : writeUint64 u64 = integerBytes u64.toNat := by
  have hlt := u64.isLt
  generalize hn : u64.toNat = n at *
  have hw : ((n : ℤ) % 2 ^ 64).toNat = n := by omega
  have h₁ : ¬ (n : ℤ) < -2 ^ 31 := by omega
  have h₂ : ¬ (n : ℤ) < -2 ^ 15 := by omega
  have h₃ : ¬ (n : ℤ) < -2 ^ 7 := by omega
  have h₄ : ¬ (n : ℤ) < -2 ^ 5 := by omega
  simp only [writeUint64, integerBytes, hw, hn]
  rw [if_neg h₁, if_neg h₂, if_neg h₃, if_neg h₄]
  norm_cast
  split_ifs <;> first | rfl | omega

/-- `Int` writes the integer. -/
theorem int_eq (i : BitVec 32) : int i = integerBytes i.toInt := by
  have hlo := BitVec.le_toInt i
  have hhi := BitVec.toInt_lt (x := i)
  have hnat := toNat_eq_emod i
  have hunsigned : ¬ i.toInt < -2 ^ 5 → (i.toNat : ℤ) = i.toInt ∨ i.toInt < 2 ^ 7 := by omega
  by_cases hbig : ¬ i.toInt < -2 ^ 5 ∧ ¬ i.toInt < 2 ^ 7
  · have heq : (i.toNat : ℤ) = i.toInt := (hunsigned hbig.1).resolve_right hbig.2
    rw [int, if_neg hbig.1, if_neg hbig.2, writeUint_eq, heq]
  · have h4 : bigEndian 4 i.toNat = bigEndian 4 (i.toInt % 2 ^ 64).toNat :=
      bigEndian_congr (by omega)
    have h2 : bigEndian 2 i.toNat = bigEndian 2 (i.toInt % 2 ^ 64).toNat :=
      bigEndian_congr (by omega)
    have h1 : UInt8.ofNat i.toNat = UInt8.ofNat (i.toInt % 2 ^ 64).toNat :=
      ofNat_congr (by omega)
    simp only [int, integerBytes, h4, h2, h1]
    split_ifs <;> first | omega | rfl

/-- `Int64` writes the integer. -/
theorem int64_eq (i64 : BitVec 64) : int64 i64 = integerBytes i64.toInt := by
  have hlo := BitVec.le_toInt i64
  have hhi := BitVec.toInt_lt (x := i64)
  have hnat := toNat_eq_emod i64
  by_cases hbig : ¬ i64.toInt < -2 ^ 5 ∧ ¬ i64.toInt < 2 ^ 7
  · have heq : (i64.toNat : ℤ) = i64.toInt := by omega
    rw [int64, if_neg hbig.1, if_neg hbig.2, writeUint64_eq, heq]
  · simp only [int64, integerBytes, hnat]
    split_ifs <;> first | omega | rfl

variable [Platform]

/-- The call for an integer writes it, whichever call it is. -/
theorem scalar_numberScalar {z : ℤ} (hz : Number.InRange z) :
    scalar (Value.numberScalar (.ofInteger z)) = integerBytes z := by
  obtain ⟨hlo, hhi⟩ := hz
  simp only [Value.numberScalar, Number.isInt_ofInteger, Number.isUint_ofInteger,
    Number.isInt64_ofInteger, Number.isUint64_ofInteger, decide_eq_true_eq]
  have hdata : (Number.ofInteger z).data = BitVec.ofInt 64 z := rfl
  split_ifs with h₁ h₂ h₃ h₄
  · have hint : (BitVec.setWidth 32 (BitVec.ofInt 64 z)).toInt = z := by
      rw [BitVec.toInt_setWidth, BitVec.toNat_ofInt, Int.bmod]
      split_ifs <;> omega
    rw [hdata, scalar, int_eq, hint]
  · have hnat : ((BitVec.setWidth 32 (BitVec.ofInt 64 z)).toNat : ℤ) = z := by
      rw [BitVec.toNat_setWidth, BitVec.toNat_ofInt]
      omega
    rw [hdata, scalar, writeUint_eq, hnat]
  · have hint : (BitVec.ofInt 64 z).toInt = z := by
      rw [BitVec.toInt_ofInt, Int.bmod]
      split_ifs <;> omega
    rw [hdata, scalar, int64_eq, hint]
  · have hnat : ((BitVec.ofInt 64 z).toNat : ℤ) = z := by
      rw [BitVec.toNat_ofInt]
      omega
    rw [hdata, scalar, writeUint64_eq, hnat]
  · omega
  · omega

end MessagePackWriter

/-! ## Reading -/

/-- The call that delivers an integer assigns it. -/
theorem value_integerScalar [Platform] {z : ℤ} (hz : Number.InRange z) :
    (integerScalar z).build = .ok (.number (.ofInteger z)) := by
  obtain ⟨hlo, hhi⟩ := hz
  rw [integerScalar]
  split_ifs with h₁ h₂ h₃
  · have hint : (BitVec.ofInt 64 z).toInt = z := by
      rw [BitVec.toInt_ofInt, Int.bmod]
      split_ifs <;> omega
    show Except.ok (Value.number (.ofInt64 _)) = _
    rw [Number.ofInt64_eq, hint]
  · have hint : (BitVec.ofInt 32 z).toInt = z := by
      rw [BitVec.toInt_ofInt, Int.bmod]
      split_ifs <;> omega
    show Except.ok (Value.number (.ofInt _)) = _
    rw [Number.ofInt_eq, hint]
  · have hnat : ((BitVec.ofInt 32 z).toNat : ℤ) = z := by
      rw [BitVec.toNat_ofInt]
      omega
    show Except.ok (Value.number (.ofUint _)) = _
    rw [Number.ofUint_eq, hnat]
  · have hnat : ((BitVec.ofInt 64 z).toNat : ℤ) = z := by
      rw [BitVec.toNat_ofInt]
      omega
    show Except.ok (Value.number (.ofUint64 _)) = _
    rw [Number.ofUint64_eq, hnat]

end AnyRpc
