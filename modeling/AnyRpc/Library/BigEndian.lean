import Mathlib.Algebra.Order.Group.Nat
import Mathlib.Data.Nat.ModEq

/-! # Big-endian integers

The bytes of a natural number, most significant first, and the number that a sequence of bytes
stands for. A fixed number of bytes keeps the number modulo a power of 256. -/

namespace AnyRpc.Library

/-- The `k` low bytes of a number, most significant first. -/
def bigEndian : ℕ → ℕ → List UInt8
  | 0, _ => []
  | k + 1, n => UInt8.ofNat (n / 256 ^ k) :: bigEndian k n

/-- The number that bytes stand for, most significant first. -/
def ofBigEndian (bytes : List UInt8) : ℕ := bytes.foldl (fun n c => 256 * n + c.toNat) 0

@[simp] theorem length_bigEndian (k n : ℕ) : (bigEndian k n).length = k := by
  induction k with
  | zero => rfl
  | succ k ih => rw [bigEndian, List.length_cons, ih]

/-- Reading the bytes after a number shifts it. -/
theorem foldl_bigEndian (k n m : ℕ) :
    (bigEndian k n).foldl (fun n c => 256 * n + c.toNat) m = 256 ^ k * m + n % 256 ^ k := by
  induction k generalizing m with
  | zero => simp [bigEndian, Nat.mod_one]
  | succ k ih =>
    have hmod : n % 256 ^ (k + 1) = 256 ^ k * (n / 256 ^ k % 256) + n % 256 ^ k := by
      rw [pow_succ, Nat.mod_mul, Nat.add_comm]
    rw [bigEndian, List.foldl_cons, ih, hmod, UInt8.toNat_ofNat', show 2 ^ 8 = 256 from rfl,
      pow_succ, Nat.mul_add, ← Nat.mul_assoc, ← Nat.add_assoc]

/-- Reading what was written gives the number, as far as it fits. -/
theorem ofBigEndian_bigEndian (k n : ℕ) : ofBigEndian (bigEndian k n) = n % 256 ^ k := by
  rw [ofBigEndian, foldl_bigEndian, Nat.mul_zero, Nat.zero_add]

/-- The bytes depend only on the part of the number that fits. -/
theorem bigEndian_congr {k n m : ℕ} (h : n % 256 ^ k = m % 256 ^ k) :
    bigEndian k n = bigEndian k m := by
  induction k with
  | zero => rfl
  | succ k ih =>
    have hlow : n % 256 ^ k = m % 256 ^ k := by
      have hdvd : 256 ^ k ∣ 256 ^ (k + 1) := Dvd.intro _ (pow_succ 256 k).symm
      rw [← Nat.mod_mod_of_dvd n hdvd, h, Nat.mod_mod_of_dvd m hdvd]
    have hhigh : n / 256 ^ k % 256 = m / 256 ^ k % 256 := by
      rw [← Nat.mod_mul_right_div_self, ← Nat.mod_mul_right_div_self, ← pow_succ, h]
    rw [bigEndian, bigEndian, ih hlow, ← UInt8.ofNat_mod_size, hhigh, UInt8.ofNat_mod_size]

end AnyRpc.Library
