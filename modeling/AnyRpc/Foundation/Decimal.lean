import AnyRpc.Foundation.Text
import Mathlib.Data.Nat.Digits.Lemmas

/-! # Numbers in text

`atoi`, and what it makes of a number that the program has written. -/

namespace AnyRpc

/-- What `atoi` gives for a number that does not fit an `int`, where the C standard leaves its
behaviour undefined. -/
class IntOverflow where
  value : ℤ → BitVec 32

/-- An `atoi` that takes the lower bits of the number, for examples. -/
@[reducible]
def IntOverflow.truncate : IntOverflow where
  value := BitVec.ofInt 32

/-- The `atoi` of the GNU library: `strtol` saturates, and its result is cut down to an `int`. -/
@[reducible]
def IntOverflow.glibc : IntOverflow where
  value z := BitVec.ofInt 32 (max (-2 ^ 63) (min z (2 ^ 63 - 1)))

/-- The number that a sequence of decimal digits stands for. -/
def digitsValue (s : Bytes) : ℕ :=
  Nat.ofDigits 10 (s.reverse.map fun c => c.toNat - 0x30)

/-- The number at the start of a text: white space, a sign, digits. -/
def leadingNumber (s : Bytes) : ℤ :=
  let s := s.dropWhile isSpace
  if s.head? = some 0x2d then -(digitsValue ((s.drop 1).takeWhile isDigit) : ℤ)
  else if s.head? = some 0x2b then digitsValue ((s.drop 1).takeWhile isDigit)
  else digitsValue (s.takeWhile isDigit)

/-- `atoi`. -/
def atoi [IntOverflow] (s : Bytes) : ℤ :=
  let z := leadingNumber s
  if -2 ^ 31 ≤ z ∧ z < 2 ^ 31 then z else (IntOverflow.value z).toInt

/-- The conversion of an `int` to a `size_t`. -/
def toSize (z : ℤ) : ℕ := (z % 2 ^ 64).toNat

/-! ## Reading a number stops behind it -/

/-- The first characters with a property do not depend on what follows one without it. -/
theorem takeWhile_append_of_mem {p : UInt8 → Bool} {s : Bytes} {c : UInt8} (hc : c ∈ s)
    (hp : p c = false) (l : Bytes) : (s ++ l).takeWhile p = s.takeWhile p := by
  rw [List.takeWhile_append, if_neg]
  intro hlength
  have hall : s.takeWhile p = s := (List.takeWhile_prefix p).eq_of_length hlength
  have hpc := List.mem_takeWhile_imp (hall.symm ▸ hc)
  rw [hp] at hpc
  cases hpc

/-- What is behind the first characters with a property goes on with what follows. -/
theorem dropWhile_append_of_mem {p : UInt8 → Bool} {s : Bytes} {c : UInt8} (hc : c ∈ s)
    (hp : p c = false) (l : Bytes) :
    (s ++ l).dropWhile p = s.dropWhile p ++ l ∧ c ∈ s.dropWhile p := by
  have hmem : c ∈ s.dropWhile p := by
    have hsplit := List.takeWhile_append_dropWhile (p := p) (l := s)
    rw [← hsplit, List.mem_append] at hc
    rcases hc with hc | hc
    · have hpc := List.mem_takeWhile_imp hc
      rw [hp] at hpc
      cases hpc
    · exact hc
  refine ⟨?_, hmem⟩
  rw [List.dropWhile_append, if_neg]
  intro hempty
  rw [List.isEmpty_iff.mp hempty] at hmem
  cases hmem

/-- The number at the start of a text ends at a colon. -/
theorem leadingNumber_append {s : Bytes} (h : (0x3a : UInt8) ∈ s) (l : Bytes) :
    leadingNumber (s ++ l) = leadingNumber s := by
  obtain ⟨hdrop, hmem⟩ := dropWhile_append_of_mem h (show isSpace 0x3a = false by decide) l
  have hdigit : isDigit 0x3a = false := by decide
  unfold leadingNumber
  simp only
  rw [hdrop]
  generalize s.dropWhile isSpace = t at hmem
  obtain ⟨c, u, rfl⟩ := List.exists_cons_of_ne_nil (List.ne_nil_of_mem hmem)
  -- The colon is behind a sign.
  have htail (hc : c ≠ 0x3a) : (u ++ l).takeWhile isDigit = u.takeWhile isDigit :=
    takeWhile_append_of_mem ((List.mem_cons.mp hmem).resolve_left (Ne.symm hc)) hdigit l
  rw [takeWhile_append_of_mem hmem hdigit l]
  simp only [List.cons_append, List.head?_cons, List.drop_succ_cons, List.drop_zero,
    Option.some.injEq]
  by_cases hminus : c = 0x2d
  · rw [if_pos hminus, if_pos hminus, htail (by rw [hminus]; decide)]
  · rw [if_neg hminus, if_neg hminus]
    by_cases hplus : c = 0x2b
    · rw [if_pos hplus, if_pos hplus, htail (by rw [hplus]; decide)]
    · rw [if_neg hplus, if_neg hplus]

theorem atoi_append [IntOverflow] {s : Bytes} (h : (0x3a : UInt8) ∈ s) (l : Bytes) :
    atoi (s ++ l) = atoi s := by
  rw [atoi, atoi, leadingNumber_append h]

/-! ## Reading what was written -/

theorem toNat_digitChar {d : ℕ} (h : d < 10) : (digitChar d).toNat = 0x30 + d := by
  rw [digitChar, UInt8.toNat_ofNat']
  omega

theorem isDigit_digitChar {d : ℕ} (h : d < 10) : isDigit (digitChar d) = true := by
  have hnat := toNat_digitChar h
  rw [isDigit, Bool.and_eq_true, decide_eq_true_eq, decide_eq_true_eq, UInt8.le_iff_toNat_le,
    UInt8.le_iff_toNat_le, hnat]
  simp only [UInt8.reduceToNat]
  omega

/-- The digits of a number are written as digits. -/
theorem mem_decimal {n : ℕ} {c : UInt8} (hc : c ∈ decimal n) : ∃ d < 10, c = digitChar d := by
  unfold decimal at hc
  split at hc
  · exact ⟨0, by decide, List.mem_singleton.mp hc⟩
  · obtain ⟨d, hd, rfl⟩ := List.mem_map.mp hc
    exact ⟨d, Nat.digits_lt_base (by decide) (List.mem_reverse.mp hd), rfl⟩

theorem isDigit_of_mem_decimal {n : ℕ} {c : UInt8} (hc : c ∈ decimal n) : isDigit c = true := by
  obtain ⟨d, hd, rfl⟩ := mem_decimal hc
  exact isDigit_digitChar hd

/-- A number is written without characters that are no digits. -/
theorem notMem_decimal {c : UInt8} (hc : isDigit c = false) (n : ℕ) : c ∉ decimal n := by
  intro hmem
  rw [isDigit_of_mem_decimal hmem] at hc
  cases hc

/-- A number has as many digits as powers of ten below it, and at least one. -/
theorem length_decimal_le {n k : ℕ} (hk : 0 < k) (h : n < 10 ^ k) :
    (decimal n).length ≤ k ∧ 0 < (decimal n).length := by
  unfold decimal
  by_cases hn : n = 0
  · rw [if_pos hn]
    exact ⟨hk, by decide⟩
  · rw [if_neg hn, List.length_map, List.length_reverse]
    refine ⟨(Nat.digits_length_le_iff (by decide) n).mpr h, ?_⟩
    exact List.length_pos_iff.mpr (Nat.digits_ne_nil_iff_ne_zero.mpr hn)

theorem decimal_ne_nil (n : ℕ) : decimal n ≠ [] := by
  obtain ⟨-, hpos⟩ := length_decimal_le (n := n) (k := n + 1) (Nat.succ_pos n)
    ((Nat.lt_pow_self (by decide)).trans (Nat.pow_lt_pow_right (by decide) (Nat.lt_succ_self n)))
  exact List.ne_nil_of_length_pos hpos

theorem digitsValue_decimal (n : ℕ) : digitsValue (decimal n) = n := by
  unfold digitsValue decimal
  by_cases hn : n = 0
  · rw [if_pos hn, hn]
    rfl
  · have hdigits : ((Nat.digits 10 n).map digitChar).map (fun c => c.toNat - 0x30) =
        Nat.digits 10 n := by
      rw [List.map_map]
      refine (List.map_congr_left fun d hd => ?_).trans (List.map_id _)
      have hlt : d < 10 := Nat.digits_lt_base (by decide) hd
      rw [Function.comp_apply, toNat_digitChar hlt, Nat.add_sub_cancel_left, id]
    rw [if_neg hn, ← List.map_reverse, List.reverse_reverse, hdigits, Nat.ofDigits_digits]

/-- Digits at the start of a text are read as the number that they stand for. -/
theorem leadingNumber_of_isDigit {s l : Bytes} (hs : ∀ c ∈ s, isDigit c = true) (hne : s ≠ [])
    (hl : ∀ c ∈ l.head?, isDigit c = false) : leadingNumber (s ++ l) = digitsValue s := by
  have htake : (s ++ l).takeWhile isDigit = s := by
    rw [List.takeWhile_append_of_pos hs]
    cases l with
    | nil => exact List.append_nil s
    | cons c l => rw [List.takeWhile_cons, hl c rfl, if_neg Bool.false_ne_true, List.append_nil]
  -- The first character is a digit, and so neither white space nor a sign.
  obtain ⟨c, t, rfl⟩ := List.exists_cons_of_ne_nil hne
  have hc := hs c List.mem_cons_self
  rw [isDigit, Bool.and_eq_true, decide_eq_true_eq, decide_eq_true_eq, UInt8.le_iff_toNat_le,
    UInt8.le_iff_toNat_le] at hc
  simp only [UInt8.reduceToNat] at hc
  have hspace : isSpace c = false := by
    rw [isSpace, Bool.or_eq_false_iff, Bool.and_eq_false_iff, decide_eq_false_iff_not,
      decide_eq_false_iff_not, decide_eq_false_iff_not, UInt8.le_iff_toNat_le,
      UInt8.le_iff_toNat_le, ← UInt8.toNat_inj]
    simp only [UInt8.reduceToNat]
    omega
  have hsign (c' : UInt8) (hc' : c'.toNat < 0x30) : c ≠ c' := by
    rintro rfl
    omega
  have hdrop : (c :: t ++ l).dropWhile isSpace = c :: t ++ l := by
    rw [List.cons_append, List.dropWhile_cons, if_neg (by rw [hspace]; decide)]
  have hhead : (c :: t ++ l).head? = some c := rfl
  unfold leadingNumber
  simp only
  rw [hdrop, hhead, if_neg (by simpa using hsign 0x2d (by decide)),
    if_neg (by simpa using hsign 0x2b (by decide)), htake]

/-- A number that is written before a colon is read back. -/
theorem atoi_decimal [IntOverflow] {n : ℕ} (h : n < 2 ^ 31) (l : Bytes) :
    atoi (decimal n ++ 0x3a :: l) = n := by
  have hnumber : leadingNumber (decimal n ++ 0x3a :: l) = n := by
    rw [leadingNumber_of_isDigit (fun c => isDigit_of_mem_decimal) (decimal_ne_nil n)
      (by rintro c ⟨⟩; decide), digitsValue_decimal]
  rw [atoi, hnumber, if_pos (by omega)]

end AnyRpc
