import AnyRpc.Reader.NumberText

/-! # `ParseNumber` part by part

What each of the loops of `ParseNumber` does with the digits of its part. -/

namespace AnyRpc

open Library NumberText

/-! ## Taking digits up to a bound -/

/-- No digit is left exactly when the number is up to the bound. -/
theorem within_snd_eq_nil {max acc : ℕ} (hacc : acc ≤ max) (ds : Bytes) :
    (within max acc ds).2 = [] ↔ digitsFrom acc ds ≤ max := by
  constructor
  · intro h
    obtain ⟨us, hsplit, hvalue, hle, -⟩ := within_spec hacc ds
    rw [h, List.append_nil] at hsplit
    rw [hsplit, ← hvalue]
    exact hle
  · intro h
    rw [within_of_le h]

namespace ParseNumber

/-! ## Loops -/

theorem whileDigit_of_noDigit {stop : Stop} {next : Next} {n : ParseNumber} {r : Bytes}
    (hr : NoDigit r) : whileDigit stop next n r = .ok n r := by
  cases r with
  | nil => rfl
  | cons c r =>
    have hc : isDigit c = false := hr c rfl
    rw [whileDigit, hc]
    rfl

theorem whileDigit_cons {stop : Stop} {next : Next} {n : ParseNumber} {c : UInt8} {s : Bytes}
    (hc : isDigit c = true) :
    whileDigit stop next n (c :: s) =
      match stop n c with
      | .error f => .error f (c :: s)
      | .ok (some n) => .ok n (c :: s)
      | .ok none =>
        match next n (digitValue c) with
        | .error f => .error f s
        | .ok n => whileDigit stop next n s := by
  rw [whileDigit]
  exact if_pos hc

/-- A loop that takes digits up to a bound, in states that are told by the number so far and by how
many digits there were. -/
theorem whileDigit_within (stop : Stop) (next : Next) (max : ℕ) (state : ℕ → ℕ → ParseNumber)
    (leave : ParseNumber → ParseNumber)
    (hstop : ∀ acc k c, acc ≤ max → isDigit c = true → stop (state acc k) c =
      .ok (if acc * 10 + digitValue c ≤ max then none else some (leave (state acc k))))
    (hnext : ∀ acc k digit, acc * 10 + digit ≤ max →
      next (state acc k) digit = .ok (state (acc * 10 + digit) (k + 1)))
    {ds r : Bytes} (hds : ∀ c ∈ ds, isDigit c = true) (hr : NoDigit r) {acc : ℕ} (hacc : acc ≤ max)
    (k : ℕ) :
    ∃ k', k' + (within max acc ds).2.length = k + ds.length ∧
      whileDigit stop next (state acc k) (ds ++ r) =
        .ok (if (within max acc ds).2 = [] then state (within max acc ds).1 k'
          else leave (state (within max acc ds).1 k')) ((within max acc ds).2 ++ r) := by
  induction ds generalizing acc k with
  | nil => exact ⟨k, rfl, whileDigit_of_noDigit hr⟩
  | cons c ds ih =>
    have hc := hds c List.mem_cons_self
    rw [List.cons_append, whileDigit_cons hc, hstop acc k c hacc hc, within]
    by_cases h : acc * 10 + digitValue c ≤ max
    · obtain ⟨k', hk, hrun⟩ := ih (fun d hd => hds d (List.mem_cons_of_mem _ hd)) h (k + 1)
      refine ⟨k', by rw [if_pos h, hk, List.length_cons]; omega, ?_⟩
      rw [if_pos h, if_pos h]
      simp only [hnext acc k _ h]
      exact hrun
    · refine ⟨k, by rw [if_neg h], ?_⟩
      rw [if_neg h, if_neg h, if_neg (List.cons_ne_nil c ds)]
      rfl

/-! ## The integer -/

/-- The guards of the source against a truncated quotient and a last digit say that the number would
leave the range. -/
theorem guard_iff (limit max acc : ℕ) (last : UInt8) {c : UInt8} (hmax : max = limit * 10 + digitValue last)
    (hlast : isDigit last = true) (hc : isDigit c = true) :
    (limit ≤ acc ∧ (acc ≠ limit ∨ last < c)) ↔ max < acc * 10 + digitValue c := by
  have hc9 := digitValue_le hc
  have hlast9 := digitValue_le hlast
  have hlt : last < c ↔ digitValue last < digitValue c := by
    have h₁ := isDigit_iff.mp hc
    have h₂ := isDigit_iff.mp hlast
    rw [UInt8.lt_iff_toNat_lt]
    unfold digitValue
    omega
  rw [hlt, hmax]
  omega

theorem stop32_eq {n : ParseNumber} {c : UInt8} (hc : isDigit c = true) :
    stop32 n c = .ok (if n.i * 10 + digitValue c ≤ max32 n.minus then none
      else some { n with i64 := n.i, use64bit := true }) := by
  have hguard := guard_iff (if n.minus then 214748364 else 429496729) (max32 n.minus) n.i
    (if n.minus then 0x38 else 0x35)
    (by cases n.minus <;> decide +kernel) (by cases n.minus <;> decide) hc
  unfold stop32
  simp only [hguard]
  by_cases h : n.i * 10 + digitValue c ≤ max32 n.minus
  · rw [if_pos h, if_neg (not_lt.mpr h)]
  · rw [if_neg h, if_pos (not_le.mp h)]

theorem next32_eq {n : ParseNumber} {digit : ℕ} (h : n.i * 10 + digit ≤ max32 n.minus) :
    next32 n digit =
      .ok { n with i := n.i * 10 + digit, significandDigit := n.significandDigit + 1 } := by
  have hmax : max32 n.minus < 2 ^ 32 := by cases n.minus <;> decide
  rw [next32, Nat.mod_eq_of_lt (h.trans_lt hmax)]

variable [Platform]

theorem stop64_eq {n : ParseNumber} {c : UInt8} (hc : isDigit c = true) :
    stop64 n c = .ok (if n.i64 * 10 + digitValue c ≤ max64 n.minus then none
      else some { n with d := Platform.doubleOfNat n.i64, useDouble := true }) := by
  have hguard := guard_iff (if n.minus then 0x0CCCCCCCCCCCCCCC else 0x1999999999999999)
    (max64 n.minus) n.i64 (if n.minus then 0x38 else 0x35)
    (by cases n.minus <;> decide +kernel) (by cases n.minus <;> decide) hc
  unfold stop64
  simp only [hguard]
  by_cases h : n.i64 * 10 + digitValue c ≤ max64 n.minus
  · rw [if_pos h, if_neg (not_lt.mpr h)]
  · rw [if_neg h, if_pos (not_le.mp h)]

omit [Platform] in
theorem next64_eq {n : ParseNumber} {digit : ℕ} (h : n.i64 * 10 + digit ≤ max64 n.minus) :
    next64 n digit =
      .ok { n with i64 := n.i64 * 10 + digit, significandDigit := n.significandDigit + 1 } := by
  have hmax : max64 n.minus < 2 ^ 64 := by cases n.minus <;> decide
  rw [next64, Nat.mod_eq_of_lt (h.trans_lt hmax)]

/-- The loop for a double is left at the end of the digits, or when it gets too big. -/
theorem wp_bigInt {ds r : Bytes} (hds : ∀ c ∈ ds, isDigit c = true) (hr : NoDigit r)
    (n : ParseNumber) :
    wp (whileDigit stopTooBig nextDouble n)
      (fun n' r' => exceeds n.d ds = false ∧ r' = r ∧ ∃ d, n' = { n with d })
      (fun f _ => exceeds n.d ds = true ∧ f = tooBig) (ds ++ r) := by
  induction ds generalizing n with
  | nil =>
    rw [List.nil_append, wp, whileDigit_of_noDigit hr]
    exact ⟨rfl, rfl, n.d, rfl⟩
  | cons c ds ih =>
    have hc := hds c List.mem_cons_self
    have hrest := ih (fun d hd => hds d (List.mem_cons_of_mem _ hd))
    rw [List.cons_append, wp, whileDigit_cons hc, exceeds]
    cases hge : Platform.ge n.d maxTenth with
    | true =>
      simp only [stopTooBig, hge, if_true, Bool.true_or]
      exact ⟨trivial, trivial⟩
    | false =>
      simp only [stopTooBig, hge, nextDouble, Bool.false_eq_true, if_false, Bool.false_or]
      refine wp_mono (hrest { n with d := appendDigit n.d (digitValue c) }) ?_ fun _ _ h => h
      rintro n' r' ⟨hexceeds, hr', d, rfl⟩
      exact ⟨hexceeds, hr', d, rfl⟩

/-- The locals of `ParseNumber` behind the digits `ds` of the integer part. -/
structure IntRead (m : Bool) (ds : Bytes) (n : ParseNumber) : Prop where
  minus : n.minus = m
  exp : n.exp = 0
  expFrac : n.expFrac = 0
  use64bit : n.use64bit = decide (max32 m < digitsFrom 0 ds)
  useDouble : n.useDouble = decide (max64 m < digitsFrom 0 ds)
  significand : digitsFrom 0 ds ≤ max64 m →
    (if n.use64bit then n.i64 else n.i) = digitsFrom 0 ds ∧ n.significandDigit + 1 = ds.length
  big : max64 m < digitsFrom 0 ds → 17 ≤ n.significandDigit ∧ 18 ≤ ds.length

/-- Parse int, Parse 64bit int, Force double for big integer. -/
def parseInteger (n : ParseNumber) : Exec Bytes ParseNumber := do
  let n ← parseInt n
  let n ← parseInt64 n
  parseBigInt n

/-- The loops for 64 bits and for a double, over the digits `vs` that 32 bits have no room for. -/
theorem wp_int64Digits {m : Bool} {c : UInt8} {ds vs r : Bytes} {acc k : ℕ}
    (hc : isDigit c = true) (hds : ∀ d ∈ ds, isDigit d = true) (hr : NoDigit r)
    (hwithin : within (max32 m) (digitValue c) ds = (acc, vs)) (hvs : vs ≠ [])
    (hk : k + vs.length = ds.length) :
    wp (do
        let n ← parseInt64
          { minus := m, i := acc, i64 := acc, use64bit := true, significandDigit := k }
        parseBigInt n)
      (fun n r' => exceeds (Platform.doubleOfNat (within (max64 m) (digitValue c) ds).1)
          (within (max64 m) (digitValue c) ds).2 = false ∧ r' = r ∧ IntRead m (c :: ds) n)
      (fun f _ => exceeds (Platform.doubleOfNat (within (max64 m) (digitValue c) ds).1)
          (within (max64 m) (digitValue c) ds).2 = true ∧ f = tooBig) (vs ++ r) := by
  have hc9 := digitValue_le hc
  have hacc : digitValue c ≤ max32 m := hc9.trans (by cases m <;> decide)
  have hvalue : digitsFrom 0 (c :: ds) = digitsFrom (digitValue c) ds := by
    rw [digitsFrom_cons, Nat.zero_mul, Nat.zero_add]
  obtain ⟨us, hsplit, -, hfst_le, -⟩ := within_spec hacc ds
  have hnil := within_snd_eq_nil hacc ds
  have hcompose := within_within (max32_le_max64 m) (digitValue c) ds
  rw [hwithin] at hsplit hfst_le hnil hcompose
  have h32 : max32 m < digitsFrom (digitValue c) ds := not_le.mp fun h => hvs (hnil.mpr h)
  have hvsDigit : ∀ d ∈ vs, isDigit d = true := fun d hd =>
    hds d (hsplit ▸ List.mem_append_right us hd)
  obtain ⟨k', hk', hrun⟩ := whileDigit_within stop64 next64 (max64 m)
    (fun i64 k => { minus := m, i := acc, i64, use64bit := true, significandDigit := k })
    (fun n => { n with d := Platform.doubleOfNat n.i64, useDouble := true })
    (fun acc k d _ hd => stop64_eq hd) (fun acc k digit h => next64_eq h) hvsDigit hr
    (hfst_le.trans (max32_le_max64 m)) k
  have hparse : parseInt64 { minus := m, i := acc, i64 := acc, use64bit := true,
                             significandDigit := k } (vs ++ r) = _ := hrun
  rw [wp_bind_of_ok hparse, hcompose]
  rw [hcompose] at hk'
  have hcle : digitValue c ≤ max64 m := hacc.trans (max32_le_max64 m)
  have hnil' := within_snd_eq_nil hcle ds
  obtain ⟨us', hsplit', hfst', -, hnext'⟩ := within_spec hcle ds
  generalize within (max64 m) (digitValue c) ds = w at hk' hnil' hsplit' hfst' hnext' ⊢
  obtain ⟨acc', vs'⟩ := w
  simp only at hk' hnil' hsplit' hfst' hnext' ⊢
  by_cases hvs' : vs' = []
  · have h64 := hnil'.mp hvs'
    subst hvs'
    rw [List.append_nil] at hsplit'
    subst hsplit'
    rw [if_pos rfl]
    refine ⟨rfl, rfl, rfl, rfl, rfl, ?_, ?_, fun _ => ⟨?_, ?_⟩, fun h => ?_⟩
    · rw [hvalue, decide_eq_true h32]
    · rw [hvalue, decide_eq_false (not_lt.mpr h64)]
    · rw [hvalue]
      exact hfst'
    · simp only [List.length_nil, Nat.add_zero] at hk'
      simp only [List.length_cons]
      omega
    · rw [hvalue] at h
      exact absurd h64 (not_le.mpr h)
  rw [if_neg hvs']
  have h64 : max64 m < digitsFrom (digitValue c) ds := not_le.mp fun h => hvs' (hnil'.mpr h)
  have hus : ∀ d ∈ us', isDigit d = true := fun d hd => hds d (hsplit' ▸ List.mem_append_left vs' hd)
  -- The digits that are taken make a number of 18 digits.
  have hlength : 17 ≤ us'.length := by
    obtain ⟨d, vs'', hd⟩ := List.exists_cons_of_ne_nil hvs'
    have hd9 : digitValue d ≤ 9 :=
      digitValue_le (hds d (hsplit' ▸ hd ▸ List.mem_append_right us' List.mem_cons_self))
    have hmax : 2 ^ 63 ≤ max64 m := by cases m <;> decide
    have hlt := digitsFrom_lt hus (digitValue c)
    have hnext := hnext' d vs'' hd
    by_contra hshort
    have hpow : 10 ^ us'.length ≤ 10 ^ 16 := Nat.pow_le_pow_right (by decide) (by omega)
    have hmul : (digitValue c + 1) * 10 ^ us'.length ≤ 10 * 10 ^ 16 :=
      Nat.mul_le_mul (by omega) hpow
    omega
  have hds' : ds.length = us'.length + vs'.length := by rw [hsplit', List.length_append]
  refine wp_mono (wp_bigInt (fun d hd => hds d (hsplit' ▸ List.mem_append_right us' hd)) hr _) ?_
    fun _ _ h => h
  rintro n r' ⟨hexceeds, hr', d, rfl⟩
  refine ⟨hexceeds, hr', rfl, rfl, rfl, ?_, ?_, fun h => ?_, fun _ => ⟨?_, ?_⟩⟩
  · rw [hvalue, decide_eq_true h32]
  · rw [hvalue, decide_eq_true h64]
  · rw [hvalue] at h
    exact absurd h64 (not_lt.mpr h)
  · show 17 ≤ k'
    omega
  · rw [List.length_cons]
    omega

/-- The loops over the digits behind the first one. -/
theorem wp_integerDigits {m : Bool} {c : UInt8} {ds r : Bytes} (hc : isDigit c = true)
    (hds : ∀ d ∈ ds, isDigit d = true) (hr : NoDigit r) :
    wp (do
        let n ← whileDigit stop32 next32 { minus := m, i := digitValue c }
        let n ← parseInt64 n
        parseBigInt n)
      (fun n r' => exceeds (Platform.doubleOfNat (within (max64 m) (digitValue c) ds).1)
          (within (max64 m) (digitValue c) ds).2 = false ∧ r' = r ∧ IntRead m (c :: ds) n)
      (fun f _ => exceeds (Platform.doubleOfNat (within (max64 m) (digitValue c) ds).1)
          (within (max64 m) (digitValue c) ds).2 = true ∧ f = tooBig) (ds ++ r) := by
  have hacc : digitValue c ≤ max32 m := (digitValue_le hc).trans (by cases m <;> decide)
  have hvalue : digitsFrom 0 (c :: ds) = digitsFrom (digitValue c) ds := by
    rw [digitsFrom_cons, Nat.zero_mul, Nat.zero_add]
  obtain ⟨k, hk, hrun⟩ := whileDigit_within stop32 next32 (max32 m)
    (fun acc k => { minus := m, i := acc, significandDigit := k })
    (fun n => { n with i64 := n.i, use64bit := true })
    (fun acc k d _ hd => stop32_eq hd) (fun acc k digit h => next32_eq h) hds hr hacc 0
  rw [wp_bind_of_ok hrun]
  rcases hwithin : within (max32 m) (digitValue c) ds with ⟨acc, vs⟩
  rw [hwithin, Nat.zero_add] at hk
  by_cases hvs : vs = []
  · subst hvs
    have h32 := (within_snd_eq_nil hacc ds).mp (by rw [hwithin])
    have h64 := h32.trans (max32_le_max64 m)
    have hacc' : digitsFrom (digitValue c) ds = acc := by
      have := within_of_le h32
      rw [hwithin] at this
      exact (Prod.ext_iff.mp this).1.symm
    rw [if_pos rfl, within_of_le h64]
    refine ⟨rfl, rfl, rfl, rfl, rfl, ?_, ?_, fun _ => ⟨?_, ?_⟩, fun h => ?_⟩
    · rw [hvalue, decide_eq_false (not_lt.mpr h32)]
    · rw [hvalue, decide_eq_false (not_lt.mpr h64)]
    · rw [hvalue, hacc']
      rfl
    · rw [List.length_cons, ← hk]
      rfl
    · rw [hvalue] at h
      exact absurd h64 (not_le.mpr h)
  · rw [if_neg hvs]
    exact wp_int64Digits hc hds hr hwithin hvs hk

/-- The fault of a text that does not start with a digit. -/
def missingDigit : Fault :=
  .exception { code := ErrorCode.valueInvalid, message := ascii "Invalid value" }

omit [Platform] in
theorem digitsFrom_zero : digitsFrom 0 [0x30] = 0 := by decide +kernel

omit [Platform] in
theorem intRead_zero (m : Bool) : IntRead m [0x30] { minus := m } := by
  have hzero := digitsFrom_zero
  refine ⟨rfl, rfl, rfl, ?_, ?_, fun _ => ⟨hzero.symm, rfl⟩, fun h => ?_⟩
  · rw [hzero, decide_eq_false (Nat.not_lt_zero _)]
  · rw [hzero, decide_eq_false (Nat.not_lt_zero _)]
  · rw [hzero] at h
    exact absurd h (Nat.not_lt_zero _)

/-- The integer part of a number. -/
theorem wp_parseInteger (m : Bool) (s : Bytes) :
    wp (parseInteger { minus := m })
      (fun n r => (splitInt s).1 ≠ [] ∧ integerTooBig m (splitInt s).1 = false ∧
        r = (splitInt s).2 ∧ IntRead m (splitInt s).1 n)
      (fun f _ => ((splitInt s).1 = [] ∧ f = missingDigit) ∨
        (integerTooBig m (splitInt s).1 = true ∧ f = tooBig)) s := by
  cases s with
  | nil => exact .inl ⟨rfl, rfl⟩
  | cons c s =>
    by_cases hzero : c = 0x30
    · subst hzero
      refine ⟨List.cons_ne_nil _ _, ?_, rfl, intRead_zero m⟩
      show integerTooBig m [0x30] = false
      rw [integerTooBig, within_of_le (digitsFrom_zero.trans_le (Nat.zero_le _)), exceeds]
    · have hsplit : splitInt (c :: s) =
          ((c :: s).takeWhile isDigit, (c :: s).dropWhile isDigit) := if_neg hzero
      cases hc : isDigit c with
      | false =>
        have hparse : parseInt { minus := m } (c :: s) = .error missingDigit (c :: s) := by
          simp [parseInt, hzero, hc, missingDigit]
        refine (wp_bind_of_error hparse).mpr (.inl ⟨?_, rfl⟩)
        rw [hsplit, List.takeWhile_cons, hc]
        rfl
      | true =>
        have hparse : parseInteger { minus := m } (c :: s) = (do
            let n ← whileDigit stop32 next32 { minus := m, i := digitValue c }
            let n ← parseInt64 n
            parseBigInt n) s := by
          simp [parseInteger, parseInt, getDigit, hzero, hc]
        have hrun := wp_integerDigits (m := m) (r := s.dropWhile isDigit) hc
          (fun d hd => List.mem_takeWhile_imp (p := isDigit) (l := s) hd) (noDigit_dropWhile s)
        rw [List.takeWhile_append_dropWhile] at hrun
        have hint : integerTooBig m (c :: s.takeWhile isDigit) =
            exceeds (Platform.doubleOfNat (within (max64 m) (digitValue c) (s.takeWhile isDigit)).1)
              (within (max64 m) (digitValue c) (s.takeWhile isDigit)).2 := by
          have hle : 0 * 10 + digitValue c ≤ max64 m := by
            have := digitValue_le hc
            have : 2 ^ 63 ≤ max64 m := by cases m <;> decide
            omega
          rw [integerTooBig, within, if_pos hle, Nat.zero_mul, Nat.zero_add]
        rw [wp, hparse, hsplit, List.takeWhile_cons, if_pos hc, List.dropWhile_cons, if_pos hc,
          hint]
        refine wp_mono hrun ?_ fun f r h => .inr h
        rintro n r ⟨hexceeds, hr, hn⟩
        exact ⟨List.cons_ne_nil _ _, hexceeds, hr, hn⟩

/-! ## The fraction -/

/-- How many of the digits `fs` of a fraction count, behind an integer part with the value `v` that
has taken `sd` places of the significand. -/
def fracCount (v sd : ℕ) (fs : Bytes) : ℕ :=
  if v = 0 then
    (fs.takeWhile (· = 0x30)).length + min (fs.length - (fs.takeWhile (· = 0x30)).length) 17
  else min fs.length (17 - sd)

omit [Platform] in
/-- A zero in front of the significand counts and takes no place. -/
theorem fracCount_zero (sd : ℕ) (fs : Bytes) :
    fracCount 0 sd (0x30 :: fs) = fracCount 0 sd fs + 1 := by
  simp only [fracCount, if_true, List.takeWhile_cons, decide_true, List.length_cons]
  omega

omit [Platform] in
/-- The first digit of the significand. -/
theorem fracCount_first {c : UInt8} (hc : c ≠ 0x30) (sd : ℕ) {v : ℕ} (hv : v ≠ 0) (fs : Bytes) :
    fracCount 0 sd (c :: fs) = fracCount v 1 fs + 1 := by
  simp only [fracCount, if_true, if_neg hv, List.takeWhile_cons, decide_eq_true_eq, if_neg hc,
    List.length_nil, List.length_cons]
  omega

omit [Platform] in
/-- A further digit of the significand. -/
theorem fracCount_next {v v' sd : ℕ} (hv : v ≠ 0) (hv' : v' ≠ 0) (hsd : sd < 17) (c : UInt8)
    (fs : Bytes) : fracCount v sd (c :: fs) = fracCount v' (sd + 1) fs + 1 := by
  simp only [fracCount, if_neg hv, if_neg hv', List.length_cons]
  omega

/-- The locals behind a fraction, with `expFrac` within the range of an `int`. -/
structure FracRead (m : Bool) (exp expFrac : ℤ) (n : ParseNumber) : Prop where
  minus : n.minus = m
  useDouble : n.useDouble = true
  exp : n.exp = exp
  expFrac : n.expFrac = expFrac
  lower : -2 ^ 31 ≤ n.expFrac

/-- A loop over the digits of a fraction counts some of them down from `f`, or leaves the range. -/
def CountsFrac (m : Bool) (e f : ℤ) (count : ℕ) (r : Bytes) (p : Exec Bytes ParseNumber)
    (s : Bytes) : Prop :=
  wp p (fun n r' => r' = r ∧ FracRead m e (f - count) n)
    (fun fault _ => fault = .undefined ∧ f - count < -2 ^ 31) s

omit [Platform] in
/-- One digit more. -/
theorem countsFrac_succ {m : Bool} {e f : ℤ} {count : ℕ} {r s : Bytes} {p : Exec Bytes ParseNumber} :
    CountsFrac m e f (count + 1) r p s ↔ CountsFrac m e (f - 1) count r p s := by
  have h : f - ((count + 1 : ℕ) : ℤ) = f - 1 - count := by
    push_cast
    omega
  rw [CountsFrac, CountsFrac, h]

omit [Platform] in
theorem checkInt_of_le {z : ℤ} (hlo : -2 ^ 31 ≤ z) (hhi : z < 2 ^ 31) : checkInt z = .ok z :=
  if_pos ⟨hlo, hhi⟩

omit [Platform] in
theorem checkInt_of_lt {z : ℤ} (h : z < -2 ^ 31) : checkInt z = .error .undefined :=
  if_neg fun hz => absurd hz.1 (not_le.mpr h)

/-- The loop for a double counts until the significand has 17 places. -/
theorem counts_fracDouble {fs r : Bytes} (hfs : ∀ c ∈ fs, isDigit c = true) (hr : NoDigit r)
    {n : ParseNumber} (hdouble : n.useDouble = true) (hlo : -2 ^ 31 ≤ n.expFrac)
    (hhi : n.expFrac ≤ 0)
    (hne : n.significandDigit < 17 → ∀ ds : Bytes,
      Platform.ne (ds.foldl (fun d c => appendDigit d (digitValue c)) n.d) 0 = true) :
    CountsFrac n.minus n.exp n.expFrac (min fs.length (17 - n.significandDigit)) r
      (whileDigit never nextFracDouble n) (fs ++ r) := by
  induction fs generalizing n with
  | nil =>
    rw [CountsFrac, List.nil_append, wp, whileDigit_of_noDigit hr]
    exact ⟨rfl, rfl, hdouble, rfl, by simp, hlo⟩
  | cons c fs ih =>
    have hc := hfs c List.mem_cons_self
    have hrest : ∀ d ∈ fs, isDigit d = true := fun d hd => hfs d (List.mem_cons_of_mem _ hd)
    by_cases hsd : n.significandDigit < 17
    · have hd : Platform.ne (appendDigit n.d (digitValue c)) 0 = true := hne hsd [c]
      have hmin : min (c :: fs).length (17 - n.significandDigit) =
          min fs.length (17 - (n.significandDigit + 1)) + 1 := by
        rw [List.length_cons]
        omega
      rw [hmin, countsFrac_succ, CountsFrac, List.cons_append, wp, whileDigit_cons hc, never,
        nextFracDouble, if_pos hsd]
      by_cases hstep : -2 ^ 31 ≤ n.expFrac - 1
      · rw [checkInt_of_le hstep (by omega)]
        simp only [hd, if_true]
        exact ih hrest
          (n := { n with d := appendDigit n.d (digitValue c), expFrac := n.expFrac - 1,
                         significandDigit := n.significandDigit + 1 })
          hdouble hstep (by show n.expFrac - 1 ≤ 0; omega) fun _ ds => hne hsd (c :: ds)
      · rw [checkInt_of_lt (not_le.mp hstep)]
        exact ⟨rfl, by omega⟩
    · have hmin : min (c :: fs).length (17 - n.significandDigit) =
          min fs.length (17 - n.significandDigit) := by
        rw [List.length_cons]
        omega
      rw [hmin, CountsFrac, List.cons_append, wp, whileDigit_cons hc, never, nextFracDouble,
        if_neg hsd]
      exact ih hrest hdouble hlo hhi fun h => absurd h hsd

omit [Platform] in
/-- Within the significand of the fast path there is a place left. -/
theorem significandDigit_lt {v sd : ℕ} (hv : 10 ^ (sd - 1) ≤ v) (hle : v ≤ 0x1FFFFFFFFFFFFF) :
    sd < 17 := by
  by_contra hsd
  have hpow : 10 ^ 16 ≤ 10 ^ (sd - 1) := Nat.pow_le_pow_right (by decide) (by omega)
  omega

omit [Platform] in
/-- One turn of the loop in 64 bits counts one digit. -/
theorem fracCount_step {v sd : ℕ} {c : UInt8} (hc : isDigit c = true) (hzero : v = 0 → sd = 0)
    (hpow : v ≠ 0 → 10 ^ (sd - 1) ≤ v) (hle : v ≤ 0x1FFFFFFFFFFFFF) (fs : Bytes) :
    fracCount v sd (c :: fs) =
      fracCount (v * 10 + digitValue c) (if v * 10 + digitValue c ≠ 0 then sd + 1 else sd) fs + 1 := by
  by_cases hv : v = 0
  · subst hv
    rw [hzero rfl, Nat.zero_mul, Nat.zero_add]
    by_cases h0 : c = 0x30
    · subst h0
      have hd : digitValue 0x30 = 0 := by decide +kernel
      rw [fracCount_zero, hd, if_neg (by decide)]
    · have hd : digitValue c ≠ 0 := by
        have h := isDigit_iff.mp hc
        have hne : c.toNat ≠ 0x30 := fun hcon => h0 (UInt8.toNat_inj.mp hcon)
        unfold digitValue
        omega
      rw [fracCount_first h0 0 hd, if_pos hd]
  · have hne : v * 10 + digitValue c ≠ 0 := by omega
    rw [fracCount_next hv hne (significandDigit_lt (hpow hv) hle), if_pos hne]

/-- The loop in 64 bits, then the one for a double. -/
theorem counts_fracSignificand (hnonzero : Platform.DigitsNonzero) {fs r : Bytes}
    (hfs : ∀ c ∈ fs, isDigit c = true) (hr : NoDigit r) {n : ParseNumber} (hlo : -2 ^ 31 ≤ n.expFrac)
    (hhi : n.expFrac ≤ 0) (hzero : n.i64 = 0 → n.significandDigit = 0)
    (hpow : n.i64 ≠ 0 → 10 ^ (n.significandDigit - 1) ≤ n.i64) :
    CountsFrac n.minus n.exp n.expFrac (fracCount n.i64 n.significandDigit fs) r
      (do
        let n ← whileDigit stopFrac nextFrac n
        whileDigit never nextFracDouble
          { n with d := Platform.doubleOfNat n.i64, useDouble := true })
      (fs ++ r) := by
  induction fs generalizing n with
  | nil =>
    have hcount : fracCount n.i64 n.significandDigit [] = 0 := by
      rw [fracCount]
      split_ifs <;> simp
    have hloop : whileDigit stopFrac nextFrac n ([] ++ r) = .ok n r := whileDigit_of_noDigit hr
    rw [hcount, CountsFrac, wp_bind_of_ok hloop, wp, whileDigit_of_noDigit hr]
    exact ⟨rfl, rfl, rfl, rfl, by simp, hlo⟩
  | cons c fs ih =>
    have hc := hfs c List.mem_cons_self
    have hrest : ∀ d ∈ fs, isDigit d = true := fun d hd => hfs d (List.mem_cons_of_mem _ hd)
    by_cases hbig : 0x1FFFFFFFFFFFFF < n.i64
    · -- The significand is full: what remains is for the double.
      have hloop : whileDigit stopFrac nextFrac n (c :: fs ++ r) = .ok n (c :: fs ++ r) := by
        rw [List.cons_append, whileDigit_cons hc, stopFrac, if_pos hbig]
      have hcount : fracCount n.i64 n.significandDigit (c :: fs) =
          min (c :: fs).length (17 - n.significandDigit) := if_neg (by omega)
      rw [CountsFrac, wp_bind_of_ok hloop, hcount]
      exact counts_fracDouble (n := { n with d := Platform.doubleOfNat n.i64, useDouble := true })
        hfs hr rfl hlo hhi fun _ ds => hnonzero n.i64 ds (by omega)
    · have hc9 := digitValue_le hc
      have hmod : (n.i64 * 10 + digitValue c) % 2 ^ 64 = n.i64 * 10 + digitValue c :=
        Nat.mod_eq_of_lt (by omega)
      rw [fracCount_step hc hzero hpow (not_lt.mp hbig), countsFrac_succ, CountsFrac, wp_bind, wp,
        List.cons_append, whileDigit_cons hc, stopFrac, if_neg hbig]
      by_cases hstep : -2 ^ 31 ≤ n.expFrac - 1
      · have hnext : nextFrac n (digitValue c) =
            .ok { n with i64 := n.i64 * 10 + digitValue c, expFrac := n.expFrac - 1,
                         significandDigit := if n.i64 * 10 + digitValue c ≠ 0
                           then n.significandDigit + 1 else n.significandDigit } := by
          rw [nextFrac, hmod, checkInt_of_le hstep (by omega)]
          rfl
        rw [hnext]
        have hrun := ih hrest
          (n := { n with i64 := n.i64 * 10 + digitValue c, expFrac := n.expFrac - 1,
                         significandDigit := if n.i64 * 10 + digitValue c ≠ 0
                           then n.significandDigit + 1 else n.significandDigit })
          hstep (by show n.expFrac - 1 ≤ 0; omega) ?_ ?_
        · rw [CountsFrac, wp_bind] at hrun
          exact hrun
        · intro h
          rw [if_neg (not_not.mpr h)]
          exact hzero (by simp only at h; omega)
        · intro h
          rw [if_pos h]
          simp only [Nat.add_sub_cancel] at h ⊢
          by_cases hv : n.i64 = 0
          · rw [hzero hv]
            omega
          · have := hpow hv
            obtain ⟨k, hk⟩ : ∃ k, 10 ^ n.significandDigit ≤ 10 * 10 ^ k ∧ k = n.significandDigit - 1 :=
              ⟨_, by rw [← Nat.pow_succ']; exact Nat.pow_le_pow_right (by decide) (by omega), rfl⟩
            rw [← hk.2] at this
            omega
      · have hnext : nextFrac n (digitValue c) = .error .undefined := by
          rw [nextFrac, checkInt_of_lt (not_le.mp hstep)]
          rfl
        rw [hnext]
        exact ⟨rfl, by omega⟩

omit [Platform] in
theorem fracTaken_eq {t : NumberText} (h : IntDigits t.int) :
    t.fracTaken = fracCount t.intValue (t.int.length - 1) t.fracDigits := by
  have hlength : 0 < t.int.length := by
    rcases h.pow_le with ⟨-, h⟩ | ⟨-, -, h⟩ <;> omega
  unfold fracTaken leadingZeros fracCount
  split_ifs
  · rfl
  · omega

/-- The digits of the fraction behind an integer part. -/
theorem counts_fracDigits (hnonzero : Platform.DigitsNonzero) {m : Bool} {ds fs r : Bytes}
    {n : ParseNumber} (hds : IntDigits ds) (hn : IntRead m ds n)
    (hfs : ∀ c ∈ fs, isDigit c = true) (hr : NoDigit r) :
    CountsFrac m 0 0 (fracCount (digitsFrom 0 ds) (ds.length - 1) fs) r (parseFracDigits n)
      (fs ++ r) := by
  have hlo : -2 ^ 31 ≤ n.expFrac := by rw [hn.expFrac]; decide
  have hhi : n.expFrac ≤ 0 := hn.expFrac.le
  by_cases hbig : max64 m < digitsFrom 0 ds
  · have hdouble : n.useDouble = true := hn.useDouble.trans (decide_eq_true hbig)
    obtain ⟨hsd, hlength⟩ := hn.big hbig
    have hcount : fracCount (digitsFrom 0 ds) (ds.length - 1) fs =
        min fs.length (17 - n.significandDigit) := by
      rw [fracCount, if_neg (by omega)]
      omega
    have hrun : parseFracDigits n = whileDigit never nextFracDouble n := by
      rw [parseFracDigits, hdouble]
      rfl
    rw [hrun, hcount]
    have := counts_fracDouble hfs hr hdouble hlo hhi fun h => absurd h (not_lt.mpr hsd)
    rwa [hn.minus, hn.exp, hn.expFrac] at this
  · have hdouble : n.useDouble = false := hn.useDouble.trans (decide_eq_false hbig)
    obtain ⟨hvalue, hsd⟩ := hn.significand (not_lt.mp hbig)
    -- The significand, whichever of the two variables it is in.
    obtain ⟨n', hn', hminus, hexp, hfrac, hi64, hsd'⟩ : ∃ n' : ParseNumber,
        (if n.use64bit then n else { n with i64 := n.i }) = n' ∧ n'.minus = m ∧ n'.exp = 0 ∧
          n'.expFrac = 0 ∧ n'.i64 = digitsFrom 0 ds ∧ n'.significandDigit = ds.length - 1 := by
      cases huse : n.use64bit with
      | true =>
        rw [huse, if_pos rfl] at hvalue
        exact ⟨n, if_pos rfl, hn.minus, hn.exp, hn.expFrac, hvalue, by omega⟩
      | false =>
        rw [huse, if_neg Bool.false_ne_true] at hvalue
        exact ⟨_, if_neg Bool.false_ne_true, hn.minus, hn.exp, hn.expFrac, hvalue,
          by show n.significandDigit = _; omega⟩
    have hrun : parseFracDigits n = (do
        let n ← whileDigit stopFrac nextFrac n'
        whileDigit never nextFracDouble
          { n with d := Platform.doubleOfNat n.i64, useDouble := true }) := by
      have hnot : (!n.useDouble) = true := by rw [hdouble]; rfl
      rw [parseFracDigits, if_pos hnot, hn']
    have hcounts := counts_fracSignificand hnonzero hfs hr (n := n') (by rw [hfrac]; decide)
      hfrac.le ?_ ?_
    · rwa [hminus, hexp, hfrac, hi64, hsd', ← hrun] at hcounts
    · rw [hi64, hsd']
      rcases hds.pow_le with ⟨-, h⟩ | ⟨hne, -⟩
      · omega
      · exact fun h => absurd h hne
    · rw [hi64, hsd']
      rcases hds.pow_le with ⟨h, -⟩ | ⟨-, hpow, -⟩
      · exact fun hne => absurd h hne
      · exact fun _ => (Nat.pow_le_pow_right (by decide) (by omega)).trans hpow

/-- The fault of a fraction without digits. -/
def missingFraction : Fault :=
  .exception { code := ErrorCode.numberMissFraction
               message := ascii "Missing fraction part in number" }

/-- A fraction is missing, lacks its digits, or has some. -/
theorem parseFrac_cases (n : ParseNumber) (s : Bytes) :
    (splitFrac s = (none, s) ∧ parseFrac n s = .ok n s) ∨
      ((splitFrac s).1 = some [] ∧ ∃ r, parseFrac n s = .error missingFraction r) ∨
      ∃ fs r, fs ≠ [] ∧ (∀ c ∈ fs, isDigit c = true) ∧ NoDigit r ∧ splitFrac s = (some fs, r) ∧
        parseFrac n s = parseFracDigits n (fs ++ r) := by
  cases s with
  | nil => exact .inl ⟨rfl, rfl⟩
  | cons c s =>
    by_cases hpoint : c = 0x2e
    · subst hpoint
      have hsplit : splitFrac (0x2e :: s) = (some (s.takeWhile isDigit), s.dropWhile isDigit) := rfl
      rw [hsplit]
      cases s with
      | nil => exact .inr (.inl ⟨rfl, [], rfl⟩)
      | cons c s =>
        cases hc : isDigit c with
        | false =>
          refine .inr (.inl ⟨?_, c :: s, by simp [parseFrac, hc, missingFraction]⟩)
          rw [List.takeWhile_cons, hc]
          rfl
        | true =>
          refine .inr (.inr ⟨(c :: s).takeWhile isDigit, (c :: s).dropWhile isDigit, ?_,
            fun d hd => List.mem_takeWhile_imp hd, noDigit_dropWhile _, rfl, ?_⟩)
          · rw [List.takeWhile_cons, if_pos hc]
            exact List.cons_ne_nil _ _
          · rw [List.takeWhile_append_dropWhile]
            simp [parseFrac, hc]
    · refine .inl ⟨if_neg hpoint, ?_⟩
      simp [parseFrac, hpoint]

/-- The fraction behind an integer part. -/
theorem wp_parseFrac (hnonzero : Platform.DigitsNonzero) {m : Bool} {ds : Bytes} {n : ParseNumber}
    (hds : IntDigits ds) (hn : IntRead m ds n) (s : Bytes) :
    wp (parseFrac n)
      (fun n' r => r = (splitFrac s).2 ∧ (splitFrac s).1 ≠ some [] ∧
        ((splitFrac s).1 = none ∧ n' = n ∨
          (splitFrac s).1 ≠ none ∧ FracRead m 0
            (-(fracCount (digitsFrom 0 ds) (ds.length - 1) ((splitFrac s).1.getD []) : ℤ)) n'))
      (fun f _ => ((splitFrac s).1 = some [] ∧ f = missingFraction) ∨
        ((splitFrac s).1 ≠ some [] ∧ f = .undefined ∧
          2 ^ 31 < fracCount (digitsFrom 0 ds) (ds.length - 1) ((splitFrac s).1.getD []))) s := by
  rcases parseFrac_cases n s with ⟨hsplit, hrun⟩ | ⟨hnil, r, hrun⟩ |
    ⟨fs, r, hne, hfs, hr, hsplit, hrun⟩
  · rw [wp, hrun, hsplit]
    exact ⟨rfl, nofun, .inl ⟨rfl, rfl⟩⟩
  · rw [wp, hrun]
    exact .inl ⟨hnil, rfl⟩
  · have hcounts := counts_fracDigits hnonzero hds hn hfs hr
    have hsome : some fs ≠ some [] := fun h => hne (Option.some.inj h)
    rw [wp, hrun, hsplit]
    refine wp_mono hcounts ?_ ?_
    · rintro n' r' ⟨hr', hread⟩
      rw [Int.zero_sub] at hread
      exact ⟨hr', hsome, .inr ⟨nofun, hread⟩⟩
    · rintro f r' ⟨hf, hlt⟩
      rw [Int.zero_sub] at hlt
      exact .inr ⟨hsome, hf, by simp only [Option.getD_some]; omega⟩

/-! ### Whatever the platform computes -/

omit [Platform] in
/-- A loop leaves some of the digits, or its body faults. -/
theorem wp_whileDigit {stop : Stop} {next : Next} {E : Fault → Prop}
    (hstop : ∀ n c f, stop n c = .error f → E f) (hnext : ∀ n digit f, next n digit = .error f → E f)
    {ds r : Bytes} (hds : ∀ c ∈ ds, isDigit c = true) (hr : NoDigit r) (n : ParseNumber) :
    wp (whileDigit stop next n)
      (fun _ r' => ∃ us, (∀ c ∈ us, isDigit c = true) ∧ r' = us ++ r ∧ (stop = never → us = []))
      (fun f _ => E f) (ds ++ r) := by
  induction ds generalizing n with
  | nil =>
    rw [List.nil_append, wp, whileDigit_of_noDigit hr]
    exact ⟨[], nofun, rfl, fun _ => rfl⟩
  | cons c ds ih =>
    have hc := hds c List.mem_cons_self
    rw [List.cons_append, wp, whileDigit_cons hc]
    cases hs : stop n c with
    | error f => exact hstop n c f hs
    | ok o =>
      cases o with
      | some n' =>
        refine ⟨c :: ds, hds, rfl, ?_⟩
        rintro rfl
        cases hs
      | none =>
        cases hn : next n (digitValue c) with
        | error f => exact hnext n _ f hn
        | ok n' => exact ih (fun d hd => hds d (List.mem_cons_of_mem _ hd)) n'

omit [Platform] in
theorem checkInt_fault {z : ℤ} {f : Fault} (h : checkInt z = .error f) : f = .undefined := by
  rw [checkInt] at h
  split_ifs at h
  cases h
  rfl

omit [Platform] in
theorem nextFrac_fault (n : ParseNumber) (digit : ℕ) (f : Fault) (h : nextFrac n digit = .error f) :
    f = .undefined := by
  rw [nextFrac] at h
  cases hcheck : checkInt (n.expFrac - 1) with
  | error f' =>
    rw [hcheck] at h
    cases h
    exact checkInt_fault hcheck
  | ok z =>
    rw [hcheck] at h
    cases h

theorem nextFracDouble_fault (n : ParseNumber) (digit : ℕ) (f : Fault)
    (h : nextFracDouble n digit = .error f) : f = .undefined := by
  rw [nextFracDouble] at h
  split_ifs at h
  cases hcheck : checkInt (n.expFrac - 1) with
  | error f' =>
    rw [hcheck] at h
    cases h
    exact checkInt_fault hcheck
  | ok z =>
    rw [hcheck] at h
    cases h

/-- All the digits of a fraction are taken. -/
theorem wp_parseFracDigits {fs r : Bytes} (hfs : ∀ c ∈ fs, isDigit c = true) (hr : NoDigit r)
    (n : ParseNumber) :
    wp (parseFracDigits n) (fun _ r' => r' = r) (fun f _ => f = .undefined) (fs ++ r) := by
  have hdouble {us : Bytes} (hus : ∀ c ∈ us, isDigit c = true) (n : ParseNumber) :
      wp (whileDigit never nextFracDouble n) (fun _ r' => r' = r) (fun f _ => f = .undefined)
        (us ++ r) := by
    have hnever (n : ParseNumber) (c : UInt8) (f : Fault) (h : never n c = .error f) :
        f = .undefined := nomatch h
    refine wp_mono (wp_whileDigit hnever nextFracDouble_fault hus hr n) ?_ fun _ _ h => h
    rintro n' r' ⟨us', -, hr', hnil⟩
    rw [hr', hnil rfl, List.nil_append]
  cases hd : n.useDouble with
  | true =>
    have hrun : parseFracDigits n = whileDigit never nextFracDouble n := by
      rw [parseFracDigits, hd]
      rfl
    rw [hrun]
    exact hdouble hfs n
  | false =>
    have hrun : parseFracDigits n = (do
        let n ← whileDigit stopFrac nextFrac (if n.use64bit then n else { n with i64 := n.i })
        whileDigit never nextFracDouble
          { n with d := Platform.doubleOfNat n.i64, useDouble := true }) := by
      rw [parseFracDigits, hd]
      rfl
    rw [hrun]
    have hstop (n : ParseNumber) (c : UInt8) (f : Fault) (h : stopFrac n c = .error f) :
        f = .undefined := by
      rw [stopFrac] at h
      cases h
    refine wp_seq (wp_whileDigit hstop nextFrac_fault hfs hr _) ?_
    rintro n' r' ⟨us, hus, rfl, -⟩
    exact hdouble hus _

/-! ## The exponent -/

section

variable {minus : Bool} {n : ParseNumber} {v digit : ℕ}

omit [Platform]

theorem checkExp (hexp : n.exp = v) :
    checkInt (n.exp * 10 + digit) =
      if v * 10 + digit < 2 ^ 31 then .ok ((v * 10 + digit : ℕ) : ℤ) else .error .undefined := by
  have hcast : n.exp * 10 + (digit : ℤ) = ((v * 10 + digit : ℕ) : ℤ) := by
    rw [hexp]
    push_cast
    ring
  rw [hcast]
  by_cases h : v * 10 + digit < 2 ^ 31
  · rw [if_pos h]
    exact checkInt_of_le (by omega) (by omega)
  · rw [if_neg h]
    exact if_neg (by omega)

theorem nextExp_eq (hexp : n.exp = v) :
    nextExp minus n digit =
      if v * 10 + digit < 2 ^ 31 then
        if 308 < v * 10 + digit ∧ minus = false then .error tooBig
        else .ok { n with exp := ((v * 10 + digit : ℕ) : ℤ) }
      else .error .undefined := by
  rw [nextExp, checkExp hexp]
  by_cases h : v * 10 + digit < 2 ^ 31
  · rw [if_pos h, if_pos h]
    have hcast : 308 < ((v * 10 + digit : ℕ) : ℤ) ↔ 308 < v * 10 + digit := by omega
    simp only [bind, Except.bind, hcast]
    rfl
  · rw [if_neg h, if_neg h]
    rfl

end

omit [Platform] in
/-- The digits of a negative exponent are read, or leave the range of an `int`. -/
theorem wp_negativeExp {es r : Bytes} (hes : ∀ c ∈ es, isDigit c = true) (hr : NoDigit r)
    {n : ParseNumber} {v : ℕ} (hexp : n.exp = v) (hv : v < 2 ^ 31) :
    wp (whileDigit never (nextExp true) n)
      (fun n' r' => r' = r ∧ digitsFrom v es < 2 ^ 31 ∧
        n' = { n with exp := (digitsFrom v es : ℕ) })
      (fun f _ => f = .undefined ∧ 2 ^ 31 ≤ digitsFrom v es) (es ++ r) := by
  induction es generalizing n v with
  | nil =>
    rw [List.nil_append, wp, whileDigit_of_noDigit hr]
    exact ⟨rfl, hv, by rw [digitsFrom_nil, ← hexp]⟩
  | cons c es ih =>
    have hc := hes c List.mem_cons_self
    have hrest : ∀ d ∈ es, isDigit d = true := fun d hd => hes d (List.mem_cons_of_mem _ hd)
    have hle := le_digitsFrom (v * 10 + digitValue c) es
    rw [List.cons_append, wp, whileDigit_cons hc, nextExp_eq hexp]
    simp only [never, digitsFrom_cons]
    by_cases hstep : v * 10 + digitValue c < 2 ^ 31
    · rw [if_pos hstep, if_neg fun h => Bool.noConfusion h.2]
      exact ih hrest (n := { n with exp := ((v * 10 + digitValue c : ℕ) : ℤ) }) rfl hstep
    · rw [if_neg hstep]
      exact ⟨rfl, (not_lt.mp hstep).trans hle⟩

omit [Platform] in
/-- The digits of a positive exponent are read, or make the number too big. -/
theorem wp_positiveExp {es r : Bytes} (hes : ∀ c ∈ es, isDigit c = true) (hr : NoDigit r)
    {n : ParseNumber} {v : ℕ} (hexp : n.exp = v) (hv : v ≤ 308) :
    wp (whileDigit never (nextExp false) n)
      (fun n' r' => r' = r ∧ digitsFrom v es ≤ 308 ∧
        n' = { n with exp := (digitsFrom v es : ℕ) })
      (fun f _ => f = tooBig ∧ 308 < digitsFrom v es) (es ++ r) := by
  induction es generalizing n v with
  | nil =>
    rw [List.nil_append, wp, whileDigit_of_noDigit hr]
    exact ⟨rfl, hv, by rw [digitsFrom_nil, ← hexp]⟩
  | cons c es ih =>
    have hc := hes c List.mem_cons_self
    have hc9 := digitValue_le hc
    have hrest : ∀ d ∈ es, isDigit d = true := fun d hd => hes d (List.mem_cons_of_mem _ hd)
    have hle := le_digitsFrom (v * 10 + digitValue c) es
    rw [List.cons_append, wp, whileDigit_cons hc, nextExp_eq hexp,
      if_pos (show v * 10 + digitValue c < 2 ^ 31 by omega)]
    simp only [never, digitsFrom_cons]
    by_cases hstep : v * 10 + digitValue c ≤ 308
    · rw [if_neg fun h => absurd h.1 (not_lt.mpr hstep)]
      exact ih hrest (n := { n with exp := ((v * 10 + digitValue c : ℕ) : ℤ) }) rfl hstep
    · rw [if_pos ⟨not_le.mp hstep, trivial⟩]
      exact ⟨rfl, (not_le.mp hstep).trans_le hle⟩

/-- The fault of an exponent without digits. -/
def missingExponent : Fault :=
  .exception { code := ErrorCode.numberMissExponent
               message := ascii "Missing exponent in number" }

omit [Platform] in
theorem parseExpSign_eq (s : Bytes) :
    parseExpSign s = .ok (decide ((splitSign s).1 = some 0x2d)) (splitSign s).2 := by
  cases s with
  | nil => rfl
  | cons c s =>
    by_cases hplus : c = 0x2b
    · subst hplus
      rfl
    · by_cases hminus : c = 0x2d
      · subst hminus
        rfl
      · have hsplit : splitSign (c :: s) = (none, c :: s) := if_neg (not_or.mpr ⟨hplus, hminus⟩)
        rw [hsplit]
        simp [parseExpSign, hplus, hminus]

omit [Platform] in
/-- The digits of an exponent. -/
theorem wp_parseExpDigits (minus : Bool) {n : ParseNumber} (s : Bytes) :
    wp (parseExpDigits minus n)
      (fun n' r => r = s.dropWhile isDigit ∧ s.takeWhile isDigit ≠ [] ∧
        (if minus then digitsFrom 0 (s.takeWhile isDigit) < 2 ^ 31
          else digitsFrom 0 (s.takeWhile isDigit) ≤ 308) ∧
        n' = { n with exp := if minus then -(digitsFrom 0 (s.takeWhile isDigit) : ℤ)
                             else (digitsFrom 0 (s.takeWhile isDigit) : ℤ) })
      (fun f _ => (s.takeWhile isDigit = [] ∧ f = missingExponent) ∨
        (minus = true ∧ f = .undefined ∧ 2 ^ 31 ≤ digitsFrom 0 (s.takeWhile isDigit)) ∨
        (minus = false ∧ f = tooBig ∧ 308 < digitsFrom 0 (s.takeWhile isDigit))) s := by
  cases s with
  | nil => exact .inl ⟨rfl, rfl⟩
  | cons c s =>
    cases hc : isDigit c with
    | false =>
      have hrun : parseExpDigits minus n (c :: s) = .error missingExponent (c :: s) := by
        simp [parseExpDigits, hc, missingExponent]
      rw [wp, hrun]
      refine .inl ⟨?_, rfl⟩
      rw [List.takeWhile_cons, hc]
      rfl
    | true =>
      have hdigits : ∀ d ∈ s.takeWhile isDigit, isDigit d = true := fun d hd =>
        List.mem_takeWhile_imp hd
      have hc9 := digitValue_le hc
      have hrun : parseExpDigits minus n (c :: s) = (do
          let n ← whileDigit never (nextExp minus) { n with exp := digitValue c }
          return if minus then { n with exp := -n.exp } else n)
            (s.takeWhile isDigit ++ s.dropWhile isDigit) := by
        rw [List.takeWhile_append_dropWhile]
        simp [parseExpDigits, hc, getDigit]
      have hvalue : digitsFrom 0 (c :: s.takeWhile isDigit) =
          digitsFrom (digitValue c) (s.takeWhile isDigit) := by
        rw [digitsFrom_cons, Nat.zero_mul, Nat.zero_add]
      rw [wp, hrun, List.takeWhile_cons, if_pos hc, List.dropWhile_cons, if_pos hc, hvalue]
      cases minus with
      | true =>
        have hloop := wp_negativeExp hdigits (noDigit_dropWhile s)
          (n := { n with exp := digitValue c }) rfl (by omega)
        refine wp_seq (wp_mono hloop (fun _ _ h => h) fun f r h => .inr (.inl ⟨rfl, h⟩)) ?_
        rintro n' r ⟨hr, hlt, rfl⟩
        exact ⟨hr, List.cons_ne_nil _ _, hlt, rfl⟩
      | false =>
        have hloop := wp_positiveExp hdigits (noDigit_dropWhile s)
          (n := { n with exp := digitValue c }) rfl (by omega)
        refine wp_seq (wp_mono hloop (fun _ _ h => h) fun f r h => .inr (.inr ⟨rfl, h⟩)) ?_
        rintro n' r ⟨hr, hle, rfl⟩
        exact ⟨hr, List.cons_ne_nil _ _, hle, rfl⟩

/-- What an exponent is good for: its digits are there, and its value fits. -/
structure ExpRead (e : ExpText) : Prop where
  digits : e.digits ≠ []
  negative : e.minus = true → e.value < 2 ^ 31
  positive : e.minus = false → e.value ≤ 308

/-- The exponent of a number. -/
theorem wp_parseExp (n : ParseNumber) (s : Bytes) :
    wp (parseExp n)
      (fun n' r => r = (splitExp s).2 ∧ n'.minus = n.minus ∧ n'.expFrac = n.expFrac ∧
        ((splitExp s).1 = none ∧ n' = n ∨
          ∃ e, (splitExp s).1 = some e ∧ ExpRead e ∧ n'.useDouble = true ∧ n'.exp = e.signed))
      (fun f _ => ∃ e, (splitExp s).1 = some e ∧
        ((e.digits = [] ∧ f = missingExponent) ∨
          (e.minus = true ∧ f = .undefined ∧ 2 ^ 31 ≤ e.value) ∨
          (e.minus = false ∧ f = tooBig ∧ 308 < e.value))) s := by
  cases s with
  | nil => exact ⟨rfl, rfl, rfl, .inl ⟨rfl, rfl⟩⟩
  | cons c s =>
    by_cases hmark : c = 0x65 ∨ c = 0x45
    · obtain ⟨n', hn', hminus, hfrac, hdouble⟩ : ∃ n' : ParseNumber,
          (if n.useDouble then n else
            { n with d := Platform.doubleOfNat (if n.use64bit then n.i64 else n.i),
                     useDouble := true }) = n' ∧
            n'.minus = n.minus ∧ n'.expFrac = n.expFrac ∧ n'.useDouble = true := by
        cases hdouble : n.useDouble with
        | true => exact ⟨n, if_pos rfl, rfl, rfl, hdouble⟩
        | false => exact ⟨_, if_neg Bool.false_ne_true, rfl, rfl, rfl⟩
      have hsplit : splitExp (c :: s) =
          (some { mark := c, sign := (splitSign s).1,
                  digits := (splitSign s).2.takeWhile isDigit },
            (splitSign s).2.dropWhile isDigit) := if_pos hmark
      have hrun : parseExp n (c :: s) =
          parseExpDigits (decide ((splitSign s).1 = some 0x2d)) n' (splitSign s).2 := by
        simp [parseExp, hmark, hn', parseExpSign_eq]
      rw [wp, hrun, hsplit]
      refine wp_mono (wp_parseExpDigits (decide ((splitSign s).1 = some 0x2d)) (splitSign s).2) ?_ ?_
      · rintro _ r ⟨hr, hne, hrange, rfl⟩
        refine ⟨hr, hminus, hfrac, .inr ⟨_, rfl, ⟨hne, fun hm => ?_, fun hm => ?_⟩, hdouble, rfl⟩⟩
        · rw [ExpText.minus] at hm
          rw [if_pos hm] at hrange
          exact hrange
        · rw [ExpText.minus] at hm
          rw [if_neg (by rw [hm]; exact Bool.false_ne_true)] at hrange
          exact hrange
      · rintro f r h
        exact ⟨_, rfl, h⟩
    · have hrun : parseExp n (c :: s) = .ok n (c :: s) := by
        rw [not_or] at hmark
        simp [parseExp, hmark]
      have hsplit : splitExp (c :: s) = (none, c :: s) := if_neg hmark
      rw [wp, hrun, hsplit]
      exact ⟨rfl, rfl, rfl, .inl ⟨rfl, rfl⟩⟩

/-! ## The number -/

/-- The locals of `ParseNumber` behind a number. -/
structure NumberRead (t : NumberText) (n : ParseNumber) : Prop where
  complete : t.Complete
  notTooBig : ¬ t.TooBig
  minus : n.minus = t.minus
  power : n.exp + n.expFrac = t.power
  fracTaken : t.fracTaken ≤ 2 ^ 31
  exp : ∀ e, t.exp = some e → e.minus = true → e.value < 2 ^ 31
  useDouble : t.frac ≠ none ∨ t.exp ≠ none → n.useDouble = true
  integer : t.frac = none → t.exp = none → IntRead t.minus t.int n

/-- A part of the number lacks its digits. -/
def IsSyntaxFault (f : Fault) : Prop :=
  f = missingDigit ∨ f = missingFraction ∨ f = missingExponent

/-- How the parsing of a number throws. -/
def NumberThrows (t : NumberText) (f : Fault) : Prop :=
  (f = .undefined ∧ ¬ t.InRange) ∨
    (t.InRange ∧ ((f = tooBig ∧ t.TooBig) ∨ (IsSyntaxFault f ∧ ¬ t.Complete)))

theorem parse_eq (s : Bytes) :
    parse s = (do
      let n ← parseInteger { minus := (splitMinus s).1 }
      let n ← parseFrac n
      parseExp n) (splitMinus s).2 := by
  have hminus : parseMinus s = .ok { minus := (splitMinus s).1 } (splitMinus s).2 := by
    cases s with
    | nil => rfl
    | cons c s =>
      by_cases hc : c = 0x2d
      · subst hc
        rfl
      · have hsplit : splitMinus (c :: s) = (false, c :: s) := if_neg hc
        rw [hsplit]
        simp [parseMinus, hc]
  rw [parse, bind_of_ok hminus]
  simp only [parseInteger, bind_assoc]

/-- The number at the start of a text is read, or the parsing throws. -/
theorem wp_parse (hnonzero : Platform.DigitsNonzero) (s : Bytes) :
    wp parse (fun n r => r = (split s).2 ∧ NumberRead (split s).1 n)
      (fun f _ => NumberThrows (split s).1 f) s := by
  rw [wp, parse_eq]
  let s₁ := (splitMinus s).2
  let s₂ := (splitInt s₁).2
  let s₃ := (splitFrac s₂).2
  obtain ⟨t, ht, hminus, hint, hfrac, hexp⟩ : ∃ t, (split s).1 = t ∧ t.minus = (splitMinus s).1 ∧
      t.int = (splitInt s₁).1 ∧ t.frac = (splitFrac s₂).1 ∧ t.exp = (splitExp s₃).1 :=
    ⟨_, rfl, rfl, rfl, rfl, rfl⟩
  have hrest : (split s).2 = (splitExp s₃).2 := rfl
  have hbigIff : integerTooBig (splitMinus s).1 (splitInt s₁).1 = t.intTooBig := by
    rw [intTooBig, hminus, hint]
  rw [ht, hrest]
  refine wp_seq (wp_mono (wp_parseInteger _ s₁) (fun _ _ h => h) ?_) ?_
  · rintro f r (⟨hnil, rfl⟩ | ⟨hbig, rfl⟩)
    · rw [← hint] at hnil
      exact .inr ⟨fun h => absurd hnil h, .inr ⟨.inl rfl, fun hc => hc.int hnil⟩⟩
    · rw [hbigIff] at hbig
      exact .inr ⟨fun _ h => Bool.noConfusion (hbig.symm.trans h), .inl ⟨rfl, .inl hbig⟩⟩
  rintro n r ⟨hne, hbig, rfl, hn⟩
  rw [hbigIff] at hbig
  have hds := intDigits_splitInt hne
  rw [← hint] at hne hds hn
  rw [← hminus] at hn
  have htaken : t.fracTaken =
      fracCount (digitsFrom 0 t.int) (t.int.length - 1) ((splitFrac s₂).1.getD []) := by
    rw [fracTaken_eq hds, intValue, fracDigits, hfrac]
  refine wp_seq (wp_mono (wp_parseFrac hnonzero hds hn s₂) (fun _ _ h => h) ?_) ?_
  · rintro f r (⟨hnil, rfl⟩ | ⟨hfne, rfl, hlt⟩)
    · rw [← hfrac] at hnil
      exact .inr ⟨fun _ _ h => absurd hnil h, .inr ⟨.inr (.inl rfl), fun hc => hc.frac hnil⟩⟩
    · rw [← hfrac] at hfne
      rw [← htaken] at hlt
      exact .inl ⟨rfl, fun h => absurd (h hne hbig hfne).1 (not_le.mpr hlt)⟩
  rintro n' r ⟨rfl, hfne, hread⟩
  rw [← hfrac] at hfne hread
  obtain ⟨hm', hexp', hfrac', hle, hdouble', hnone'⟩ : n'.minus = t.minus ∧ n'.exp = 0 ∧
      n'.expFrac = -(t.fracTaken : ℤ) ∧ t.fracTaken ≤ 2 ^ 31 ∧
      (t.frac ≠ none → n'.useDouble = true) ∧ (t.frac = none → n' = n) := by
    rw [htaken, ← hfrac]
    rcases hread with ⟨hnone, rfl⟩ | ⟨hsome, hread⟩
    · have hzero : fracCount (digitsFrom 0 t.int) (t.int.length - 1) (t.frac.getD []) = 0 := by
        rw [hnone, fracCount]
        split_ifs <;> rfl
      rw [hzero]
      exact ⟨hn.minus, hn.exp, by rw [hn.expFrac]; rfl, by omega, fun h => absurd hnone h,
        fun _ => rfl⟩
    · have hlower := hread.lower
      rw [hread.expFrac] at hlower
      exact ⟨hread.minus, hread.exp, hread.expFrac, by omega, fun _ => hread.useDouble,
        fun h => absurd h hsome⟩
  refine wp_mono (wp_parseExp n' s₃) ?_ ?_
  · rintro n'' r ⟨hr, hm'', hfrac'', hcase⟩
    rw [← hexp] at hcase
    refine ⟨hr, ?_⟩
    rcases hcase with ⟨hnone, rfl⟩ | ⟨e, hsome, he, hdouble'', hsigned⟩
    · refine ⟨⟨hne, hfne, ?_⟩, ?_, hm', ?_, hle, ?_, ?_, fun h _ => hnone' h ▸ hn⟩
      · rw [hnone]
        nofun
      · rintro (h | ⟨e, he, -⟩)
        · exact Bool.noConfusion (hbig.symm.trans h)
        · exact nomatch hnone.symm.trans he
      · rw [hexp', hfrac', power, hnone, Option.elim_none]
        omega
      · rw [hnone]
        nofun
      · rintro (h | h)
        · exact hdouble' h
        · exact absurd hnone h
    · have huniq (e' : ExpText) (he' : t.exp = some e') : e' = e :=
        Option.some.inj (he'.symm.trans hsome)
      refine ⟨⟨hne, hfne, ?_⟩, ?_, hm''.trans hm', ?_, hle, ?_, fun _ => hdouble'', fun _ h => ?_⟩
      · intro e' he'
        rw [huniq e' he']
        exact he.digits
      · rintro (h | ⟨e', he', hpos, hbig'⟩)
        · exact Bool.noConfusion (hbig.symm.trans h)
        · rw [huniq e' he'] at hpos hbig'
          exact absurd (he.positive hpos) (not_le.mpr hbig')
      · rw [hsigned, hfrac'', hfrac', power, hsome, Option.elim_some]
        omega
      · intro e' he' hneg
        rw [huniq e' he'] at hneg ⊢
        exact he.negative hneg
      · exact nomatch h.symm.trans hsome
  · rintro f r ⟨e, hsome, h⟩
    rw [← hexp] at hsome
    have huniq (e' : ExpText) (he' : t.exp = some e') : e' = e :=
      Option.some.inj (he'.symm.trans hsome)
    rcases h with ⟨hnil, rfl⟩ | ⟨hneg, rfl, hbig'⟩ | ⟨hpos, rfl, hbig'⟩
    · refine .inr ⟨fun _ _ _ => ⟨hle, fun e' he' _ => ?_⟩, .inr ⟨.inr (.inr rfl), fun hc => ?_⟩⟩
      · rw [huniq e' he', ExpText.value, hnil, digitsFrom_nil]
        omega
      · exact hc.exp e hsome hnil
    · exact .inl ⟨rfl, fun h => absurd ((h hne hbig hfne).2 e hsome hneg).1 (not_lt.mpr hbig')⟩
    · refine .inr ⟨fun _ _ _ => ⟨hle, fun e' he' hneg => ?_⟩, .inl ⟨rfl, .inr ⟨e, hsome, hpos, hbig'⟩⟩⟩
      rw [huniq e' he'] at hneg
      exact Bool.noConfusion (hneg.symm.trans hpos)

/-- On any platform, a number is read to its end, or the parsing ends with a fault. -/
theorem wp_parse_any (s : Bytes) :
    wp parse (fun _ r => (split s).1.Complete ∧ r = (split s).2)
      (fun f _ => f = .undefined ∨ f = tooBig ∨ IsSyntaxFault f) s := by
  rw [wp, parse_eq]
  let s₁ := (splitMinus s).2
  let s₂ := (splitInt s₁).2
  let s₃ := (splitFrac s₂).2
  refine wp_seq (wp_mono (wp_parseInteger _ s₁) (fun _ _ h => h) ?_) ?_
  · rintro f r (⟨-, rfl⟩ | ⟨-, rfl⟩)
    · exact .inr (.inr (.inl rfl))
    · exact .inr (.inl rfl)
  rintro n r ⟨hint, -, rfl, -⟩
  have hfrac : wp (parseFrac n) (fun _ r => (splitFrac s₂).1 ≠ some [] ∧ r = s₃)
      (fun f _ => f = .undefined ∨ f = tooBig ∨ IsSyntaxFault f) s₂ := by
    rcases parseFrac_cases n s₂ with ⟨hsplit, hrun⟩ | ⟨-, r, hrun⟩ | ⟨fs, r, hne, hfs, hr, hsplit, hrun⟩
    · rw [wp, hrun, hsplit]
      exact ⟨nofun, congrArg Prod.snd hsplit.symm⟩
    · rw [wp, hrun]
      exact .inr (.inr (.inr (.inl rfl)))
    · rw [wp, hrun]
      refine wp_mono (wp_parseFracDigits hfs hr n) ?_ fun _ _ h => .inl h
      rintro n' r' rfl
      rw [hsplit]
      exact ⟨fun h => hne (Option.some.inj h), congrArg Prod.snd hsplit.symm⟩
  refine wp_seq hfrac ?_
  rintro n' r ⟨hfrac, rfl⟩
  refine wp_mono (wp_parseExp n' s₃) ?_ ?_
  · rintro n'' r ⟨rfl, -, -, hcase⟩
    refine ⟨⟨hint, hfrac, fun e he => ?_⟩, rfl⟩
    rcases hcase with ⟨hnone, -⟩ | ⟨e', hsome, hread, -⟩
    · exact nomatch hnone.symm.trans he
    · rw [Option.some.inj (he.symm.trans hsome)]
      exact hread.digits
  · rintro f r ⟨e, -, ⟨-, rfl⟩ | ⟨-, rfl, -⟩ | ⟨-, rfl, -⟩⟩
    · exact .inr (.inr (.inr (.inr rfl)))
    · exact .inl rfl
    · exact .inr (.inl rfl)

/-! ## The value of the number -/

theorem pow10_of_mem {z : ℤ} (h : 0 ≤ z ∧ z ≤ 308) : pow10 z = .ok (Platform.tenPow z.toNat) :=
  if_pos h

/-- The powers that are looked up are in the table. -/
theorem fastPath_isOk (d : BitVec 64) {p : ℤ} (hp : p ≤ 308) : ∃ d', fastPath d p = .ok d' := by
  unfold fastPath
  by_cases hlow : p < -308
  · exact ⟨_, if_pos hlow⟩
  · rw [if_neg hlow]
    by_cases hpos : 0 ≤ p
    · rw [if_pos hpos, pow10_of_mem ⟨hpos, hp⟩]
      exact ⟨_, rfl⟩
    · rw [if_neg hpos, pow10_of_mem (by omega)]
      exact ⟨_, rfl⟩

theorem strtodNormalPrecision_isOk (d : BitVec 64) {p : ℤ} (hp : p ≤ 308) :
    ∃ d', strtodNormalPrecision d p = .ok d' := by
  unfold strtodNormalPrecision
  by_cases hlow : p < -308
  · obtain ⟨d', hd'⟩ := fastPath_isOk d (show (-308 : ℤ) ≤ 308 by decide)
    rw [if_pos hlow, hd']
    exact fastPath_isOk d' (by omega)
  · rw [if_neg hlow]
    exact fastPath_isOk d hp

/-- The power of a number that is not too big is up to the last one of the table. -/
theorem power_le {t : NumberText} (h : ¬ t.TooBig) : t.power ≤ 308 := by
  rw [power]
  cases hexp : t.exp with
  | none =>
    rw [Option.elim_none]
    omega
  | some e =>
    rw [Option.elim_some, ExpText.signed]
    cases hminus : e.minus with
    | true =>
      rw [if_pos rfl]
      omega
    | false =>
      have hle : e.value ≤ 308 := not_lt.mp fun hlt => h (.inr ⟨e, hexp, hminus, hlt⟩)
      rw [if_neg Bool.false_ne_true]
      omega

/-- The double of a number is there exactly when the sum of its exponents is in range. -/
theorem double_eq {t : NumberText} {n : ParseNumber} (h : NumberRead t n) :
    (∃ d, n.double = .ok d ∧ t.InRange) ∨ (n.double = .error .undefined ∧ ¬ t.InRange) := by
  have hpower := power_le h.notTooBig
  have hbig : t.intTooBig = false := Bool.eq_false_iff.mpr fun hb => h.notTooBig (.inl hb)
  rw [double, h.power]
  by_cases hlow : -2 ^ 31 ≤ t.power
  · obtain ⟨d, hd⟩ := strtodNormalPrecision_isOk n.d hpower
    rw [checkInt_of_le hlow (by omega)]
    refine .inl ⟨d, hd, fun _ _ _ => ⟨h.fracTaken, fun e he hminus => ⟨h.exp e he hminus, ?_⟩⟩⟩
    rw [power, he, Option.elim_some, ExpText.signed, if_pos hminus] at hlow
    omega
  · rw [checkInt_of_lt (not_le.mp hlow)]
    refine .inr ⟨rfl, fun hrange => ?_⟩
    obtain ⟨htaken, hexp⟩ := hrange h.complete.int hbig h.complete.frac
    rw [power] at hlow
    cases he : t.exp with
    | none =>
      rw [he, Option.elim_none] at hlow
      omega
    | some e =>
      rw [he, Option.elim_some, ExpText.signed] at hlow
      cases hminus : e.minus with
      | true =>
        have := hexp e he hminus
        rw [hminus, if_pos rfl] at hlow
        omega
      | false =>
        rw [hminus, if_neg Bool.false_ne_true] at hlow
        omega

/-- A number without a fraction and an exponent is in range. -/
theorem inRange_of_integer {t : NumberText} (hfrac : t.frac = none) (hexp : t.exp = none) :
    t.InRange := by
  intro _ _ _
  refine ⟨?_, fun e he => nomatch hexp.symm.trans he⟩
  rw [fracTaken, leadingZeros, fracDigits, hfrac]
  split_ifs <;> simp

end ParseNumber

end AnyRpc
