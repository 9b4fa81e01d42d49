import AnyRpc.Library.Hoare
import AnyRpc.Reader.Number

/-! # What `ParseNumber` makes of a text

A text is cut where `ParseNumber` goes from one part of the number to the next
(`NumberText.split`). Each part is then a loop over digits of which the result can be told from the
digits alone, and with it when the parsing of a number throws, and when it runs into what is
undefined (`ParseNumber.wp_parse`). -/

namespace AnyRpc

open Library

/-! ## Digits -/

theorem isDigit_iff {c : UInt8} : isDigit c = true ↔ 0x30 ≤ c.toNat ∧ c.toNat ≤ 0x39 := by
  rw [isDigit, Bool.and_eq_true, decide_eq_true_eq, decide_eq_true_eq, UInt8.le_iff_toNat_le,
    UInt8.le_iff_toNat_le]
  exact Iff.rfl

theorem digitValue_le {c : UInt8} (hc : isDigit c = true) : digitValue c ≤ 9 := by
  have h := (isDigit_iff.mp hc).2
  unfold digitValue
  exact Nat.sub_le_of_le_add h

/-- The number that digits make of the one before them. -/
def digitsFrom : ℕ → Bytes → ℕ
  | acc, [] => acc
  | acc, c :: ds => digitsFrom (acc * 10 + digitValue c) ds

@[simp] theorem digitsFrom_nil (acc : ℕ) : digitsFrom acc [] = acc := rfl

@[simp] theorem digitsFrom_cons (acc : ℕ) (c : UInt8) (ds : Bytes) :
    digitsFrom acc (c :: ds) = digitsFrom (acc * 10 + digitValue c) ds := rfl

theorem le_digitsFrom (acc : ℕ) (ds : Bytes) : acc ≤ digitsFrom acc ds := by
  induction ds generalizing acc with
  | nil => exact le_rfl
  | cons c ds ih =>
    have := ih (acc * 10 + digitValue c)
    rw [digitsFrom_cons]
    omega

/-- Digits multiply what is before them by powers of ten. -/
theorem mul_pow_le_digitsFrom (acc : ℕ) (ds : Bytes) : acc * 10 ^ ds.length ≤ digitsFrom acc ds := by
  induction ds generalizing acc with
  | nil => exact (Nat.mul_one acc).le
  | cons c ds ih =>
    rw [List.length_cons, digitsFrom_cons, Nat.pow_succ']
    calc acc * (10 * 10 ^ ds.length) = acc * 10 * 10 ^ ds.length := (Nat.mul_assoc _ _ _).symm
      _ ≤ (acc * 10 + digitValue c) * 10 ^ ds.length := Nat.mul_le_mul_right _ (Nat.le_add_right _ _)
      _ ≤ digitsFrom (acc * 10 + digitValue c) ds := ih _

/-- A number is below the power of ten that its digits make room for. -/
theorem digitsFrom_lt {ds : Bytes} (hds : ∀ c ∈ ds, isDigit c = true) (acc : ℕ) :
    digitsFrom acc ds < (acc + 1) * 10 ^ ds.length := by
  induction ds generalizing acc with
  | nil => simp [digitsFrom]
  | cons c ds ih =>
    have hc := digitValue_le (hds c List.mem_cons_self)
    have hrest := ih (fun d hd => hds d (List.mem_cons_of_mem _ hd)) (acc * 10 + digitValue c)
    rw [digitsFrom_cons, List.length_cons, Nat.pow_succ']
    calc digitsFrom (acc * 10 + digitValue c) ds
        < (acc * 10 + digitValue c + 1) * 10 ^ ds.length := hrest
      _ ≤ ((acc + 1) * 10) * 10 ^ ds.length := Nat.mul_le_mul_right _ (by omega)
      _ = (acc + 1) * (10 * 10 ^ ds.length) := Nat.mul_assoc _ _ _

/-- As many of the digits as keep the number up to a bound, and what is left of them. -/
def within (max : ℕ) : ℕ → Bytes → ℕ × Bytes
  | acc, [] => (acc, [])
  | acc, c :: ds =>
    if acc * 10 + digitValue c ≤ max then within max (acc * 10 + digitValue c) ds
    else (acc, c :: ds)

/-- What is taken, and what is left because the next digit would be too much. -/
theorem within_spec {max acc : ℕ} (hacc : acc ≤ max) (ds : Bytes) :
    ∃ us, ds = us ++ (within max acc ds).2 ∧ (within max acc ds).1 = digitsFrom acc us ∧
      (within max acc ds).1 ≤ max ∧
      ∀ c vs, (within max acc ds).2 = c :: vs → max < (within max acc ds).1 * 10 + digitValue c := by
  induction ds generalizing acc with
  | nil => exact ⟨[], rfl, rfl, hacc, nofun⟩
  | cons c ds ih =>
    rw [within]
    by_cases h : acc * 10 + digitValue c ≤ max
    · rw [if_pos h]
      obtain ⟨us, hsplit, hvalue, hle, hnext⟩ := ih h
      refine ⟨c :: us, ?_, hvalue, hle, hnext⟩
      rw [List.cons_append, ← hsplit]
    · rw [if_neg h]
      refine ⟨[], rfl, rfl, hacc, ?_⟩
      rintro _ _ ⟨⟩
      omega

/-- All the digits are taken when the number is up to the bound. -/
theorem within_of_le {max acc : ℕ} {ds : Bytes} (h : digitsFrom acc ds ≤ max) :
    within max acc ds = (digitsFrom acc ds, []) := by
  induction ds generalizing acc with
  | nil => rfl
  | cons c ds ih =>
    have hle := le_digitsFrom (acc * 10 + digitValue c) ds
    rw [digitsFrom_cons] at h ⊢
    rw [within, if_pos (hle.trans h), ih h]

/-- Going on to a larger bound. -/
theorem within_within {max max' : ℕ} (hmax : max ≤ max') (acc : ℕ) (ds : Bytes) :
    within max' (within max acc ds).1 (within max acc ds).2 = within max' acc ds := by
  induction ds generalizing acc with
  | nil => rfl
  | cons c ds ih =>
    rw [within]
    by_cases h : acc * 10 + digitValue c ≤ max
    · rw [if_pos h, ih, within, if_pos (h.trans hmax)]
    · rw [if_neg h]

/-! ## The parts of a number -/

/-- What follows the digits of a part does not start with another one. -/
def NoDigit (r : Bytes) : Prop := ∀ c ∈ r.head?, isDigit c = false

theorem noDigit_dropWhile (s : Bytes) : NoDigit (s.dropWhile isDigit) := by
  intro c hc
  have := List.head?_dropWhile_not isDigit s
  rw [Option.mem_def.mp hc] at this
  exact this

/-- An exponent: the `e`, a sign, digits. -/
structure ExpText where
  mark : UInt8
  sign : Option UInt8
  digits : Bytes
  deriving DecidableEq, Repr

/-- Whether the sign of an exponent is a minus. -/
def ExpText.minus (e : ExpText) : Bool := e.sign = some 0x2d

/-- The value of an exponent, without its sign. -/
def ExpText.value (e : ExpText) : ℕ := digitsFrom 0 e.digits

/-- The value of an exponent. -/
def ExpText.signed (e : ExpText) : ℤ := if e.minus then -(e.value : ℤ) else e.value

/-- The parts of a number. A part that lacks its digits is an error. -/
structure NumberText where
  minus : Bool
  int : Bytes
  /-- The digits behind the decimal point. -/
  frac : Option Bytes
  exp : Option ExpText
  deriving DecidableEq, Repr

namespace NumberText

def splitMinus : Bytes → Bool × Bytes
  | c :: s => if c = 0x2d then (true, s) else (false, c :: s)
  | [] => (false, [])

/-- The digits of the integer: a zero stands alone. -/
def splitInt : Bytes → Bytes × Bytes
  | c :: s =>
    if c = 0x30 then ([c], s) else ((c :: s).takeWhile isDigit, (c :: s).dropWhile isDigit)
  | [] => ([], [])

def splitFrac : Bytes → Option Bytes × Bytes
  | c :: s =>
    if c = 0x2e then (some (s.takeWhile isDigit), s.dropWhile isDigit) else (none, c :: s)
  | [] => (none, [])

def splitSign : Bytes → Option UInt8 × Bytes
  | c :: s => if c = 0x2b ∨ c = 0x2d then (some c, s) else (none, c :: s)
  | [] => (none, [])

def splitExp : Bytes → Option ExpText × Bytes
  | c :: s =>
    if c = 0x65 ∨ c = 0x45 then
      let (sign, s) := splitSign s
      (some { mark := c, sign, digits := s.takeWhile isDigit }, s.dropWhile isDigit)
    else (none, c :: s)
  | [] => (none, [])

/-- The parts of the number at the start of a text, and what is behind it. -/
def split (s : Bytes) : NumberText × Bytes :=
  let (minus, s) := splitMinus s
  let (int, s) := splitInt s
  let (frac, s) := splitFrac s
  let (exp, s) := splitExp s
  ({ minus, int, frac, exp }, s)

/-- The bytes of a fraction. -/
def fracText (frac : Option Bytes) : Bytes := frac.elim [] fun ds => 0x2e :: ds

/-- The bytes of an exponent. -/
def expText (exp : Option ExpText) : Bytes :=
  exp.elim [] fun e => e.mark :: (e.sign.toList ++ e.digits)

/-- The bytes of a number. -/
def text (t : NumberText) : Bytes :=
  (if t.minus then [0x2d] else []) ++ (t.int ++ (fracText t.frac ++ expText t.exp))

/-- The value of the integer part. -/
def intValue (t : NumberText) : ℕ := digitsFrom 0 t.int

/-- The digits of the fraction. -/
def fracDigits (t : NumberText) : Bytes := t.frac.getD []

/-- The zeros at the start of the fraction of a number below one. -/
def leadingZeros (t : NumberText) : ℕ :=
  if t.intValue = 0 then (t.fracDigits.takeWhile (· = 0x30)).length else 0

/-- How many digits of the fraction count: the zeros at its start, when nothing else is before
them, and as many more as there is room for in the significand. -/
def fracTaken (t : NumberText) : ℕ :=
  t.leadingZeros + min (t.fracDigits.length - t.leadingZeros)
    (if t.intValue = 0 then 17 else 18 - t.int.length)

/-- The power of ten that the significand is multiplied with. -/
def power (t : NumberText) : ℤ := t.exp.elim 0 ExpText.signed - t.fracTaken

/-- The parts have the digits that they need. -/
structure Complete (t : NumberText) : Prop where
  int : t.int ≠ []
  frac : t.frac ≠ some []
  exp : ∀ e, t.exp = some e → e.digits ≠ []

/-- The integers of each width, by the sign. -/
def max32 (minus : Bool) : ℕ := if minus then 2 ^ 31 else 2 ^ 32 - 1
def max64 (minus : Bool) : ℕ := if minus then 2 ^ 63 else 2 ^ 64 - 1

theorem max32_le_max64 (minus : Bool) : max32 minus ≤ max64 minus := by
  cases minus <;> decide

/-- The digits of an integer without superfluous leading zero. -/
def IntDigits (ds : Bytes) : Prop :=
  ds = [0x30] ∨ ∃ c us, ds = c :: us ∧ c ≠ 0x30 ∧ ∀ d ∈ ds, isDigit d = true

/-- The integer part, where there is one, has no superfluous leading zero. -/
theorem intDigits_splitInt {s : Bytes} (h : (splitInt s).1 ≠ []) : IntDigits (splitInt s).1 := by
  cases s with
  | nil => exact absurd rfl h
  | cons c s =>
    by_cases hzero : c = 0x30
    · exact .inl (by rw [splitInt, if_pos hzero, hzero])
    · rw [splitInt, if_neg hzero] at h ⊢
      cases hc : isDigit c with
      | false =>
        rw [List.takeWhile_cons, hc] at h
        exact absurd rfl h
      | true =>
        refine .inr ⟨c, s.takeWhile isDigit, ?_, hzero, fun d hd => List.mem_takeWhile_imp hd⟩
        rw [List.takeWhile_cons, if_pos hc]

/-- An integer of some digits is zero, and then a single one, or has its first digit. -/
theorem IntDigits.pow_le {ds : Bytes} (h : IntDigits ds) :
    (digitsFrom 0 ds = 0 ∧ ds.length = 1) ∨
      (digitsFrom 0 ds ≠ 0 ∧ 10 ^ (ds.length - 1) ≤ digitsFrom 0 ds ∧ 0 < ds.length) := by
  rcases h with rfl | ⟨c, us, rfl, hc, hds⟩
  · exact .inl ⟨by decide +kernel, rfl⟩
  · have hpos : 1 ≤ digitValue c := by
      have h := isDigit_iff.mp (hds c List.mem_cons_self)
      have hne : c.toNat ≠ 0x30 := fun hcon => hc (UInt8.toNat_inj.mp hcon)
      unfold digitValue
      omega
    have hpow : 10 ^ us.length ≤ digitsFrom 0 (c :: us) := by
      rw [digitsFrom_cons, Nat.zero_mul, Nat.zero_add]
      exact (Nat.le_mul_of_pos_left _ hpos).trans (mul_pow_le_digitsFrom _ us)
    refine .inr ⟨?_, hpow, Nat.succ_pos _⟩
    exact (Nat.pos_of_ne_zero (by positivity)).trans_le hpow |>.ne'

theorem IntDigits.ne_nil {ds : Bytes} (h : IntDigits ds) : ds ≠ [] := by
  rcases h with rfl | ⟨c, us, rfl, -⟩
  · exact List.cons_ne_nil _ _
  · exact List.cons_ne_nil _ _

/-- An integer starts with a digit. -/
theorem IntDigits.head {ds : Bytes} (h : IntDigits ds) : ∃ c us, ds = c :: us ∧ isDigit c = true := by
  rcases h with rfl | ⟨c, us, rfl, -, hds⟩
  · exact ⟨0x30, [], rfl, by decide⟩
  · exact ⟨c, us, rfl, hds c List.mem_cons_self⟩

/-! ## The syntax of a number -/

/-- An exponent is well-formed. -/
structure ExpValid (e : ExpText) : Prop where
  mark : e.mark = 0x65 ∨ e.mark = 0x45
  sign : ∀ c, e.sign = some c → c = 0x2b ∨ c = 0x2d
  ne_nil : e.digits ≠ []
  digits : ∀ c ∈ e.digits, isDigit c = true

/-- A number is well-formed. -/
structure Valid (t : NumberText) : Prop where
  int : IntDigits t.int
  frac : ∀ ds, t.frac = some ds → ds ≠ [] ∧ ∀ c ∈ ds, isDigit c = true
  exp : ∀ e, t.exp = some e → ExpValid e

/-- A well-formed number has the digits that it needs. -/
theorem Valid.complete {t : NumberText} (h : t.Valid) : t.Complete where
  int := h.int.ne_nil
  frac := fun hfrac => (h.frac [] hfrac).1 rfl
  exp := fun e he => (h.exp e he).ne_nil

/-- What follows a number does not go on with it. -/
def EndsNumber (r : Bytes) : Prop :=
  ∀ c ∈ r.head?, isDigit c = false ∧ c ≠ 0x2e ∧ c ≠ 0x65 ∧ c ≠ 0x45

theorem EndsNumber.noDigit {r : Bytes} (h : EndsNumber r) : NoDigit r := fun c hc => (h c hc).1

/-- Digits, before something that is no digit. -/
theorem takeWhile_isDigit {ds r : Bytes} (hds : ∀ c ∈ ds, isDigit c = true) (hr : NoDigit r) :
    (ds ++ r).takeWhile isDigit = ds ∧ (ds ++ r).dropWhile isDigit = r := by
  have hr' : r.takeWhile isDigit = [] ∧ r.dropWhile isDigit = r := by
    cases r with
    | nil => exact ⟨rfl, rfl⟩
    | cons d r =>
      have hd : isDigit d = false := hr d rfl
      simp [hd]
  rw [List.takeWhile_append_of_pos hds, List.dropWhile_append_of_pos hds, hr'.1, hr'.2,
    List.append_nil]
  exact ⟨rfl, rfl⟩

/-- The sign of a number. -/
theorem splitMinus_append (minus : Bool) {ds : Bytes} (hds : IntDigits ds) (r : Bytes) :
    splitMinus ((if minus then [0x2d] else []) ++ (ds ++ r)) = (minus, ds ++ r) := by
  cases minus with
  | true => rfl
  | false =>
    obtain ⟨c, us, rfl, hc⟩ := hds.head
    have hne : c ≠ 0x2d := by
      rintro rfl
      exact absurd hc (by decide)
    exact if_neg hne

/-- The digits of an integer, before something that is no digit. -/
theorem splitInt_append {ds r : Bytes} (hds : IntDigits ds) (hr : NoDigit r) :
    splitInt (ds ++ r) = (ds, r) := by
  rcases hds with rfl | ⟨c, us, rfl, hc, hall⟩
  · rfl
  · obtain ⟨htake, hdrop⟩ := takeWhile_isDigit hall hr
    rw [List.cons_append] at htake hdrop ⊢
    rw [splitInt, if_neg hc, htake, hdrop]

/-- A fraction, before something that is neither a digit nor a point. -/
theorem splitFrac_append {frac : Option Bytes} {r : Bytes}
    (hfrac : ∀ ds, frac = some ds → ds ≠ [] ∧ ∀ c ∈ ds, isDigit c = true) (hr : NoDigit r)
    (hpoint : ∀ c ∈ r.head?, c ≠ 0x2e) : splitFrac (fracText frac ++ r) = (frac, r) := by
  cases frac with
  | none =>
    cases r with
    | nil => rfl
    | cons c r => exact if_neg (hpoint c rfl)
  | some ds =>
    obtain ⟨htake, hdrop⟩ := takeWhile_isDigit (hfrac ds rfl).2 hr
    show (some ((ds ++ r).takeWhile isDigit), (ds ++ r).dropWhile isDigit) = (some ds, r)
    rw [htake, hdrop]

/-- The sign of an exponent. -/
theorem splitSign_append {sign : Option UInt8} {ds : Bytes} (r : Bytes)
    (hsign : ∀ c, sign = some c → c = 0x2b ∨ c = 0x2d) (hne : ds ≠ [])
    (hds : ∀ c ∈ ds, isDigit c = true) :
    splitSign (sign.toList ++ ds ++ r) = (sign, ds ++ r) := by
  cases sign with
  | some c => exact if_pos (hsign c rfl)
  | none =>
    obtain ⟨d, us, rfl⟩ := List.exists_cons_of_ne_nil hne
    have hd := hds d List.mem_cons_self
    refine if_neg ?_
    rintro (rfl | rfl)
    · exact absurd hd (by decide)
    · exact absurd hd (by decide)

/-- An exponent, before something that does not go on with the number. -/
theorem splitExp_append {exp : Option ExpText} {r : Bytes} (hexp : ∀ e, exp = some e → ExpValid e)
    (hr : EndsNumber r) : splitExp (expText exp ++ r) = (exp, r) := by
  cases exp with
  | none =>
    cases r with
    | nil => rfl
    | cons c r => exact if_neg (not_or.mpr (hr c rfl).2.2)
  | some e =>
    have he := hexp e rfl
    obtain ⟨htake, hdrop⟩ := takeWhile_isDigit he.digits hr.noDigit
    have hsign := splitSign_append r he.sign he.ne_nil he.digits
    show splitExp (e.mark :: (e.sign.toList ++ e.digits ++ r)) = (some e, r)
    rw [splitExp, if_pos he.mark]
    simp only [hsign, htake, hdrop]

/-- A well-formed number is split into its parts. -/
theorem split_append {t : NumberText} {r : Bytes} (ht : t.Valid) (hr : EndsNumber r) :
    split (t.text ++ r) = (t, r) := by
  have hexp : NoDigit (expText t.exp ++ r) ∧ ∀ c ∈ (expText t.exp ++ r).head?, c ≠ 0x2e := by
    cases he : t.exp with
    | none => exact ⟨hr.noDigit, fun c hc => (hr c hc).2.1⟩
    | some e =>
      refine ⟨?_, ?_⟩
      · rintro c ⟨⟩
        rcases (ht.exp e he).mark with hm | hm <;> rw [hm] <;> decide
      · rintro c ⟨⟩
        rcases (ht.exp e he).mark with hm | hm <;> rw [hm] <;> decide
  have hfrac : NoDigit (fracText t.frac ++ (expText t.exp ++ r)) := by
    cases t.frac with
    | none => exact hexp.1
    | some ds =>
      rintro c ⟨⟩
      decide
  have htext : t.text ++ r = (if t.minus then [0x2d] else []) ++
      (t.int ++ (fracText t.frac ++ (expText t.exp ++ r))) := by
    simp only [text, List.append_assoc]
  rw [htext, split]
  simp only [splitMinus_append t.minus ht.int, splitInt_append ht.int hfrac,
    splitFrac_append ht.frac hexp.1 hexp.2, splitExp_append ht.exp hr]

theorem splitMinus_text (s : Bytes) :
    s = (if (splitMinus s).1 then [0x2d] else []) ++ (splitMinus s).2 := by
  cases s with
  | nil => rfl
  | cons c s =>
    by_cases hc : c = 0x2d
    · rw [splitMinus, if_pos hc, hc]
      rfl
    · rw [splitMinus, if_neg hc]
      rfl

theorem splitInt_text (s : Bytes) : s = (splitInt s).1 ++ (splitInt s).2 := by
  cases s with
  | nil => rfl
  | cons c s =>
    rw [splitInt]
    split_ifs with hc
    · rfl
    · exact (List.takeWhile_append_dropWhile).symm

theorem splitFrac_text (s : Bytes) :
    s = fracText (splitFrac s).1 ++ (splitFrac s).2 ∧
      ∀ ds, (splitFrac s).1 = some ds → ∀ c ∈ ds, isDigit c = true := by
  cases s with
  | nil => exact ⟨rfl, nofun⟩
  | cons c s =>
    rw [splitFrac]
    split_ifs with hc
    · refine ⟨?_, ?_⟩
      · rw [hc]
        exact congrArg _ (List.takeWhile_append_dropWhile).symm
      · rintro _ ⟨⟩ d hd
        exact List.mem_takeWhile_imp hd
    · exact ⟨rfl, nofun⟩

theorem splitSign_text (s : Bytes) :
    s = (splitSign s).1.toList ++ (splitSign s).2 ∧
      ∀ c, (splitSign s).1 = some c → c = 0x2b ∨ c = 0x2d := by
  cases s with
  | nil => exact ⟨rfl, nofun⟩
  | cons c s =>
    rw [splitSign]
    split_ifs with hc
    · refine ⟨rfl, ?_⟩
      rintro _ ⟨⟩
      exact hc
    · exact ⟨rfl, nofun⟩

theorem splitExp_text (s : Bytes) :
    s = expText (splitExp s).1 ++ (splitExp s).2 ∧
      ∀ e, (splitExp s).1 = some e → e.digits ≠ [] → ExpValid e := by
  cases s with
  | nil => exact ⟨rfl, nofun⟩
  | cons c s =>
    rw [splitExp]
    split_ifs with hc
    · obtain ⟨htext, hsign⟩ := splitSign_text s
      refine ⟨?_, ?_⟩
      · show c :: s = c :: ((splitSign s).1.toList ++ (splitSign s).2.takeWhile isDigit) ++
          (splitSign s).2.dropWhile isDigit
        rw [List.cons_append, List.append_assoc, List.takeWhile_append_dropWhile, ← htext]
      · rintro _ ⟨⟩ hne
        exact ⟨hc, hsign, hne, fun d hd => List.mem_takeWhile_imp hd⟩
    · exact ⟨rfl, nofun⟩

/-- A number that has the digits that it needs is well-formed, and its text is what is split off. -/
theorem split_text {s : Bytes} (h : (split s).1.Complete) :
    (split s).1.Valid ∧ s = (split s).1.text ++ (split s).2 := by
  let s₁ := (splitMinus s).2
  let s₂ := (splitInt s₁).2
  let s₃ := (splitFrac s₂).2
  obtain ⟨hfrac, hfracDigits⟩ := splitFrac_text s₂
  obtain ⟨hexp, hexpValid⟩ := splitExp_text s₃
  have hint : s₁ = (splitInt s₁).1 ++ s₂ := splitInt_text s₁
  refine ⟨⟨intDigits_splitInt h.int, fun ds hds => ⟨?_, hfracDigits ds hds⟩,
    fun e he => hexpValid e he (h.exp e he)⟩, ?_⟩
  · rintro rfl
    exact h.frac hds
  · show s = (if (splitMinus s).1 then [0x2d] else []) ++ ((splitInt s₁).1 ++
      (fracText (splitFrac s₂).1 ++ expText (splitExp s₃).1)) ++ (splitExp s₃).2
    rw [List.append_assoc, List.append_assoc, List.append_assoc, ← hexp, ← hfrac, ← hint]
    exact splitMinus_text s

variable [Platform]

/-- Before one of the digits, a double is at a tenth of the largest one. -/
def exceeds : BitVec 64 → Bytes → Bool
  | _, [] => false
  | d, c :: ds =>
    Platform.ge d ParseNumber.maxTenth || exceeds (ParseNumber.appendDigit d (digitValue c)) ds

/-- An integer is too big, as the double that its first digits make goes on to be. -/
def integerTooBig (minus : Bool) (ds : Bytes) : Bool :=
  exceeds (Platform.doubleOfNat (within (max64 minus) 0 ds).1) (within (max64 minus) 0 ds).2

/-- The integer part is too big. -/
def intTooBig (t : NumberText) : Bool := integerTooBig t.minus t.int

/-- The number is reported as too big: for its integer part, or for its exponent. -/
def TooBig (t : NumberText) : Prop :=
  t.intTooBig = true ∨ ∃ e, t.exp = some e ∧ e.minus = false ∧ 308 < e.value

/-- What leaves the range of an `int`, if it is reached, does not: the number of digits taken from
the fraction, the value of a negative exponent, and the sum of both. -/
def InRange (t : NumberText) : Prop :=
  t.int ≠ [] → t.intTooBig = false → t.frac ≠ some [] →
    t.fracTaken ≤ 2 ^ 31 ∧
      ∀ e, t.exp = some e → e.minus = true → e.value < 2 ^ 31 ∧ e.value + t.fracTaken ≤ 2 ^ 31

end NumberText

/-- A double that decimal digits make of a positive integer is not zero. -/
def Platform.DigitsNonzero [Platform] : Prop :=
  ∀ (v : ℕ) (ds : Bytes), 0 < v →
    Platform.ne (ds.foldl (fun d c => ParseNumber.appendDigit d (digitValue c))
      (Platform.doubleOfNat v)) 0 = true

end AnyRpc
