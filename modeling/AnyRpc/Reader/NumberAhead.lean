import AnyRpc.Library.Lookahead
import AnyRpc.Reader.Number

/-! # What a number takes from its text

`ParseNumber` takes the characters of numbers only, and it looks at the character behind them, so
what stands further on does not matter. -/

namespace AnyRpc.ParseNumber

open Library

/-- The characters of numbers. -/
def NumberChar (c : UInt8) : Prop :=
  isDigit c = true ∨ c = 0x2d ∨ c = 0x2b ∨ c = 0x2e ∨ c = 0x65 ∨ c = 0x45

instance : DecidablePred NumberChar := fun c =>
  inferInstanceAs (Decidable (_ ∨ c = 0x2d ∨ c = 0x2b ∨ c = 0x2e ∨ c = 0x65 ∨ c = 0x45))

/-- The next byte is seen and not taken. -/
theorem looksAhead_peek (t : Bytes) : LooksAhead NumberChar Text.peek t :=
  looksAhead_look (f := fun c => c.getD 0)
    (fun t => by rw [Text.peek_apply, List.headD_eq_head?_getD]) t

/-- A character of a number is taken. -/
theorem looksAhead_get {t : Bytes} (h : ∀ c ∈ t.head?, NumberChar c) :
    LooksAhead NumberChar Text.get t :=
  looksAhead_take (f := fun c => c.getD 0)
    (fun t => by rw [Text.get_apply, List.headD_eq_head?_getD]) h

/-- Taking a character that was looked at. -/
theorem looksAhead_get_of_peek {t : Bytes} (h : NumberChar (t.headD 0)) :
    LooksAhead NumberChar Text.get t := by
  refine looksAhead_get fun c hc => ?_
  cases t with
  | nil => cases hc
  | cons d t =>
    cases hc
    exact h

/-- An exception takes nothing. -/
theorem looksAhead_throw {code : BitVec 32} {message : Bytes} {α : Type} (t : Bytes) :
    LooksAhead NumberChar (anyrpcThrow code message : Exec Bytes α) t :=
  looksAhead_error (anyrpcThrow_apply code message t)

/-- The loops over digits. -/
theorem looksAhead_whileDigit (stop : Stop) (next : Next) (n : ParseNumber) (t : Bytes) :
    LooksAhead NumberChar (whileDigit stop next n) t := by
  induction t generalizing n with
  | nil =>
    rintro x r h
    cases h
    refine ⟨[], rfl, nofun, fun r' hr' => ?_⟩
    cases r' with
    | nil => rfl
    | cons c r' => cases hr'
  | cons c t ih =>
    -- The loop is left in front of `c`, whatever stands behind it.
    have hleft {m : ParseNumber} (h : ∀ t, whileDigit stop next n (c :: t) = .ok m (c :: t)) :
        LooksAhead NumberChar (whileDigit stop next n) (c :: t) := by
      intro x r hok
      rw [h] at hok
      cases hok
      refine ⟨[], rfl, nofun, fun r' hr' => ?_⟩
      cases r' with
      | nil => cases hr'
      | cons d r' =>
        cases hr'
        exact h r'
    by_cases hc : isDigit c = true
    · cases hstop : stop n c with
      | error f => exact looksAhead_error (by rw [whileDigit, if_pos hc, hstop])
      | ok left =>
        cases left with
        | some m => exact hleft fun t => by rw [whileDigit, if_pos hc, hstop]
        | none =>
          cases hnext : next n (digitValue c) with
          | error f =>
            exact looksAhead_error (e := f) (s := t) (by
              rw [whileDigit, if_pos hc, hstop]
              simp only [hnext])
          | ok m =>
            have hrun (t : Bytes) : whileDigit stop next n (c :: t) = whileDigit stop next m t := by
              rw [whileDigit, if_pos hc, hstop]
              simp only [hnext]
            intro x r hok
            rw [hrun] at hok
            obtain ⟨a, rfl, ha, hrest⟩ := ih m x r hok
            refine ⟨c :: a, rfl, fun d hd => ?_, fun r' hr' => ?_⟩
            · rcases List.mem_cons.mp hd with rfl | hd
              · exact .inl hc
              · exact ha d hd
            · rw [List.cons_append, hrun]
              exact hrest r' hr'
    · exact hleft fun t => by rw [whileDigit, if_neg hc]

/-- A digit is taken. -/
theorem looksAhead_getDigit {t : Bytes} (h : isDigit (t.headD 0) = true) :
    LooksAhead NumberChar getDigit t :=
  looksAhead_bind (looksAhead_get_of_peek (.inl h)) fun _ _ _ => looksAhead_pure _ _

/-- The sign. -/
theorem looksAhead_parseMinus (t : Bytes) : LooksAhead NumberChar parseMinus t := by
  refine looksAhead_bind (looksAhead_peek t) ?_
  rintro c r ⟨⟩
  refine looksAhead_ite (fun hc => ?_) fun _ => looksAhead_pure _ _
  exact looksAhead_bind (looksAhead_get_of_peek (.inr (.inl hc))) fun _ _ _ => looksAhead_pure _ _

/-- The digits up to 32 bits. -/
theorem looksAhead_parseInt (n : ParseNumber) (t : Bytes) :
    LooksAhead NumberChar (parseInt n) t := by
  refine looksAhead_bind (looksAhead_peek t) ?_
  rintro c r ⟨⟩
  refine looksAhead_ite (fun hc => ?_) fun _ => ?_
  · have hdigit : NumberChar (t.headD 0) := .inl (by rw [hc]; decide)
    exact looksAhead_bind (looksAhead_get_of_peek hdigit) fun _ _ _ => looksAhead_pure _ _
  · refine looksAhead_bind (looksAhead_peek t) ?_
    rintro c r ⟨⟩
    refine looksAhead_ite (fun hc => ?_) fun _ => looksAhead_throw t
    exact looksAhead_bind (looksAhead_getDigit hc) fun _ _ _ => looksAhead_whileDigit _ _ _ _

/-- The sign of the exponent. -/
theorem looksAhead_parseExpSign (t : Bytes) : LooksAhead NumberChar parseExpSign t := by
  refine looksAhead_bind (looksAhead_peek t) ?_
  rintro c r ⟨⟩
  refine looksAhead_ite (fun hc => ?_) fun _ => ?_
  · have hplus : NumberChar (t.headD 0) := .inr (.inr (.inl hc))
    exact looksAhead_bind (looksAhead_get_of_peek hplus) fun _ _ _ => looksAhead_pure _ _
  · refine looksAhead_bind (looksAhead_peek t) ?_
    rintro c r ⟨⟩
    refine looksAhead_ite (fun hc => ?_) fun _ => looksAhead_pure _ _
    exact looksAhead_bind (looksAhead_get_of_peek (.inr (.inl hc))) fun _ _ _ => looksAhead_pure _ _

/-- The digits of the exponent. -/
theorem looksAhead_parseExpDigits (expMinus : Bool) (n : ParseNumber) (t : Bytes) :
    LooksAhead NumberChar (parseExpDigits expMinus n) t := by
  refine looksAhead_bind (looksAhead_peek t) ?_
  rintro c r ⟨⟩
  refine looksAhead_ite (fun hc => ?_) fun _ => looksAhead_throw t
  refine looksAhead_bind (looksAhead_getDigit hc) fun _ _ _ => ?_
  exact looksAhead_bind (looksAhead_whileDigit _ _ _ _) fun _ _ _ => looksAhead_pure _ _

variable [Platform]

/-- The digits up to 64 bits. -/
theorem looksAhead_parseInt64 (n : ParseNumber) (t : Bytes) :
    LooksAhead NumberChar (parseInt64 n) t :=
  looksAhead_ite (fun _ => looksAhead_whileDigit _ _ _ _) fun _ => looksAhead_pure _ _

/-- The digits of a double. -/
theorem looksAhead_parseBigInt (n : ParseNumber) (t : Bytes) :
    LooksAhead NumberChar (parseBigInt n) t :=
  looksAhead_ite (fun _ => looksAhead_whileDigit _ _ _ _) fun _ => looksAhead_pure _ _

/-- The digits of the fraction. -/
theorem looksAhead_parseFracDigits (n : ParseNumber) (t : Bytes) :
    LooksAhead NumberChar (parseFracDigits n) t :=
  looksAhead_ite
    (fun _ => looksAhead_bind (looksAhead_whileDigit _ _ _ _) fun _ _ _ =>
      looksAhead_whileDigit _ _ _ _)
    fun _ => looksAhead_whileDigit _ _ _ _

/-- The fraction. -/
theorem looksAhead_parseFrac (n : ParseNumber) (t : Bytes) :
    LooksAhead NumberChar (parseFrac n) t := by
  refine looksAhead_bind (looksAhead_peek t) ?_
  rintro c r ⟨⟩
  refine looksAhead_ite (fun hc => ?_) fun _ => looksAhead_pure _ _
  have hpoint : NumberChar (t.headD 0) := .inr (.inr (.inr (.inl hc)))
  refine looksAhead_bind (looksAhead_get_of_peek hpoint) fun _ r _ => ?_
  refine looksAhead_bind (looksAhead_peek r) fun _ r _ => ?_
  exact looksAhead_ite (fun _ => looksAhead_bind (looksAhead_throw r) fun _ _ _ =>
    looksAhead_parseFracDigits _ _) fun _ => looksAhead_parseFracDigits _ _

/-- The exponent. -/
theorem looksAhead_parseExp (n : ParseNumber) (t : Bytes) :
    LooksAhead NumberChar (parseExp n) t := by
  refine looksAhead_bind (looksAhead_peek t) ?_
  rintro c r ⟨⟩
  refine looksAhead_bind (looksAhead_peek t) ?_
  rintro c r ⟨⟩
  refine looksAhead_ite (fun hc => ?_) fun _ => looksAhead_pure _ _
  have hexp : NumberChar (t.headD 0) := .inr (.inr (.inr (.inr hc)))
  refine looksAhead_bind (looksAhead_get_of_peek hexp) fun _ _ _ => ?_
  exact looksAhead_bind (looksAhead_parseExpSign _) fun _ _ _ => looksAhead_parseExpDigits _ _ _

/-- A number is what stands in front of the first character that is none of a number. -/
theorem looksAhead_parse (t : Bytes) : LooksAhead NumberChar parse t := by
  refine looksAhead_bind (looksAhead_parseMinus t) fun _ _ _ => ?_
  refine looksAhead_bind (looksAhead_parseInt _ _) fun _ _ _ => ?_
  refine looksAhead_bind (looksAhead_parseInt64 _ _) fun _ _ _ => ?_
  refine looksAhead_bind (looksAhead_parseBigInt _ _) fun _ _ _ => ?_
  exact looksAhead_bind (looksAhead_parseFrac _ _) fun _ _ _ => looksAhead_parseExp _ _

end AnyRpc.ParseNumber
