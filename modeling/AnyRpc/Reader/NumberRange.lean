import AnyRpc.Json.Reader
import AnyRpc.Reader.NumberParse
import AnyRpc.Xml.Sound

/-! # The exponents of a number

Where the `int` variables of `ParseNumber` and the index into the table of powers stay in range, for
both readers. Only a positive exponent is guarded, so the digits of a negative one, those of a long
fraction, and their sum can leave the range of an `int`. -/

namespace AnyRpc

open Library Reader NumberText ParseNumber

/-- No `int` of a computation leaves its range, and no index its table. -/
def Defined {τ α : Type} (p : Reader τ α) (s : ReaderState τ) : Prop :=
  wp p (fun _ _ => True) (fun f _ => f ≠ .undefined) s

instance {τ α : Type} (p : Reader τ α) (s : ReaderState τ) : Decidable (Defined p s) :=
  inferInstanceAs (Decidable (wp _ _ _ _))

theorem tooBig_ne : tooBig ≠ .undefined := nofun

theorem ParseNumber.IsSyntaxFault.ne {f : Fault} (h : IsSyntaxFault f) : f ≠ .undefined := by
  rcases h with rfl | rfl | rfl <;> nofun

section

variable [Platform]

/-- A number is read within range, or leaves it exactly when its text says so. -/
theorem defined_number (hnonzero : Platform.DigitsNonzero) {τ : Type} {s : ReaderState τ}
    {f : ParseNumber → Reader τ Unit}
    (hf : ∀ n s', NumberRead (split s.is.rest).1 n →
      ((split s.is.rest).1.InRange ↔ Defined (f n) s')) :
    Defined (do f (← onText ParseNumber.parse)) s ↔ (split s.is.rest).1.InRange := by
  have hparse := ParseNumber.wp_parse hnonzero s.is.rest
  rw [Defined, wp_bind, wp_onText]
  unfold wp at hparse ⊢
  cases hrun : ParseNumber.parse s.is.rest with
  | ok n r =>
    rw [hrun] at hparse
    exact (hf n _ hparse.2).symm
  | error fault r =>
    rw [hrun] at hparse
    rcases hparse with ⟨rfl, hrange⟩ | ⟨hrange, ⟨rfl, -⟩ | ⟨hfault, -⟩⟩
    · exact iff_of_false (fun h => h rfl) hrange
    · exact iff_of_true tooBig_ne hrange
    · exact iff_of_true hfault.ne hrange

omit [Platform] in
/-- The end tag of a number. -/
theorem defined_expectTag (tag : XmlTag) {sc : Scalar} (s : ReaderState XmlReader) :
    Defined (do XmlReader.expectTag tag; call (.scalar sc) : XmlReader.ReadM Unit) s := by
  have h := (XmlReader.calls_expectTag (n := s.is.rest.length) le_rfl tag (s := s)).wp
  refine wp_seq (wp_mono h (fun _ _ h => h) ?_) fun _ _ _ => trivial
  rintro f s' ⟨e, rfl, -⟩
  nofun

/-- A number in 32 or 64 bits has neither a fraction nor an exponent. -/
theorem inRange_of_useDouble {t : NumberText} {n : ParseNumber} (h : NumberRead t n)
    (hdouble : n.useDouble = false) : t.InRange := by
  refine inRange_of_integer (by_contra fun hfrac => ?_) (by_contra fun hexp => ?_)
  · exact Bool.noConfusion (hdouble.symm.trans (h.useDouble (.inl hfrac)))
  · exact Bool.noConfusion (hdouble.symm.trans (h.useDouble (.inr hexp)))

/-- The part of `JsonReader::ParseNumber` behind the number. -/
theorem defined_jsonNumber {t : NumberText} {n : ParseNumber} (h : NumberRead t n)
    (s : ReaderState JsonReader) :
    t.InRange ↔ Defined (match JsonReader.numberEvent n with
      | .ok sc => call (.scalar sc)
      | .error f => throw f : JsonReader.ReadM Unit) s := by
  cases hdouble : n.useDouble with
  | false =>
    refine iff_of_true (inRange_of_useDouble h hdouble) ?_
    rw [JsonReader.numberEvent, hdouble]
    cases n.use64bit <;> trivial
  | true =>
    rw [JsonReader.numberEvent, if_pos hdouble]
    rcases double_eq h with ⟨d, hd, hrange⟩ | ⟨hd, hrange⟩
    · rw [hd]
      exact iff_of_true hrange trivial
    · rw [hd]
      exact iff_of_false hrange fun hdefined => hdefined rfl

/-- The part of `XmlReader::ParseNumber` behind the number. -/
theorem defined_xmlNumber (tag : XmlTagName) {t : NumberText} {n : ParseNumber}
    (h : NumberRead t n) (s : ReaderState XmlReader) :
    t.InRange ↔ Defined (XmlReader.finishNumber tag n) s := by
  unfold XmlReader.finishNumber
  cases hdouble : n.useDouble with
  | false =>
    refine iff_of_true (inRange_of_useDouble h hdouble) ?_
    rw [if_neg Bool.false_ne_true]
    cases n.use64bit with
    | false => exact defined_expectTag _ s
    | true =>
      rw [if_pos rfl]
      by_cases htag : tag ≠ .double ∧ tag ≠ .i8
      · rw [if_pos htag]
        exact nofun
      · rw [if_neg htag]
        by_cases hd : tag = .double
        · rw [if_pos hd]
          exact defined_expectTag _ s
        · rw [if_neg hd]
          exact defined_expectTag _ s
  | true =>
    rw [if_pos rfl]
    rcases double_eq h with ⟨d, hd, hrange⟩ | ⟨hd, hrange⟩
    · refine iff_of_true hrange ?_
      rw [hd]
      by_cases htag : tag ≠ .double
      · simp only [if_pos htag]
        exact nofun
      · simp only [if_neg htag]
        exact defined_expectTag _ s
    · rw [hd]
      exact iff_of_false hrange fun hdefined => hdefined rfl

/-- For any text, `ParseNumber` of both readers keeps `exp`, `expFrac` and their sum in the range of
an `int`, and the index into the table of powers in the table, exactly when the number is in
range. -/
theorem parseNumber_defined_iff (hnonzero : Platform.DigitsNonzero) :
    (∀ s, Defined JsonReader.parseNumber s ↔ (split s.is.rest).1.InRange) ∧
      ∀ tag s, Defined (XmlReader.parseNumber tag) s ↔ (split s.is.rest).1.InRange :=
  ⟨fun _ => defined_number hnonzero fun _ s' h => defined_jsonNumber h s',
    fun tag _ => defined_number hnonzero fun _ s' h => defined_xmlNumber tag h s'⟩

end

/-- A platform without calendar and doubles, but for the comparison with zero. -/
@[reducible]
def Platform.nonzero : Platform := { Platform.blank with ne := fun _ _ => true }

/-- A number with a fraction and a negative exponent. -/
theorem parseNumber_defined_iff_fraction :
    @Defined _ _ (@JsonReader.parseNumber Platform.nonzero)
        (JsonReader.new (.readString (ascii "-12.25e-3"))) ∧
      @Defined _ _ (@XmlReader.parseNumber Platform.nonzero .double)
        (XmlReader.new (.readString (ascii "-12.25e-3</double>"))) := by
  let _ := Platform.nonzero
  have hall := parseNumber_defined_iff fun _ _ _ => rfl
  have hrange (s : Bytes) (he : (split s).1.exp = some ⟨0x65, some 0x2d, ascii "3"⟩)
      (hfrac : (split s).1.fracTaken = 2) : (split s).1.InRange := by
    refine fun _ _ _ => ⟨by omega, fun e he' _ => ?_⟩
    cases he.symm.trans he'
    have hvalue : ExpText.value ⟨0x65, some 0x2d, ascii "3"⟩ = 3 := by decide +kernel
    omega
  exact ⟨(hall.1 _).mpr (hrange _ (by decide) (by decide +kernel)),
    (hall.2 _ _).mpr (hrange _ (by decide) (by decide +kernel))⟩

/-- The exponent of a negative sign leaves the range of an `int`, and so does its sum with the digits
of the fraction. -/
theorem parseNumber_leaves_int :
    ¬ @Defined _ _ (@JsonReader.parseNumber Platform.nonzero)
        (JsonReader.new (.readString (ascii "1e-2147483648"))) ∧
      ¬ @Defined _ _ (@JsonReader.parseNumber Platform.nonzero)
        (JsonReader.new (.readString (ascii "1.25e-2147483647"))) ∧
      ¬ @Defined _ _ (@XmlReader.parseNumber Platform.nonzero .double)
        (XmlReader.new (.readString (ascii "1e-2147483648</double>"))) := by
  decide +kernel

end AnyRpc
