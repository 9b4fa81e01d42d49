import AnyRpc.Json.Feeding
import AnyRpc.Xml.Writer

/-! # The XML writer fed by the JSON reader

What the calls of the reader do to an `XmlWriter`, at any depth of nesting. A member is a level of its
own besides that of its map. -/

namespace AnyRpc.XmlWriter

open Library Handler Json NumberText

/-! ## What the calls throw -/

/-- Text is put without a fault. -/
theorem reported_put (str : Bytes) : FailsWith Fault.Reported (put str) := .of_ok fun _ => ⟨_, _, rfl⟩

/-- What does not fit the buffer is reported. -/
theorem reported_putBuffer (text : Bytes) : FailsWith Fault.Reported (putBuffer text) :=
  .ite (fun _ => reported_put _) fun _ =>
    .ite (fun _ => reported_put _) fun _ => .throw Fault.reported_undefined

/-- The text of a string. -/
theorem reported_stringData (str : Bytes) : FailsWith Fault.Reported (stringData str) := by
  induction str with
  | nil => exact .of_ok fun _ => ⟨_, _, rfl⟩
  | cons c str ih =>
    have hrest : FailsWith Fault.Reported (do
        put (escape c)
        stringData str) := .bind (reported_put _) fun _ => ih
    exact .ite (fun _ => .bind (reported_anyrpcThrow (by decide) _) fun _ => hrest) fun _ => hrest

/-- The start of a line. -/
theorem reported_startLine : FailsWith Fault.Reported startLine :=
  .bind (.of_ok fun _ => ⟨_, _, rfl⟩) fun _ =>
    .ite (fun _ => reported_put _) fun _ => .of_ok fun _ => ⟨_, _, rfl⟩

/-- A start tag. -/
theorem reported_startToken (token : Bytes) : FailsWith Fault.Reported (startToken token) :=
  .bind (reported_put _) fun _ => .of_ok fun _ => ⟨_, _, rfl⟩

/-- An end tag. -/
theorem reported_endToken (token : Bytes) : FailsWith Fault.Reported (endToken token) :=
  .bind (.of_ok fun _ => ⟨_, _, rfl⟩) fun _ =>
    .ite (fun _ => .bind (.of_ok fun _ => ⟨_, _, rfl⟩) fun _ => .bind (.of_ok fun _ => ⟨_, _, rfl⟩)
      fun _ => .bind (reported_anyrpcAssert _ (by decide) _) fun _ =>
        .bind reported_startLine fun _ => reported_put _) fun _ => reported_put _

/-- A conversion that ends without a result does so where the source is not defined. -/
def NoException {α : Type} (r : Except Fault α) : Prop := ∀ e, r ≠ .error (.exception e)

/-- A value is no exception. -/
theorem NoException.of_ok {α : Type} (a : α) : NoException (.ok a : Except Fault α) := nofun

/-- Sequences. -/
theorem NoException.bind {α β : Type} {r : Except Fault α} {f : α → Except Fault β}
    (hr : NoException r) (hf : ∀ a, NoException (f a)) : NoException (r >>= f) := by
  cases r with
  | ok a => exact hf a
  | error f' => exact fun e he => hr e (by cases he; rfl)

/-- Both branches. -/
theorem NoException.ite {α : Type} {c : Prop} [Decidable c] {r r' : Except Fault α}
    (hr : NoException r) (hr' : NoException r') : NoException (if c then r else r') := by
  split_ifs
  · exact hr
  · exact hr'

section

variable [Platform] [DoubleDigits]

omit [DoubleDigits] in
/-- A power of ten. -/
theorem noException_pow10 (n : ℤ) : NoException (ParseNumber.pow10 n) := by
  unfold ParseNumber.pow10
  exact .ite (.of_ok _) nofun

/-- The first digit. -/
theorem noException_leadDigit (value precision : BitVec 64) :
    NoException (leadDigit value precision) := by
  unfold leadDigit
  cases DoubleDigits.toUnsigned (Platform.add value precision) with
  | some digit => exact .of_ok _
  | none => exact nofun

/-- The power of a double. -/
theorem noException_doubleExtractPower (d : BitVec 64) : NoException (doubleExtractPower d) := by
  unfold doubleExtractPower
  cases DoubleDigits.power d with
  | none => exact nofun
  | some p =>
    exact .ite (.bind (noException_pow10 _) fun _ => .of_ok _)
      (.ite (.bind (noException_pow10 _) fun _ => .of_ok _)
        (.bind (noException_pow10 _) fun _ => .bind (noException_pow10 _) fun _ => .of_ok _))

/-- The digits in front of the point. -/
theorem noException_integerDigits (power : ℕ) (value precision : BitVec 64) :
    NoException (integerDigits power value precision) := by
  induction power generalizing value precision with
  | zero => exact .bind (noException_leadDigit _ _) fun _ => .ite (.of_ok _) (.of_ok _)
  | succ power ih =>
    exact .bind (noException_leadDigit _ _) fun _ => .ite (.of_ok _)
      (.bind (ih _ _) fun _ => .of_ok _)

/-- The digits behind the point. -/
theorem noException_fractionDigits (fuel : ℕ) (value precision : BitVec 64) :
    NoException (fractionDigits fuel value precision) := by
  induction fuel generalizing value precision with
  | zero => exact nofun
  | succ fuel ih =>
    exact .ite (.bind (noException_leadDigit _ _) fun _ => .bind (ih _ _) fun _ => .of_ok _) (.of_ok _)

/-- The text of a positive double. -/
theorem noException_positiveText (value : BitVec 64) : NoException (positiveText value) := by
  unfold positiveText
  refine .bind (noException_doubleExtractPower value) fun _ => .ite ?_ ?_
  · exact .bind (noException_integerDigits _ _ _) fun _ =>
      .ite (.bind (noException_fractionDigits _ _ _) fun _ => .of_ok _) (.of_ok _)
  · exact .bind (noException_fractionDigits _ _ _) fun _ => .of_ok _

/-- The text of any double. -/
theorem noException_doubleText (value : BitVec 64) : NoException (doubleText value) := by
  rw [doubleText]
  refine .ite (.of_ok _) (.ite ?_ (noException_positiveText _))
  exact .bind (noException_positiveText _) fun _ => .of_ok _

/-- A double. -/
theorem reported_double (d : BitVec 64) : FailsWith Fault.Reported (double d) := by
  refine .bind (reported_put _) fun _ => .bind (.of_ok fun _ => ⟨_, _, rfl⟩) fun w =>
    .ite (fun _ => .bind (reported_putBuffer _) fun _ => reported_put _) fun _ => ?_
  cases htext : doubleText d with
  | ok text => exact .bind (reported_put _) fun _ => reported_put _
  | error f =>
    refine .bind (.throw fun e he => ?_) fun _ => reported_put _
    rw [he] at htext
    exact (noException_doubleText d e htext).elim

/-- Every scalar. -/
theorem reported_scalar (sc : Scalar) : FailsWith Fault.Reported (scalar sc) := by
  have hinteger (openTag digits closeTag : Bytes) :
      FailsWith Fault.Reported (integer openTag digits closeTag) :=
    .bind (reported_put _) fun _ => .bind (reported_put _) fun _ => reported_put _
  cases sc with
  | dateTime dt =>
    exact .bind (reported_put _) fun _ => .bind (reported_putBuffer _) fun _ => reported_put _
  | string str =>
    exact .bind (reported_put _) fun _ => .bind (reported_stringData str.bytes) fun _ =>
      reported_put _
  | binary str => exact .bind (reported_put _) fun _ => .bind (reported_put _) fun _ => reported_put _
  | float f => exact reported_double _
  | double d => exact reported_double d
  | null | boolTrue | boolFalse => exact reported_put _
  | _ => exact hinteger _ _ _

/-- What a call throws has an error code. -/
theorem reported_handle (e : Event) : FailsWith Fault.Reported (handle e : Exec XmlWriter Unit) := by
  cases e with
  | scalar sc => exact reported_scalar sc
  | startMap c => exact reported_startToken _
  | key str =>
    exact .bind reported_startLine fun _ => .bind (reported_startToken _) fun _ =>
      .bind reported_startLine fun _ => .bind (reported_put _) fun _ =>
        .bind (reported_stringData str.bytes) fun _ => .bind (reported_put _) fun _ =>
          reported_startLine
  | mapSeparator => exact reported_endToken _
  | endMap count =>
    exact .ite (fun _ => .bind (reported_endToken _) fun _ => reported_endToken _)
      fun _ => reported_endToken _
  | startArray count =>
    cases count with
    | none => exact reported_anyrpcThrow (by decide) _
    | some count =>
      show FailsWith Fault.Reported (startArray count)
      refine .bind (reported_startToken _) fun _ => ?_
      refine .ite (c := count ≠ 0) (fun _ => reported_startLine) fun _ => ?_
      exact .of_ok fun w => ⟨(), w, rfl⟩
  | arraySeparator => exact reported_startLine
  | endArray count => exact reported_endToken _

end

/-! ## What the calls write -/

/-- A string that the writer writes. -/
def TakesString (str : Bytes) : Prop := 0 ∉ str

/-- A double that the writer writes: its text fits the buffer, or has its digits. -/
def TakesDouble [Platform] [DoubleDigits] (w : XmlWriter) (d : BitVec 64) : Prop :=
  if 0 < w.precision then (Platform.formatG w.precision d).length ≤ 100
  else ∃ text, doubleText d = .ok text

/-- The writer `w`, further in its text and some levels deeper. -/
def Deeper (w : XmlWriter) (n : ℕ) (w' : XmlWriter) : Prop :=
  ∃ text, w' = { w with
    os := w.os ++ text
    level := if w.pretty then w.level + n else w.level }

section

variable (w : XmlWriter) {n : ℕ} {w' : XmlWriter}

/-- A writer is no deeper than itself. -/
theorem deeper_zero : Deeper w 0 w := by
  refine ⟨[], ?_⟩
  obtain ⟨os, pretty, level, precision⟩ := w
  simp

variable {w}

/-- Text leaves the depth as it is. -/
theorem leads_put (text : Bytes) : LeadsIff (Deeper w n) True (Deeper w n) (put text) := by
  refine leadsIff_of_ok fun w' ⟨t, h⟩ => ⟨(), _, rfl, t ++ text, ?_⟩
  rw [h]
  simp

/-- Text that goes through the buffer has to fit it. -/
theorem leads_putBuffer (text : Bytes) :
    LeadsIff (Deeper w n) (text.length ≤ 100) (Deeper w n) (putBuffer text) := by
  rw [putBuffer]
  by_cases hlt : text.length < 100
  · rw [if_pos hlt]
    exact (leads_put _).congr (iff_of_true trivial hlt.le)
  · rw [if_neg hlt]
    by_cases heq : text.length = 100
    · rw [if_pos heq]
      exact (leads_put _).congr (iff_of_true trivial heq.le)
    · rw [if_neg heq]
      exact (leadsIff_of_error fun w' _ => ⟨.undefined, w', rfl⟩).congr
        (iff_of_false id (by omega))

/-- A string is written up to a null character, which is refused. -/
theorem leads_stringData (str : Bytes) :
    LeadsIff (Deeper w n) (TakesString str) (Deeper w n) (stringData str) := by
  induction str with
  | nil => exact leadsIff_pure.congr (iff_of_true trivial List.not_mem_nil)
  | cons c str ih =>
    rw [stringData]
    by_cases hc : c = 0
    · rw [if_pos hc]
      refine (leadsIff_of_error fun w' _ => ⟨_, w', rfl⟩).congr (iff_of_false id ?_)
      exact fun h => h (hc ▸ List.mem_cons_self)
    · rw [if_neg hc]
      refine ((leads_put _).seq ih).congr ?_
      rw [TakesString, TakesString, List.mem_cons, not_or, true_and]
      exact (and_iff_right (Ne.symm hc)).symm

/-- The start of a line leaves the depth as it is. -/
theorem leads_startLine : LeadsIff (Deeper w n) True (Deeper w n) startLine := by
  intro w' h
  rw [startLine, wp_bind_of_ok (get_apply w')]
  by_cases hpretty : w'.pretty = true
  · rw [if_pos hpretty]
    exact leads_put _ w' h
  · rw [if_neg hpretty]
    exact leadsIff_pure w' h

/-- A level is entered. -/
theorem leads_startToken (token : Bytes) :
    LeadsIff (Deeper w n) True (Deeper w (n + 1)) (startToken token) := by
  refine ((leads_put _).seq (leadsIff_of_ok fun w' ⟨t, h⟩ => ⟨(), _, rfl, t, ?_⟩)).congr
    (and_self_iff)
  rw [h]
  cases hpretty : w.pretty <;> simp [add_assoc]

/-- A level is left again. -/
theorem leads_endToken (hw : 0 ≤ w.level) (token : Bytes) :
    LeadsIff (Deeper w (n + 1)) True (Deeper w n) (endToken token) := by
  intro w' ⟨t, h⟩
  rw [endToken, wp_bind_of_ok (get_apply w')]
  cases hpretty : w.pretty with
  | false =>
    have hw' : Deeper w n w' := ⟨t, by rw [h]; simp [hpretty]⟩
    rw [if_neg (by rw [h]; simp [hpretty])]
    exact leads_put _ w' hw'
  | true =>
    have hlevel : 0 ≤ w'.level - 1 := by
      rw [h]
      simp only [hpretty, if_true]
      omega
    have hw' : Deeper w n { w' with level := w'.level - 1 } := by
      refine ⟨t, ?_⟩
      rw [h]
      simp only [hpretty, if_true, XmlWriter.mk.injEq, true_and, and_true]
      omega
    rw [if_pos (by rw [h]; exact hpretty), wp_bind_of_ok (modify_apply _ _),
      wp_bind_of_ok (get_apply _), show decide (0 ≤ w'.level - 1) = true from decide_eq_true hlevel,
      anyrpcAssert_true, pure_bind]
    exact (leads_startLine.seq (leads_put token)).congr and_self_iff _ hw'

/-- An integer between its tags. -/
theorem leads_integer (openTag digits closeTag : Bytes) :
    LeadsIff (Deeper w n) True (Deeper w n) (integer openTag digits closeTag) :=
  ((leads_put _).seq ((leads_put _).seq (leads_put _))).congr (by simp)

variable [Platform] [DoubleDigits]

/-- A double has to fit its buffer. -/
theorem leads_double (d : BitVec 64) :
    LeadsIff (Deeper w n) (w.TakesDouble d) (Deeper w n) (double d) := by
  refine ((leads_put _).seq (Q := w.TakesDouble d) fun w' h => ?_).congr (by rw [true_and])
  have hprecision : w'.precision = w.precision := by
    obtain ⟨t, rfl⟩ := h
    rfl
  rw [wp_bind_of_ok (get_apply w'), hprecision]
  rw [TakesDouble]
  by_cases hpos : 0 < w.precision
  · rw [if_pos hpos, if_pos hpos]
    exact ((leads_putBuffer _).seq (leads_put _)).congr (by rw [and_true]) w' h
  · rw [if_neg hpos, if_neg hpos]
    cases htext : doubleText d with
    | ok text =>
      exact ((leads_put _).seq (leads_put _)).congr (iff_of_true ⟨trivial, trivial⟩ ⟨text, rfl⟩) w' h
    | error f =>
      have hthrow : LeadsIff (Deeper w n) False (Deeper w n) (throw f : Exec XmlWriter Unit) :=
        leadsIff_of_error fun w' _ => ⟨f, w', rfl⟩
      refine hthrow.stop.congr (iff_of_false id ?_) w' h
      rintro ⟨text, ⟨⟩⟩

/-- What the calls of the reader do. -/
theorem nests (hw : 0 ≤ w.level) :
    Nests TakesString w.TakesDouble (fun n => Deeper w (2 * n)) fun n => Deeper w (2 * n + 1) where
  scalar n sc hsc := by
    cases sc with
    | string str =>
      exact ((leads_put _).seq ((leads_stringData str.bytes).seq (leads_put _))).congr
        (by simp [Scalar.Taken])
    | double d => exact leads_double d
    | dateTime _ | binary _ | float _ => exact hsc.elim
    | null | boolTrue | boolFalse => exact leads_put _
    | _ => exact leads_integer _ _ _
  startArray n := leadsIff_of_error fun w' _ => ⟨_, w', rfl⟩
  startMap n := leads_startToken _
  key n str :=
    (leads_startLine.seq ((leads_startToken _).seq (leads_startLine.seq ((leads_put _).seq
      ((leads_stringData str.bytes).seq ((leads_put _).seq leads_startLine)))))).congr (by simp)
  mapSeparator n := leads_endToken hw _
  endEmpty n := leads_endToken hw _
  endMap n k := ((leads_endToken hw _).seq (leads_endToken hw _)).congr and_self_iff

end

/-! ## Integers -/

/-- The calls for 32 bits. -/
def IsNarrow : Scalar → Prop
  | .int _ | .uint _ => True
  | _ => False

section

variable [Platform] [DoubleDigits] {sc sc' : Scalar} {z : ℤ}

/-- The text of an integer is that of its number, in the tag that the call is for. -/
theorem handle_of_integer (h : sc.integer? = some z) :
    (IsNarrow sc ∧ (handle (.scalar sc) : Exec XmlWriter Unit) = i4 (decimalInt z)) ∨
      (¬ IsNarrow sc ∧ (handle (.scalar sc) : Exec XmlWriter Unit) = i8 (decimalInt z)) := by
  have hnat (k : ℕ) : decimalInt (k : ℤ) = decimal k := by
    rw [decimalInt, if_neg (by omega), Int.natAbs_natCast]
  cases sc with
  | int i =>
    cases h
    exact .inl ⟨trivial, rfl⟩
  | int64 i64 =>
    cases h
    exact .inr ⟨id, rfl⟩
  | uint u =>
    cases h
    rw [hnat]
    exact .inl ⟨trivial, rfl⟩
  | uint64 u64 =>
    cases h
    rw [hnat]
    exact .inr ⟨id, rfl⟩
  | _ => cases h

/-- Two calls for one number write the same if they have the same tag. -/
theorem handle_congr (h : sc.integer? = some z) (h' : sc'.integer? = some z)
    (hnarrow : IsNarrow sc ↔ IsNarrow sc') :
    (handle (.scalar sc) : Exec XmlWriter Unit) = handle (.scalar sc') := by
  rcases handle_of_integer h with ⟨hsc, heq⟩ | ⟨hsc, heq⟩ <;>
    rcases handle_of_integer h' with ⟨hsc', heq'⟩ | ⟨hsc', heq'⟩
  · rw [heq, heq']
  · exact absurd (hnarrow.mp hsc) hsc'
  · exact absurd (hnarrow.mpr hsc') hsc
  · rw [heq, heq']

end

/-- The reader calls for 32 bits where the integer fits an `int` or an `unsigned`. -/
theorem isNarrow_literalScalar (minus : Bool) (ds : Bytes) :
    IsNarrow (literalScalar minus (literalValue minus ds)) ↔
      -2 ^ 31 ≤ literalValue minus ds ∧ literalValue minus ds < 2 ^ 32 := by
  cases minus with
  | true =>
    have hneg : literalValue true ds ≤ 0 := by
      rw [literalValue, if_pos rfl]
      omega
    rw [literalScalar, if_pos rfl]
    by_cases hlow : -2 ^ 31 ≤ literalValue true ds
    · rw [if_pos hlow]
      exact iff_of_true trivial ⟨hlow, by omega⟩
    · rw [if_neg hlow]
      exact iff_of_false id fun h => hlow h.1
  | false =>
    have hpos : 0 ≤ literalValue false ds := by
      rw [literalValue, if_neg Bool.false_ne_true]
      omega
    rw [literalScalar, if_neg Bool.false_ne_true]
    by_cases hhigh : literalValue false ds < 2 ^ 32
    · rw [if_pos hhigh]
      exact iff_of_true trivial ⟨by omega, hhigh⟩
    · rw [if_neg hhigh]
      exact iff_of_false id fun h => hhigh h.2

/-- A traversal does so as well. -/
theorem isNarrow_scalar {T : IntegerType} {z : ℤ} (h : IntegerType.first? z = some T) :
    IsNarrow (T.scalar z) ↔ -2 ^ 31 ≤ z ∧ z < 2 ^ 32 := by
  simp only [IntegerType.first?, List.find?_cons] at h
  have hint : IntegerType.int.Fits z ↔ -2 ^ 31 ≤ z ∧ z < 2 ^ 31 := Iff.rfl
  have huint : IntegerType.unsigned.Fits z ↔ 0 ≤ z ∧ z < 2 ^ 32 := Iff.rfl
  by_cases h₁ : IntegerType.int.Fits z
  · simp only [h₁, decide_true, Option.some.injEq] at h
    subst h
    exact iff_of_true trivial ⟨(hint.mp h₁).1, by have := (hint.mp h₁).2; omega⟩
  by_cases h₂ : IntegerType.unsigned.Fits z
  · simp only [h₁, h₂, decide_false, decide_true, Option.some.injEq] at h
    subst h
    exact iff_of_true trivial ⟨by have := (huint.mp h₂).1; omega, (huint.mp h₂).2⟩
  -- A wider type comes first only outside of both ranges.
  have hout : ¬ (-2 ^ 31 ≤ z ∧ z < 2 ^ 32) := by
    rw [hint] at h₁
    rw [huint] at h₂
    omega
  refine iff_of_false ?_ hout
  simp only [h₁, h₂, decide_false] at h
  by_cases h₃ : IntegerType.int64.Fits z
  · simp only [h₃, decide_true, Option.some.injEq] at h
    subst h
    exact id
  by_cases h₄ : IntegerType.uint64.Fits z
  · simp only [h₃, h₄, decide_false, decide_true, Option.some.injEq] at h
    subst h
    exact id
  · simp [h₃, h₄] at h

/-- The writer does not tell the calls of the reader from those of a traversal. -/
theorem ignores [Platform] [DoubleDigits] : Ignores XmlWriter where
  startMap _ := rfl
  key _ := rfl
  string _ := rfl
  integer minus ds hrange := by
    obtain ⟨T, hfirst, hfits, hscalar⟩ := IntegerType.numberScalar_ofInteger hrange
    rw [hscalar]
    refine handle_congr (integer?_literalScalar hrange) (IntegerType.integer?_scalar hfits) ?_
    rw [isNarrow_literalScalar, isNarrow_scalar hfirst]

end AnyRpc.XmlWriter
