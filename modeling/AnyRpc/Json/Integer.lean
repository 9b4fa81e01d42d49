import AnyRpc.Document.Limits
import AnyRpc.Json.Reader
import AnyRpc.Library.Lookahead
import AnyRpc.Reader.NumberParse
import AnyRpc.Reader.Parse
import AnyRpc.Value.Integer

/-! # Integers in JSON

An integer literal of any length is delivered by the event of the first of the types that has room
for it (`literalScalar`), or not as an integer when none has. -/

namespace AnyRpc

open Library Reader NumberText ParseNumber Handler

/-- A decimal integer literal. -/
def literal (minus : Bool) (ds : Bytes) : Bytes := (if minus then [0x2d] else []) ++ ds

/-- The integer that a literal denotes. -/
def literalValue (minus : Bool) (ds : Bytes) : ℤ :=
  if minus then -(digitsFrom 0 ds : ℤ) else digitsFrom 0 ds

/-- The call that delivers an integer of the joint range of `int64_t` and `uint64_t`: a literal with
a sign is signed, one without is unsigned. -/
def literalScalar (minus : Bool) (z : ℤ) : Scalar :=
  if minus then
    if -2 ^ 31 ≤ z then .int (.ofInt 32 z) else .int64 (.ofInt 64 z)
  else if z < 2 ^ 32 then .uint (.ofInt 32 z)
  else .uint64 (.ofInt 64 z)

/-! ## Parsing the literal -/

namespace ParseNumber

variable [Platform]

theorem parseFrac_of_ends {r : Bytes} (hr : EndsNumber r) (n : ParseNumber) :
    parseFrac n r = .ok n r := by
  cases r with
  | nil => rfl
  | cons c r => simp [parseFrac, (hr c rfl).2.1]

theorem parseExp_of_ends {r : Bytes} (hr : EndsNumber r) (n : ParseNumber) :
    parseExp n r = .ok n r := by
  cases r with
  | nil => rfl
  | cons c r => simp [parseExp, (hr c rfl).2.2]

/-- A literal is read to its end, or is too big. -/
theorem wp_parse_literal (minus : Bool) {ds r : Bytes} (hds : IntDigits ds) (hr : EndsNumber r) :
    wp parse (fun n r' => integerTooBig minus ds = false ∧ r' = r ∧ IntRead minus ds n)
      (fun f _ => integerTooBig minus ds = true ∧ f = tooBig) (literal minus ds ++ r) := by
  have hint := wp_parseInteger minus (ds ++ r)
  rw [splitInt_append hds hr.noDigit] at hint
  rw [wp, parse_eq, literal, List.append_assoc, splitMinus_append minus hds r]
  refine wp_seq (wp_mono hint (fun _ _ h => h) ?_) ?_
  · rintro f r' (⟨hnil, -⟩ | h)
    · exact absurd hnil hds.ne_nil
    · exact h
  · rintro n r' ⟨-, hbig, rfl, hn⟩
    rw [wp_bind_of_ok (parseFrac_of_ends hr n), wp, parseExp_of_ends hr n]
    exact ⟨hbig, rfl, hn⟩

omit [Platform] in
/-- A loop over digits stops before anything that is no digit. -/
theorem stopsAt_whileDigit (stop : Stop) (next : Next) {r : Bytes} (hr : NoDigit r)
    (n : ParseNumber) (t : Bytes) : StopsAt r (whileDigit stop next n) t := by
  induction t generalizing n with
  | nil => exact whileDigit_of_noDigit hr
  | cons c t ih =>
    rw [StopsAt, List.cons_append, whileDigit, whileDigit]
    by_cases hc : isDigit c = true
    · rw [if_pos hc, if_pos hc]
      cases stop n c with
      | error f => rfl
      | ok left =>
        cases left with
        | some m => rfl
        | none =>
          cases hnext : next n (digitValue c) with
          | error f => rfl
          | ok m => exact ih m
    · rw [if_neg hc, if_neg hc]
      rfl

/-- The loops over the digits of an integer part stop before anything that is no digit. -/
theorem stopsAt_parseInteger {ds r : Bytes} (hds : IntDigits ds) (hr : NoDigit r)
    (n : ParseNumber) : StopsAt r (parseInteger n) ds := by
  obtain ⟨c, us, rfl, hc⟩ := hds.head
  have hint : StopsAt r (parseInt n) (c :: us) := by
    refine stopsAt_bind rfl ?_
    rintro d s ⟨⟩
    refine stopsAt_ite (fun _ => rfl) fun _ => stopsAt_bind rfl ?_
    rintro d s ⟨⟩
    refine stopsAt_ite (fun _ => stopsAt_bind rfl ?_) fun hd => absurd hc hd
    rintro digit s ⟨⟩
    exact stopsAt_whileDigit _ _ hr _ us
  refine stopsAt_bind hint fun n s _ => stopsAt_bind ?_ fun n s _ => ?_
  · exact stopsAt_ite (fun _ => stopsAt_whileDigit _ _ hr _ _) fun _ => stopsAt_pure _ _
  · exact stopsAt_ite (fun _ => stopsAt_whileDigit _ _ hr _ _) fun _ => stopsAt_pure _ _

/-- What is behind a literal makes no difference to its number. -/
theorem stopsAt_parse_literal (minus : Bool) {ds r : Bytes} (hds : IntDigits ds)
    (hr : EndsNumber r) : StopsAt r parse (literal minus ds) := by
  have hend : EndsNumber [] := by
    rintro _ ⟨⟩
  have hminus (r : Bytes) : splitMinus (literal minus ds ++ r) = (minus, ds ++ r) := by
    rw [literal, List.append_assoc, splitMinus_append minus hds r]
  have hnil := hminus []
  rw [List.append_nil, List.append_nil] at hnil
  rw [StopsAt, parse_eq, parse_eq, hminus, hnil]
  refine stopsAt_bind (stopsAt_parseInteger hds hr.noDigit _) fun n s hrun => ?_
  have hint := wp_parseInteger minus ds
  rw [wp, hrun] at hint
  obtain rfl : s = [] := by
    rw [hint.2.2.1, ← List.append_nil ds, splitInt_append hds hend.noDigit]
  refine stopsAt_bind ?_ fun n' s hrun => ?_
  · exact (parseFrac_of_ends hr n).trans (by rw [parseFrac_of_ends hend n]; rfl)
  · rw [parseFrac_of_ends hend n] at hrun
    cases hrun
    exact (parseExp_of_ends hr n).trans (by rw [parseExp_of_ends hend n]; rfl)

/-- The double of a literal is there. -/
theorem double_of_integer {minus : Bool} {ds : Bytes} {n : ParseNumber} (h : IntRead minus ds n) :
    ∃ d, n.double = .ok d := by
  rw [double, h.exp, h.expFrac]
  exact strtodNormalPrecision_isOk n.d (show (0 : ℤ) ≤ 308 by decide)

end ParseNumber

/-! ## The event of the literal -/

/-- The integers of 64 bits are those that the digits of a literal make room for. -/
theorem inRange_literalValue (minus : Bool) (ds : Bytes) :
    Number.InRange (literalValue minus ds) ↔ digitsFrom 0 ds ≤ max64 minus := by
  cases minus with
  | true =>
    rw [Number.InRange, literalValue, if_pos rfl, max64, if_pos rfl]
    omega
  | false =>
    rw [Number.InRange, literalValue, if_neg Bool.false_ne_true, max64, if_neg Bool.false_ne_true]
    omega

/-- An integer of 64 bits is not too big. -/
theorem integerTooBig_of_le [Platform] {minus : Bool} {ds : Bytes}
    (h : digitsFrom 0 ds ≤ max64 minus) : integerTooBig minus ds = false := by
  rw [integerTooBig, within_of_le h, exceeds]

/-- The scalar of a literal in range delivers the integer that it denotes. -/
theorem integer?_literalScalar {minus : Bool} {ds : Bytes}
    (h : Number.InRange (literalValue minus ds)) :
    (literalScalar minus (literalValue minus ds)).integer? = some (literalValue minus ds) := by
  obtain ⟨hlo, hhi⟩ := h
  unfold literalScalar
  cases minus with
  | true =>
    have hneg : literalValue true ds ≤ 0 := by
      rw [literalValue, if_pos rfl]
      omega
    generalize literalValue true ds = z at hlo hhi hneg ⊢
    rw [if_pos rfl]
    by_cases h31 : -2 ^ 31 ≤ z
    · rw [if_pos h31, Scalar.integer?, BitVec.toInt_ofInt,
        Int.bmod_eq_of_le (by omega) (by omega)]
    · rw [if_neg h31, Scalar.integer?, BitVec.toInt_ofInt,
        Int.bmod_eq_of_le (by omega) (by omega)]
  | false =>
    have hpos : 0 ≤ literalValue false ds := by
      rw [literalValue, if_neg Bool.false_ne_true]
      exact Int.natCast_nonneg _
    generalize literalValue false ds = z at hlo hhi hpos ⊢
    rw [if_neg Bool.false_ne_true]
    by_cases h32 : z < 2 ^ 32
    · rw [if_pos h32, Scalar.integer?, BitVec.toNat_ofInt]
      congr 1
      omega
    · rw [if_neg h32, Scalar.integer?, BitVec.toNat_ofInt]
      congr 1
      omega

namespace JsonReader

variable [Platform]

/-- The event of a literal in range. -/
theorem numberEvent_of_inRange {minus : Bool} {ds : Bytes} {n : ParseNumber}
    (h : IntRead minus ds n) (hrange : Number.InRange (literalValue minus ds)) :
    numberEvent n = .ok (literalScalar minus (literalValue minus ds)) := by
  have hmax := (inRange_literalValue minus ds).mp hrange
  obtain ⟨hvalue, -⟩ := h.significand hmax
  rw [numberEvent, h.useDouble, decide_eq_false (not_lt.mpr hmax), if_neg Bool.false_ne_true,
    h.minus]
  rw [h.use64bit] at hvalue ⊢
  unfold literalScalar literalValue
  cases minus with
  | true =>
    rw [max32, if_pos rfl] at hvalue ⊢
    by_cases h32 : 2 ^ 31 < digitsFrom 0 ds
    · have hlow : ¬ -2 ^ 31 ≤ -(digitsFrom 0 ds : ℤ) := by omega
      simp only [h32, decide_true, if_true] at hvalue
      simp only [h32, hlow, hvalue, decide_true, if_true, if_false]
      rw [BitVec.ofInt_neg, BitVec.ofInt_natCast]
    · have hlow : -2 ^ 31 ≤ -(digitsFrom 0 ds : ℤ) := by omega
      simp only [h32, decide_false, Bool.false_eq_true, if_false] at hvalue
      simp only [h32, hlow, hvalue, decide_false, Bool.false_eq_true, if_true, if_false]
      rw [BitVec.ofInt_neg, BitVec.ofInt_natCast]
  | false =>
    rw [max32, if_neg Bool.false_ne_true] at hvalue ⊢
    by_cases h32 : 2 ^ 32 - 1 < digitsFrom 0 ds
    · have hhigh : ¬ (digitsFrom 0 ds : ℤ) < 2 ^ 32 := by omega
      simp only [h32, decide_true, if_true] at hvalue
      simp only [h32, hhigh, hvalue, decide_true, Bool.false_eq_true, if_true, if_false]
      rw [BitVec.ofInt_natCast]
    · have hhigh : (digitsFrom 0 ds : ℤ) < 2 ^ 32 := by omega
      simp only [h32, decide_false, Bool.false_eq_true, if_false] at hvalue
      simp only [h32, hhigh, hvalue, decide_false, Bool.false_eq_true, if_true, if_false]
      rw [BitVec.ofInt_natCast]

/-- The event of a literal out of range. -/
theorem numberEvent_of_not_inRange {minus : Bool} {ds : Bytes} {n : ParseNumber}
    (h : IntRead minus ds n) (hrange : ¬ Number.InRange (literalValue minus ds)) :
    ∃ d, numberEvent n = .ok (.double d) := by
  rw [inRange_literalValue, not_le] at hrange
  obtain ⟨d, hd⟩ := double_of_integer h
  rw [numberEvent, h.useDouble, decide_eq_true hrange, if_pos rfl, hd]
  exact ⟨_, rfl⟩

/-- A literal is delivered by the event of its number, or not at all when it is too big. -/
theorem parseNumber_literal {minus : Bool} {ds r : Bytes} (hds : IntDigits ds) (hr : EndsNumber r)
    {s : ReaderState JsonReader} (hs : s.is.rest = literal minus ds ++ r) :
    (∃ n sc, IntRead minus ds n ∧ numberEvent n = .ok sc ∧
        ∃ s', parseNumber s = .ok () s' ∧ s'.is.rest = r ∧
          s'.events = s.events ++ [.scalar sc]) ∨
      (integerTooBig minus ds = true ∧ (reached (parseNumber s)).events = s.events) := by
  have hparse := wp_parse_literal minus hds hr
  rw [← hs, wp] at hparse
  cases hrun : ParseNumber.parse s.is.rest with
  | ok n r' =>
    rw [hrun] at hparse
    obtain ⟨-, rfl, hn⟩ := hparse
    obtain ⟨sc, hsc⟩ : ∃ sc, numberEvent n = .ok sc := by
      by_cases hrange : Number.InRange (literalValue minus ds)
      · exact ⟨_, numberEvent_of_inRange hn hrange⟩
      · obtain ⟨d, hd⟩ := numberEvent_of_not_inRange hn hrange
        exact ⟨_, hd⟩
    have hcall : parseNumber s =
        (call (.scalar sc) : ReadM Unit)
          { s with is := s.is.advance (s.is.rest.length - r'.length) } := by
      rw [parseNumber, bind_of_ok (onText_of_ok hrun), hsc]
    refine .inl ⟨n, sc, hn, hsc, _, hcall, ?_, ?_⟩
    · exact s.is.rest_advance_sub hs
    · simp [ReaderState.events]
  | error f r' =>
    rw [hrun] at hparse
    refine .inr ⟨hparse.1, ?_⟩
    rw [parseNumber, bind_of_error (onText_of_error hrun)]
    rfl

end JsonReader

/-! ## The value of the literal -/

/-- A document that is given one scalar holds its value. -/
theorem Document.deliver_leaf [Platform] {sc : Scalar} {v : Value} (h : sc.build = .ok v)
    (d : Document) :
    deliver [.scalar sc] (Handler.startDocument d) =
      .ok { d with value := v, stack := [[]] } := by
  refine (deliver_startDocument (.leaf sc) d).trans ?_
  rw [EventTree.build, h]
  rfl

/-- An integer literal of any length is delivered by one event, which is that of the first type with
room for the integer, and else never as an integer. The value that a document builds from it tells
the types that have room for it. -/
theorem parseNumber_integer [Platform] (minus : Bool) {ds r : Bytes} (hds : IntDigits ds)
    (hr : EndsNumber r) {s : ReaderState JsonReader} (hs : s.is.rest = literal minus ds ++ r)
    (d : Document) :
    ∃ es, (reached (JsonReader.parseNumber s)).events = s.events ++ es ∧
      (Number.InRange (literalValue minus ds) →
        (∃ s', JsonReader.parseNumber s = .ok () s' ∧ s'.is.rest = r) ∧
          es = [.scalar (literalScalar minus (literalValue minus ds))] ∧
          (literalScalar minus (literalValue minus ds)).integer? = some (literalValue minus ds)) ∧
      (¬ Number.InRange (literalValue minus ds) → ∀ e ∈ es, e.integer? = none) ∧
      (es ≠ [] → ∃ d', deliver es (Handler.startDocument d) = .ok d' ∧
        d'.value.AnswersInteger (literalValue minus ds)) := by
  rcases JsonReader.parseNumber_literal hds hr hs with ⟨n, sc, hn, hsc, s', hrun, hrest, hevents⟩ |
    ⟨hbig, hevents⟩
  · refine ⟨[.scalar sc], by rw [hrun]; exact hevents, fun hrange => ?_, fun hrange => ?_,
      fun _ => ?_⟩
    · rw [JsonReader.numberEvent_of_inRange hn hrange] at hsc
      rw [← Except.ok.inj hsc]
      exact ⟨⟨s', hrun, hrest⟩, rfl, integer?_literalScalar hrange⟩
    · obtain ⟨dbl, hdbl⟩ := JsonReader.numberEvent_of_not_inRange hn hrange
      rw [hdbl] at hsc
      rw [← Except.ok.inj hsc]
      intro e he
      rw [List.mem_singleton.mp he]
      rfl
    · by_cases hrange : Number.InRange (literalValue minus ds)
      · rw [JsonReader.numberEvent_of_inRange hn hrange] at hsc
        rw [← Except.ok.inj hsc]
        exact ⟨_, Document.deliver_leaf (Scalar.build_of_integer (integer?_literalScalar hrange)) d,
          Value.answersInteger_ofInteger hrange⟩
      · obtain ⟨dbl, hdbl⟩ := JsonReader.numberEvent_of_not_inRange hn hrange
        rw [hdbl] at hsc
        rw [← Except.ok.inj hsc]
        exact ⟨_, Document.deliver_leaf rfl d, Value.answersInteger_ofDouble dbl hrange⟩
  · refine ⟨[], by rw [hevents, List.append_nil], fun hrange => ?_, nofun, fun h => absurd rfl h⟩
    rw [integerTooBig_of_le ((inRange_literalValue minus ds).mp hrange)] at hbig
    exact Bool.noConfusion hbig

/-- The least integer of 64 bits, in an array. -/
theorem parseNumber_integer_min :
    ∃ s', @JsonReader.parseNumber Platform.blank
        (JsonReader.new (.readString (ascii "-9223372036854775808,1"))) = .ok () s' ∧
      s'.is.rest = ascii ",1" :=
  let _ := Platform.blank
  have hdigits : IntDigits (ascii "9223372036854775808") :=
    .inr ⟨0x39, ascii "223372036854775808", by decide +kernel⟩
  have hends : EndsNumber (ascii ",1") := by
    rintro _ ⟨⟩
    decide
  let s := JsonReader.new (.readString (ascii "-9223372036854775808,1"))
  have hrest : s.is.rest = literal true (ascii "9223372036854775808") ++ ascii ",1" := rfl
  let ⟨_, _, hin, _⟩ := parseNumber_integer true hdigits hends hrest {}
  (hin ((inRange_literalValue _ _).mpr (by decide +kernel))).1

end AnyRpc
