import AnyRpc.Json.Feeding
import AnyRpc.Json.WriteString

/-! # The JSON writer fed by the JSON reader

What the calls of the reader do to a `JsonWriter`, at any depth of nesting. -/

namespace AnyRpc.JsonWriter

open Library Library.Utf8 Handler Json NumberText

/-! ## What the calls throw -/

/-- Text is put without a fault. -/
theorem reported_put (str : Bytes) : FailsWith Fault.Reported (put str) := .of_ok fun _ => ⟨_, _, rfl⟩

/-- What does not fit the buffer is reported. -/
theorem reported_putBuffer (text : Bytes) : FailsWith Fault.Reported (putBuffer text) :=
  .ite (fun _ => reported_put _) fun _ =>
    .ite (fun _ => reported_put _) fun _ => .throw Fault.reported_undefined

/-- A character behind the end is undefined. -/
theorem reported_charAt (str : Bytes) (pos : ℕ) : FailsWith Fault.Reported (charAt str pos) := by
  rw [charAt]
  cases str[pos]? with
  | some c => exact .of_ok fun _ => ⟨_, _, rfl⟩
  | none => exact .throw Fault.reported_undefined

/-- An invalid sequence is reported. -/
theorem reported_throwUtf8 {α : Type} (message : Bytes) :
    FailsWith Fault.Reported (throwUtf8 message : Exec JsonWriter α) :=
  reported_anyrpcThrow (by decide) _

/-- A check of a sequence of UTF-8. -/
theorem reported_check {α : Type} {c : Prop} [Decidable c] {message : Bytes}
    {p : Exec JsonWriter α} (hp : FailsWith Fault.Reported p) :
    FailsWith Fault.Reported (do
      if c then throwUtf8 message
      p) :=
  .ite (fun _ => .bind (reported_throwUtf8 _) fun _ => hp) fun _ => hp

/-- The decoding of a sequence. -/
theorem reported_decodeUtf8 (str : Bytes) (pos : ℕ) :
    FailsWith Fault.Reported (decodeUtf8 str pos) := by
  have hreturn (a : ℕ × ℕ) : FailsWith Fault.Reported (pure a : Exec JsonWriter (ℕ × ℕ)) :=
    .of_ok fun _ => ⟨_, _, rfl⟩
  refine .bind (reported_charAt _ _) fun c => reported_check (.ite (fun _ => ?_) fun _ =>
    .ite (fun _ => ?_) fun _ => .ite (fun _ => ?_) fun _ => reported_throwUtf8 _)
  · refine reported_check (.bind (reported_charAt _ _) fun c2 => reported_check ?_)
    exact reported_check (hreturn _)
  · refine reported_check (.bind (reported_charAt _ _) fun c2 => .bind (reported_charAt _ _) fun c3 =>
      reported_check (reported_check (hreturn _)))
  · refine reported_check (.bind (reported_charAt _ _) fun c2 => .bind (reported_charAt _ _) fun c3 =>
      .bind (reported_charAt _ _) fun c4 => reported_check (reported_check (hreturn _)))

/-- An escape by code point. -/
theorem reported_putUnicode (codepoint : ℕ) : FailsWith Fault.Reported (putUnicode codepoint) := by
  refine .ite (fun _ => reported_put _) fun _ => .bind (reported_anyrpcAssert _ (by decide) _)
    fun _ => .bind (reported_put _) fun _ => .bind (reported_put _) fun _ => reported_put _

/-- One character of a string. -/
theorem reported_putChar (str : Bytes) (i : ℕ) : FailsWith Fault.Reported (putChar str i) := by
  have hreturn (a : ℕ) : FailsWith Fault.Reported (pure a : Exec JsonWriter ℕ) :=
    .of_ok fun _ => ⟨_, _, rfl⟩
  have hget : FailsWith Fault.Reported (get : Exec JsonWriter JsonWriter) :=
    .of_ok fun _ => ⟨_, _, rfl⟩
  refine .bind (reported_charAt _ _) fun c => .ite (fun _ => .bind (reported_put _) fun _ => ?_)
    fun _ => .bind hget fun w => .ite (fun _ => ?_) fun _ => .bind (reported_put _) fun _ => hreturn _
  · exact .ite (fun _ => .bind (reported_put _) fun _ => hreturn _) fun _ => hreturn _
  · exact .bind (reported_decodeUtf8 _ _) fun r => .bind (reported_put _) fun _ =>
      .bind (reported_putUnicode _) fun _ => hreturn _

/-- All of them. -/
theorem reported_putChars (str : Bytes) (fuel i : ℕ) :
    FailsWith Fault.Reported (putChars str fuel i) := by
  have hreturn : FailsWith Fault.Reported (pure () : Exec JsonWriter Unit) :=
    .of_ok fun _ => ⟨_, _, rfl⟩
  induction fuel generalizing i with
  | zero => exact .ite (fun _ => .throw Fault.reported_outOfFuel) fun _ => hreturn
  | succ fuel ih => exact .ite (fun _ => .bind (reported_putChar _ _) fun _ => ih _) fun _ => hreturn

/-- A string. -/
theorem reported_string (str : Bytes) : FailsWith Fault.Reported (string str) :=
  .bind (reported_put _) fun _ => .bind (reported_putChars _ _ _) fun _ => reported_put _

/-- A new line. -/
theorem reported_newLine : FailsWith Fault.Reported newLine :=
  .bind (.of_ok fun _ => ⟨_, _, rfl⟩) fun _ =>
    .ite (fun _ => reported_put _) fun _ => .of_ok fun _ => ⟨_, _, rfl⟩

/-- One level deeper. -/
theorem reported_incLevel : FailsWith Fault.Reported incLevel := .of_ok fun _ => ⟨_, _, rfl⟩

/-- One level back. -/
theorem reported_decLevel : FailsWith Fault.Reported decLevel :=
  .bind (.of_ok fun _ => ⟨_, _, rfl⟩) fun _ =>
    .ite (fun _ => .bind (.of_ok fun _ => ⟨_, _, rfl⟩) fun _ => .bind (.of_ok fun _ => ⟨_, _, rfl⟩)
      fun _ => reported_anyrpcAssert _ (by decide) _) fun _ => .of_ok fun _ => ⟨_, _, rfl⟩

variable [Platform]

/-- A double. -/
theorem reported_double (d : BitVec 64) : FailsWith Fault.Reported (double d) :=
  .bind (.of_ok fun _ => ⟨_, _, rfl⟩) fun _ => reported_putBuffer _

/-- A date. -/
theorem reported_dateTime (dt : ℤ) : FailsWith Fault.Reported (dateTime dt) := by
  rw [dateTime]
  exact reported_putBuffer _

/-- Every scalar. -/
theorem reported_scalar (sc : Scalar) : FailsWith Fault.Reported (scalar sc) := by
  cases sc with
  | dateTime dt => exact reported_dateTime dt
  | string str => exact reported_string str.bytes
  | binary str => exact .bind (reported_put _) fun _ => .bind (reported_put _) fun _ => reported_put _
  | float f => exact reported_double _
  | double d => exact reported_double d
  | _ => exact reported_put _

/-- What a call throws has an error code. -/
theorem reported_handle (e : Event) : FailsWith Fault.Reported (handle e : Exec JsonWriter Unit) := by
  have hopen (c : UInt8) : FailsWith Fault.Reported (openBracket c) :=
    .bind reported_newLine fun _ => .bind (reported_put _) fun _ =>
      .bind reported_incLevel fun _ => reported_newLine
  have hclose (c : UInt8) : FailsWith Fault.Reported (closeBracket c) :=
    .bind reported_decLevel fun _ => .bind reported_newLine fun _ => reported_put _
  have hseparator : FailsWith Fault.Reported separator :=
    .bind (reported_put _) fun _ => reported_newLine
  cases e with
  | scalar sc => exact reported_scalar sc
  | startMap c => exact hopen _
  | key str => exact .bind (reported_string _) fun _ => reported_put _
  | mapSeparator => exact hseparator
  | endMap count => exact hclose _
  | startArray count =>
    cases count with
    | none => exact reported_anyrpcThrow (by decide) _
    | some count => exact hopen _
  | arraySeparator => exact hseparator
  | endArray count => exact hclose _

/-! ## What the calls write -/

/-- A string that the writer writes. -/
def TakesString (w : JsonWriter) (str : Bytes) : Prop := w.encoding = .ascii → WellFormed str

/-- A double whose text fits the buffer. -/
def TakesDouble (w : JsonWriter) (d : BitVec 64) : Prop :=
  (Platform.formatG (if 0 < w.precision then w.precision else 6) d).length ≤ 100

omit [Platform]

/-- The writer `w`, further in its text and some levels deeper. -/
def Deeper (w : JsonWriter) (n : ℕ) (w' : JsonWriter) : Prop :=
  ∃ text, w' = { w with
    os := w.os ++ text
    level := if w.pretty then w.level + n else w.level }

section

variable (w : JsonWriter) {n : ℕ} {w' : JsonWriter}

/-- A writer is no deeper than itself. -/
theorem deeper_zero : Deeper w 0 w := by
  refine ⟨[], ?_⟩
  obtain ⟨os, encoding, pretty, level, precision⟩ := w
  simp

variable {w}

/-- More text. -/
theorem Deeper.wrote (h : Deeper w n w') (text : Bytes) : Deeper w n (w'.wrote text) := by
  obtain ⟨t, rfl⟩ := h
  exact ⟨t ++ text, by simp [JsonWriter.wrote]⟩

/-- Text leaves the depth as it is. -/
theorem leads_put (text : Bytes) : LeadsIff (Deeper w n) True (Deeper w n) (put text) :=
  leadsIff_of_ok fun w' h => ⟨(), _, put_apply text w', h.wrote text⟩

/-- A new line does. -/
theorem leads_newLine : LeadsIff (Deeper w n) True (Deeper w n) newLine := by
  refine leadsIff_of_ok fun w' h => ?_
  rw [newLine, bind_of_ok (get_apply w')]
  by_cases hpretty : w'.pretty = true
  · rw [if_pos hpretty]
    exact ⟨(), _, put_apply _ w', h.wrote _⟩
  · rw [if_neg hpretty]
    exact ⟨(), w', rfl, h⟩

/-- One level deeper. -/
theorem leads_incLevel : LeadsIff (Deeper w n) True (Deeper w (n + 1)) incLevel := by
  refine leadsIff_of_ok fun w' ⟨t, h⟩ => ⟨(), _, rfl, t, ?_⟩
  rw [h]
  cases w.pretty <;> simp [add_assoc]

/-- The level is left again. -/
theorem leads_decLevel (hw : 0 ≤ w.level) :
    LeadsIff (Deeper w (n + 1)) True (Deeper w n) decLevel := by
  refine leadsIff_of_ok fun w' ⟨t, h⟩ => ?_
  subst h
  rw [decLevel, bind_of_ok (get_apply _)]
  cases hpretty : w.pretty with
  | false =>
    rw [if_neg (by simp)]
    exact ⟨(), _, rfl, t, by simp [hpretty]⟩
  | true =>
    have hlevel : 1 ≤ w.level + ((n : ℤ) + 1) := by omega
    have hdown : w.level + ((n : ℤ) + 1) - 1 = w.level + n := by omega
    rw [if_pos (by simp), bind_of_ok (modify_apply _ _), bind_of_ok (get_apply _)]
    exact ⟨(), _, by simp [hlevel]; rfl, t, by simp [hpretty, hdown]⟩

/-- A string is written, or refused with ASCII encoding. -/
theorem leads_string (str : Bytes) :
    LeadsIff (Deeper w n) (w.TakesString str) (Deeper w n) (string str) := by
  intro w' h
  have hencoding : w'.encoding = w.encoding := by
    obtain ⟨t, rfl⟩ := h
    rfl
  by_cases hascii : w.encoding = .ascii
  · rw [wp]
    rcases string_cases wellFormed_nil
      (fun i w'' hw'' hi => puts_ascii hi (hw''.trans (hencoding.trans hascii))) with
      ⟨hwell, t, hrun, -⟩ | ⟨hnot, e, w'', hrun⟩
    · rw [hrun]
      exact ⟨fun _ => hwell, h.wrote _⟩
    · rw [hrun]
      exact fun hall => hnot (hall hascii)
  · obtain ⟨t, hrun, -⟩ := string_of_not_ascii str (hencoding.trans_ne hascii)
    rw [wp, hrun]
    exact ⟨fun hraw => absurd hraw hascii, h.wrote _⟩

/-- Text that goes through the buffer has to fit it. -/
theorem leads_putBuffer (text : Bytes) :
    LeadsIff (Deeper w n) (text.length ≤ 100) (Deeper w n) (putBuffer text) := by
  rw [putBuffer]
  by_cases hlt : text.length < 100
  · rw [if_pos hlt]
    exact (leads_put _).congr (iff_of_true trivial hlt.le)
  · rw [if_neg hlt]
    by_cases heq : text.length = 100
    · rw [if_pos heq]
      exact (leads_put _).congr (iff_of_true trivial heq.le)
    · rw [if_neg heq]
      exact (leadsIff_of_error fun w' _ => ⟨.undefined, w', rfl⟩).congr
        (iff_of_false id (by omega))

variable [Platform]

/-- A double has to fit its buffer. -/
theorem leads_double (d : BitVec 64) :
    LeadsIff (Deeper w n) (w.TakesDouble d) (Deeper w n) (double d) := by
  intro w' h
  have hprecision : w'.precision = w.precision := by
    obtain ⟨t, rfl⟩ := h
    rfl
  rw [double, wp_bind_of_ok (get_apply w'), hprecision]
  exact leads_putBuffer _ w' h

/-- What the calls of the reader do. -/
theorem nests (hw : 0 ≤ w.level) :
    Nests w.TakesString w.TakesDouble (Deeper w) fun n => Deeper w (n + 1) where
  scalar n sc hsc := by
    cases sc with
    | string str => exact leads_string str.bytes
    | double d => exact leads_double d
    | dateTime _ | binary _ | float _ => exact hsc.elim
    | _ => exact leads_put _
  startArray n := leadsIff_of_error fun w' _ => ⟨_, w', rfl⟩
  startMap n :=
    (leads_newLine.seq ((leads_put _).seq (leads_incLevel.seq leads_newLine))).congr (by simp)
  key n str := ((leads_string str.bytes).seq (leads_put _)).congr (by simp)
  mapSeparator n := ((leads_put _).seq leads_newLine).congr (by simp)
  endEmpty n := ((leads_decLevel hw).seq (leads_newLine.seq (leads_put _))).congr (by simp)
  endMap n k := ((leads_decLevel hw).seq (leads_newLine.seq (leads_put _))).congr (by simp)

end

/-- The text of an integer is that of its number, whatever the call. -/
theorem handle_of_integer [Platform] {sc : Scalar} {z : ℤ} (h : sc.integer? = some z) :
    (handle (.scalar sc) : Exec JsonWriter Unit) = put (decimalInt z) := by
  have hnat (k : ℕ) : decimalInt (k : ℤ) = decimal k := by
    rw [decimalInt, if_neg (by omega), Int.natAbs_natCast]
  cases sc with
  | int i | int64 i =>
    cases h
    rfl
  | uint u | uint64 u =>
    cases h
    rw [hnat]
    rfl
  | _ => cases h

/-- The writer does not tell the calls of the reader from those of a traversal. -/
theorem ignores [Platform] : Ignores JsonWriter where
  startMap _ := rfl
  key _ := rfl
  string _ := rfl
  integer minus ds hrange := by
    obtain ⟨T, -, hfits, hscalar⟩ := IntegerType.numberScalar_ofInteger hrange
    rw [handle_of_integer (integer?_literalScalar hrange), hscalar,
      handle_of_integer (IntegerType.integer?_scalar hfits)]

end AnyRpc.JsonWriter
