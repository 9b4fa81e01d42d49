import AnyRpc.Internal.Base64Stream
import AnyRpc.Reader.NumberAhead
import AnyRpc.Xml.ShortenString

/-! # The texts of a document and its short form

The texts of the other scalars are the same in both runs. -/

namespace AnyRpc.XmlReader

open Library Reader XmlTag

section

variable {root : XmlTagName} {P : Prop} {k : Context} {inPlace : Bool} {n : ℕ}
  {s s' : ReaderState XmlReader}

section

variable {depth : ℕ}

/-! ## Scalars -/

/-- `ParseBoolean` behind its character. -/
def finishBoolean (c : UInt8) : ReadM Unit := do
  if c = 0x30 then
    call (.scalar .boolFalse)
  else if c = 0x31 then
    call (.scalar .boolTrue)
  else
    anyrpcThrow ErrorCode.termination
      (ascii "Parsing was terminated: expected 0 or 1 found " ++ [c])
  expectTag (.close .boolean)

/-- A boolean without its character. -/
theorem parseBoolean_of_nil (hs : s.is.rest = []) : ∃ f, parseBoolean s = .error f s := by
  simp [parseBoolean, ReadStream.eof, hs]

/-- Its character is taken. -/
theorem parseBoolean_of_cons {c : UInt8} {t : Bytes} (hs : s.is.rest = c :: t) :
    parseBoolean s = finishBoolean c { s with is := s.is.advance 1 } := by
  simp [parseBoolean, finishBoolean, ReadStream.eof, ReadStream.peek, hs]

/-- A boolean does not begin with a tag. -/
theorem refuses_parseBoolean : Refuses parseBoolean := by
  rintro s ⟨-, t, hrest⟩
  have hsplit : s.is.rest = 0x3c :: (ascii "/value>" ++ t) := hrest
  rw [parseBoolean_of_cons hsplit]
  exact ⟨_, _, rfl⟩

/-- Both runs read the same boolean. -/
theorem mirrors_parseBoolean
    (h : Linked root P (.text (.body (depth + 2) .other)) false n s s') :
    Mirrors (¬ P) (fun _ s _ s' => Inside root P (depth + 1) n s s') (parseBoolean s)
      (parseBoolean s') := by
  cases n with
  | zero => exact absurd h.left (Nat.not_lt_zero _)
  | succ n =>
    cases hs : s.is.rest with
    | nil =>
      obtain ⟨f, hrun⟩ := parseBoolean_of_nil hs
      rw [hrun]
      exact mirrors_error _ _ _
    | cons c t =>
      rw [parseBoolean_of_cons hs]
      by_cases hc : c = 0x30 ∨ c = 0x31
      · obtain ⟨e, hrun⟩ : ∃ e, finishBoolean c = (do
            Reader.call e
            expectTag (.close .boolean)) := by
          rcases hc with rfl | rfl
          · exact ⟨.scalar .boolFalse, rfl⟩
          · exact ⟨.scalar .boolTrue, rfl⟩
        have hlt : c ≠ 0x3c := by rcases hc with rfl | rfl <;> decide
        have hamp : c ≠ 0x26 := by rcases hc with rfl | rfl <;> decide
        obtain ⟨t', hs', h₁⟩ := h.getChar hs hlt
        rw [Lex.step, if_neg hlt, if_neg fun h => hamp h.1] at h₁
        rw [parseBoolean_of_cons hs', hrun]
        refine (mirrors_call (h₁.mono (Nat.le_succ n)) e).bind ?_
        rintro _ s₂ _ s₂' h₂
        exact mirrors_close h₂ .boolean
      · rw [not_or] at hc
        have hrun (t : ReaderState XmlReader) : ∃ f, finishBoolean c t = .error f t := by
          simp [finishBoolean, hc]
        obtain ⟨f, hrun⟩ := hrun { s with is := s.is.advance 1 }
        rw [hrun]
        exact mirrors_error _ _ _

/-- Behind its characters a number takes one end tag and makes one call, or it throws. -/
theorem finishNumber_eq [Platform] (tag : XmlTagName) (x : ParseNumber) :
    (∀ s, ∃ f, finishNumber tag x s = .error f s) ∨ ∃ element ∈ [tag, .double, .i8], ∃ e,
      finishNumber tag x = (do
        expectTag (.close element)
        Reader.call e) := by
  by_cases hdouble : x.useDouble = true
  · cases hd : x.double with
    | error f => exact .inl fun s => ⟨f, by simp [finishNumber, hdouble, hd]⟩
    | ok d =>
      by_cases htag : tag = .double
      · exact .inr ⟨.double, by simp, _, by simp [finishNumber, hdouble, hd, htag]; rfl⟩
      · exact .inl fun s => ⟨_, by simp [finishNumber, hdouble, hd, htag]; rfl⟩
  · by_cases h64 : x.use64bit = true
    · by_cases htag : tag = .double
      · exact .inr ⟨.double, by simp, _, by simp [finishNumber, hdouble, h64, htag]; rfl⟩
      · by_cases htag8 : tag = .i8
        · exact .inr ⟨.i8, by simp, _, by simp [finishNumber, hdouble, h64, htag8]; rfl⟩
        · exact .inl fun s => ⟨_, by simp [finishNumber, hdouble, h64, htag, htag8]; rfl⟩
    · exact .inr ⟨tag, by simp, _, by simp [finishNumber, hdouble, h64]; rfl⟩

/-- The characters of a number begin neither a tag nor a reference. -/
theorem NumberChar.copied {c : UInt8} (h : ParseNumber.NumberChar c) : c ≠ 0x3c ∧ c ≠ 0x26 := by
  constructor
  · rintro rfl
    revert h
    decide
  · rintro rfl
    revert h
    decide

/-- Both runs read the same number. -/
theorem mirrors_number [Platform] (h : Linked root P (.text k) false n s s') :
    Mirrors (¬ P) (fun x s x' s' => x' = x ∧ Linked root P (.text k) false n s s')
      (onText ParseNumber.parse s) (onText ParseNumber.parse s') := by
  obtain ⟨ls, hls, hagree⟩ := h.texts
  cases hrun : ParseNumber.parse s.is.rest with
  | error f r =>
    rw [onText_of_error hrun]
    exact mirrors_error _ _ _
  | ok x r =>
    obtain ⟨a, ha, hnumber, hparse⟩ := ParseNumber.looksAhead_parse s.is.rest x r hrun
    rw [unread, if_neg Bool.false_ne_true, ha] at hls
    obtain ⟨r', ha', hr⟩ := hls.of_append fun c hc => NumberChar.copied (hnumber c hc)
    rw [unread, if_neg Bool.false_ne_true] at ha'
    have hrun' : ParseNumber.parse s'.is.rest = .ok x r' := by rw [ha', hparse r' hr.head?_eq]
    have hleft := h.left
    rw [ha', List.length_append] at hleft
    rw [onText_of_append ha hrun, onText_of_append ha' hrun']
    exact mirrors_ok ⟨rfl, h.advance ha ha' (by omega) hr hagree⟩

/-- A number has an end tag of its own. -/
theorem refuses_parseNumber [Platform] {tag : XmlTagName} (htag : tag ≠ .value) :
    Refuses (parseNumber tag) := by
  rintro s ⟨hskip, t, hrest⟩
  rw [parseNumber]
  cases hrun : ParseNumber.parse s.is.rest with
  | error f r => exact ⟨_, _, bind_of_error (onText_of_error hrun)⟩
  | ok x r =>
    rw [bind_of_ok (onText_of_ok hrun)]
    obtain hthrow | ⟨element, helement, e, hfinish⟩ := finishNumber_eq tag x
    · obtain ⟨f, hrun⟩ := hthrow { s with is := s.is.advance (s.is.rest.length - r.length) }
      exact ⟨f, _, hrun⟩
    · -- A number does not begin with a `<`, so nothing is taken.
      obtain ⟨a, ha, hnumber, -⟩ := ParseNumber.looksAhead_parse s.is.rest x r hrun
      obtain rfl : a = [] := by
        cases a with
        | nil => rfl
        | cons c a =>
          have hsplit : c :: (a ++ r) = 0x3c :: (ascii "/value>" ++ t) := ha.symm.trans hrest
          exact absurd (List.cons.inj hsplit).1 (NumberChar.copied (hnumber c List.mem_cons_self)).1
      have hnone : s.is.rest.length - r.length = 0 := by rw [ha, List.nil_append, Nat.sub_self]
      have hne : XmlTag.close element ≠ .close .value := by
        intro h
        cases h
        simp only [List.mem_cons, List.not_mem_nil, reduceCtorEq, or_false] at helement
        exact htag helement.symm
      rw [hfinish, hnone, ReadStream.advance_zero]
      exact Refuses.expectTag hne _ s ⟨hskip, t, hrest⟩

/-- Both runs read the same number and its end tag. -/
theorem mirrors_parseNumber [Platform]
    (h : Linked root P (.text (.body (depth + 2) .other)) false n s s') (tag : XmlTagName) :
    Mirrors (¬ P) (fun _ s _ s' => Inside root P (depth + 1) n s s') (parseNumber tag s)
      (parseNumber tag s') := by
  refine (mirrors_number h).bind ?_
  rintro _ s₁ x s₁' ⟨rfl, h₁⟩
  obtain hthrow | ⟨element, -, e, hfinish⟩ := finishNumber_eq tag x
  · obtain ⟨f, hrun⟩ := hthrow s₁
    rw [hrun]
    exact mirrors_error _ _ _
  · rw [hfinish]
    refine (mirrors_close h₁ element).bind ?_
    rintro _ s₂ _ s₂' h₂
    exact h₂.call e

/-- A date has an end tag of its own. -/
theorem refuses_parseDateTime [Platform] : Refuses parseDateTime :=
  have hne : XmlTag.close .dateTime ≠ .close .value := by decide
  refuses_parseStringToLocal fun _ => Refuses.expectTag hne _

/-- Both runs read the same date. -/
theorem mirrors_parseDateTime [Platform]
    (h : Linked root P (.text (.body (depth + 2) .other)) false n s s') :
    Mirrors (¬ P) (fun _ s _ s' => Inside root P (depth + 1) n s s') (parseDateTime s)
      (parseDateTime s') := by
  refine (mirrors_parseStringToLocal (Context.hasReferences_other _) h).bind ?_
  rintro ⟨str, w⟩ s₁ _ s₁' ⟨rfl, h₁, -⟩
  refine (mirrors_close h₁ .dateTime).bind ?_
  rintro _ s₂ _ s₂' h₂
  generalize (if str.length = 17 then Document.scanDateTime (cString str) else none) = scanned
  cases scanned with
  | none => exact mirrors_error _ _ _
  | some t => exact h₂.call _

/-! ## Base64 text -/

/-- What the two runs have put so far is the same, and so is the gap behind it. -/
def SameOut (inPlace : Bool) (s s' : ReaderState XmlReader) : Prop :=
  if inPlace then s'.is.region = s.is.region else s'.sub.wsstream = s.sub.wsstream

/-- The same byte is taken. -/
theorem SameOut.getChar (h : SameOut inPlace s s') {c : UInt8} {t t' : Bytes}
    (hs : s.is.rest = c :: t) (hs' : s'.is.rest = c :: t') :
    SameOut inPlace { s with is := s.is.advance 1 } { s' with is := s'.is.advance 1 } := by
  cases inPlace with
  | true =>
    have hregion : s'.is.region = s.is.region := h
    show (s'.is.advance 1).region = (s.is.advance 1).region
    simp only [ReadStream.advance, hregion, hs, hs', List.take_succ_cons, List.take_zero]
  | false => exact h

/-- The same bytes are put. -/
theorem mirrors_osPutBytes (h : Linked root P (.text k) false n s s') (ho : SameOut inPlace s s')
    (str : Bytes) :
    Mirrors (¬ P) (fun _ s _ s' => Linked root P (.text k) false n s s' ∧ SameOut inPlace s s')
      (osPutBytes inPlace str s) (osPutBytes inPlace str s') := by
  cases inPlace with
  | true =>
    have hregion : s'.is.region = s.is.region := ho
    cases hr : s.is.region with
    | none =>
      simp only [osPutBytes, if_true, onStream, ReadStream.putBytes, hr]
      exact mirrors_error _ _ _
    | some r =>
      rw [hr] at hregion
      by_cases hroom : str.length ≤ r.gap.length
      · simp only [osPutBytes, if_true, onStream, ReadStream.putBytes, hr, hregion, hroom]
        exact mirrors_ok ⟨⟨h.skip_left, h.skip_right, h.inSitu, h.copy, h.left, h.texts⟩, rfl⟩
      · simp only [osPutBytes, if_true, onStream, ReadStream.putBytes, hr, hroom, if_false]
        exact mirrors_error _ _ _
  | false =>
    have hws : s'.sub.wsstream = s.sub.wsstream := ho
    refine mirrors_ok ⟨⟨h.skip_left, h.skip_right, h.inSitu, h.copy, h.left, h.texts⟩, ?_⟩
    exact congrArg (· ++ str) hws

/-- The same byte is put where the same bytes are. -/
theorem SameOut.osPut (h : Linked root P (.text k) false n s s') (ho : SameOut inPlace s s')
    (c : UInt8) :
    Mirrors (¬ P) (fun _ s _ s' => Linked root P (.text k) false n s s' ∧ SameOut inPlace s s')
      (XmlReader.osPut inPlace c s) (XmlReader.osPut inPlace c s') := by
  cases inPlace with
  | true =>
    have hregion : s'.is.region = s.is.region := ho
    cases hr : s.is.region with
    | none =>
      simp only [XmlReader.osPut, if_true, putChar, onStream, ReadStream.put, hr]
      exact mirrors_error _ _ _
    | some r =>
      rw [hr] at hregion
      cases hgap : r.gap with
      | nil =>
        simp only [XmlReader.osPut, if_true, putChar, onStream, ReadStream.put, hr, hgap]
        exact mirrors_error _ _ _
      | cons d gap =>
        simp only [XmlReader.osPut, if_true, putChar, onStream, ReadStream.put, hr, hregion, hgap]
        exact mirrors_ok ⟨⟨h.skip_left, h.skip_right, h.inSitu, h.copy, h.left, h.texts⟩, rfl⟩
  | false => exact mirrors_osPutBytes h ho [c]

/-- The part of `Base64Decode` at a pad. -/
def base64DecodePad (inPlace : Bool) : List ℕ → ReadM Bool
  | [data0, data1] => do
    if Internal.base64Value (← Reader.getChar) ≠ Internal.base64Pad then
      return false
    osPut inPlace (UInt8.ofNat ((data0 <<< 2) + (data1 >>> 4)))
    return (← peek) = 0x3c
  | [data0, data1, data2] => do
    osPutBytes inPlace [UInt8.ofNat ((data0 <<< 2) + (data1 >>> 4)),
      UInt8.ofNat (((data1 &&& 0x0f) <<< 4) + (data2 >>> 2))]
    return (← peek) = 0x3c
  | _ => return false

/-- The part of `Base64Decode` behind a character. -/
def base64DecodeChar (inPlace : Bool) (fuel : ℕ) (data : List ℕ) (d : ℕ) : ReadM Bool :=
  if d = Internal.base64Ignore then base64Decode inPlace fuel data
  else if d = Internal.base64Pad then base64DecodePad inPlace data
  else do
    osPutBytes inPlace (Internal.base64Sextet d data).2
    base64Decode inPlace fuel (Internal.base64Sextet d data).1

section

variable {fuel : ℕ} {data : List ℕ}

/-- The text ends without a tag. -/
theorem base64Decode_of_nil (hs : s.is.rest = []) :
    base64Decode inPlace (fuel + 1) data s = .ok false s := by
  simp [base64Decode, ReadStream.eof, hs]

/-- A tag ends the text, where the last quantum is complete. -/
theorem base64Decode_of_lt {t : Bytes} (hs : s.is.rest = 0x3c :: t) :
    base64Decode inPlace (fuel + 1) data s = .ok (decide (data = [])) s := by
  simp [base64Decode, ReadStream.eof, ReadStream.peek, hs]

/-- A character is taken. -/
theorem base64Decode_of_cons {c : UInt8} {t : Bytes} (hs : s.is.rest = c :: t) (hc : c ≠ 0x3c) :
    base64Decode inPlace (fuel + 1) data s =
      base64DecodeChar inPlace fuel data (Internal.base64Value c)
        { s with is := s.is.advance 1 } := by
  simp only [base64Decode, bind_apply, eof_apply, ReadStream.eof, hs, List.isEmpty_cons,
    Bool.false_eq_true, if_false, peek_apply, ReadStream.peek, List.headD_cons, hc,
    getChar_apply]
  rfl

/-- What is related where both runs return: after a decoding that succeeds a tag comes next. -/
def Decoded (root : XmlTagName) (P : Prop) (k : Context) (inPlace : Bool) (n : ℕ) (x : Bool)
    (s : ReaderState XmlReader) (x' : Bool) (s' : ReaderState XmlReader) : Prop :=
  x' = x ∧ (x = true → Linked root P (.text k) false n s s' ∧ SameOut inPlace s s' ∧
    s.is.rest.head? = some 0x3c)

/-- A larger bound on what is left. -/
theorem Decoded.mono {m : ℕ} {x x' : Bool} (h : Decoded root P k inPlace m x s x' s')
    (hmn : m ≤ n) : Decoded root P k inPlace n x s x' s' :=
  ⟨h.1, fun hx => (h.2 hx).imp_left fun h => h.mono hmn⟩

/-- Whether a tag comes next. -/
theorem mirrors_peekLt (h : Linked root P (.text k) false n s s') (ho : SameOut inPlace s s') :
    Mirrors (¬ P) (Decoded root P k inPlace n) ((do return (← peek) = 0x3c : ReadM Bool) s)
      ((do return (← peek) = 0x3c : ReadM Bool) s') := by
  refine mirrors_ok ⟨by rw [h.peek_eq], fun hx => ⟨h, ho, ?_⟩⟩
  have hpeek : s.is.peek = 0x3c := of_decide_eq_true hx
  rw [ReadStream.peek] at hpeek
  cases hs : s.is.rest with
  | nil =>
    rw [hs] at hpeek
    exact absurd hpeek (by decide)
  | cons c t =>
    rw [hs] at hpeek
    exact congrArg some hpeek

/-- Both runs do the same at a pad. -/
theorem mirrors_base64DecodePad (hk : ¬ k.HasReferences)
    (h : Linked root P (.text k) false n s s') (ho : SameOut inPlace s s') (data : List ℕ) :
    Mirrors (¬ P) (Decoded root P k inPlace n) (base64DecodePad inPlace data s)
      (base64DecodePad inPlace data s') := by
  rcases data with _ | ⟨data0, _ | ⟨data1, _ | ⟨data2, _ | ⟨data3, data⟩⟩⟩⟩
  · exact mirrors_ok ⟨rfl, fun h => Bool.noConfusion h⟩
  · exact mirrors_ok ⟨rfl, fun h => Bool.noConfusion h⟩
  · have hrun (t : ReaderState XmlReader) : base64DecodePad inPlace [data0, data1] t =
        (if Internal.base64Value t.is.peek ≠ Internal.base64Pad then return false
        else do
          osPut inPlace (UInt8.ofNat ((data0 <<< 2) + (data1 >>> 4)))
          return (← peek) = 0x3c : ReadM Bool) { t with is := t.is.advance 1 } := rfl
    rw [hrun, hrun, h.peek_eq]
    by_cases hpad : Internal.base64Value s.is.peek = Internal.base64Pad
    · rw [if_neg (not_not_intro hpad)]
      have hpeek : s.is.peek = 0x3d := Internal.base64Value_eq_pad.mp hpad
      rw [ReadStream.peek] at hpeek
      obtain ⟨t, hs⟩ : ∃ t, s.is.rest = 0x3d :: t := by
        cases hs : s.is.rest with
        | nil =>
          rw [hs] at hpeek
          exact absurd hpeek (by decide)
        | cons c t =>
          rw [hs] at hpeek
          exact ⟨t, congrArg (· :: t) hpeek⟩
      obtain ⟨t', hs', h₁⟩ := (h.mono (Nat.le_succ n)).getChar hs (by decide)
      rw [Lex.step, if_neg (by decide), if_neg fun h => hk h.2] at h₁
      refine (SameOut.osPut h₁ (ho.getChar hs hs') _).bind ?_
      rintro _ s₂ _ s₂' ⟨h₂, ho₂⟩
      exact mirrors_peekLt h₂ ho₂
    · rw [if_pos hpad]
      exact mirrors_ok ⟨rfl, fun h => Bool.noConfusion h⟩
  · refine (mirrors_osPutBytes h ho _).bind ?_
    rintro _ s₁ _ s₁' ⟨h₁, ho₁⟩
    exact mirrors_peekLt h₁ ho₁
  · exact mirrors_ok ⟨rfl, fun h => Bool.noConfusion h⟩

/-- Both runs decode the same bytes up to a tag. -/
theorem mirrors_base64Decode (hk : ¬ k.HasReferences) (h : Linked root P (.text k) false n s s')
    (ho : SameOut inPlace s s') (fuel : ℕ) (data : List ℕ) :
    Mirrors (¬ P) (Decoded root P k inPlace n) (base64Decode inPlace fuel data s)
      (base64Decode inPlace n data s') := by
  induction n generalizing s s' fuel data with
  | zero => exact absurd h.left (Nat.not_lt_zero _)
  | succ n ih =>
    cases fuel with
    | zero => exact mirrors_error _ _ _
    | succ fuel =>
      have hhead := h.head?_eq
      cases hs : s.is.rest with
      | nil =>
        rw [hs, List.head?_nil, List.head?_eq_none_iff] at hhead
        rw [base64Decode_of_nil hs, base64Decode_of_nil hhead]
        exact mirrors_ok ⟨rfl, fun h => Bool.noConfusion h⟩
      | cons c t =>
        by_cases hlt : c = 0x3c
        · subst hlt
          rw [hs, List.head?_cons, List.head?_eq_some_iff] at hhead
          obtain ⟨t', hs'⟩ := hhead
          rw [base64Decode_of_lt hs, base64Decode_of_lt hs']
          exact mirrors_ok ⟨rfl, fun _ => ⟨h, ho, by rw [hs, List.head?_cons]⟩⟩
        · obtain ⟨t', hs', h₁⟩ := h.getChar hs hlt
          have ho₁ := ho.getChar hs hs'
          rw [Lex.step, if_neg hlt, if_neg fun h => hk h.2] at h₁
          rw [base64Decode_of_cons hs hlt, base64Decode_of_cons hs' hlt, base64DecodeChar,
            base64DecodeChar]
          by_cases hignore : Internal.base64Value c = Internal.base64Ignore
          · rw [if_pos hignore, if_pos hignore]
            exact (ih h₁ ho₁ _ _).mono fun _ _ _ _ h => h.mono (Nat.le_succ n)
          · by_cases hpad : Internal.base64Value c = Internal.base64Pad
            · rw [if_neg hignore, if_neg hignore, if_pos hpad, if_pos hpad]
              exact (mirrors_base64DecodePad hk h₁ ho₁ data).mono
                fun _ _ _ _ h => h.mono (Nat.le_succ n)
            · rw [if_neg hignore, if_neg hignore, if_neg hpad, if_neg hpad]
              refine (mirrors_osPutBytes h₁ ho₁ _).bind ?_
              rintro _ s₂ _ s₂' ⟨h₂, ho₂⟩
              exact (ih h₂ ho₂ _ _).mono fun _ _ _ _ h => h.mono (Nat.le_succ n)

end

/-- Bytes that are put are the same argument, where a tag comes next. -/
theorem SameOut.strArg_eq (ho : SameOut true s s') (h : Linked root P (.text k) false n s s')
    (hhead : s.is.rest.head? = some 0x3c) :
    s'.is.putEnd.1 = s.is.putEnd.1 ∧ s'.is.strArg s.is.putEnd.1 = s.is.strArg s.is.putEnd.1 := by
  have hregion : s'.is.region = s.is.region := ho
  have hhead' := h.head?_eq.trans hhead
  obtain ⟨t, hs⟩ := List.head?_eq_some_iff.mp hhead
  obtain ⟨t', hs'⟩ := List.head?_eq_some_iff.mp hhead'
  refine ⟨by rw [ReadStream.putEnd, ReadStream.putEnd, hregion], ?_⟩
  rw [ReadStream.strArg, ReadStream.strArg, ReadStream.memory, ReadStream.memory, hregion, h.copy,
    ReadStream.putEnd, hs, hs']
  cases hr : s.is.region with
  | none => rfl
  | some r => cases hgap : r.gap <;> simp [hgap]

/-- `ParseBase64` behind the text. -/
def finishBase64 (decodeResult : Bool) (str : StrArg) : ReadM Unit := do
  if !decodeResult then
    anyrpcThrow ErrorCode.base64Invalid (ascii "Error during base64 decode")
  expectTag (.close .base64)
  Reader.call (.scalar (.binary str))

/-- Base64 text that is decoded in place. -/
theorem parseBase64_of_inSitu (hinSitu : s.is.inSitu = true) :
    parseBase64 s = (do
      let decodeResult ← base64Decode true (s.is.rest.length + 1) []
      let t ← get
      let length ← putEnd
      finishBase64 decodeResult (t.is.strArg length)) { s with is := s.is.putBegin } := by
  simp [parseBase64, finishBase64, hinSitu, putBegin, ReadStream.putBegin]

/-- Base64 text that is decoded into a stream of its own. -/
theorem parseBase64_of_not_inSitu (hinSitu : s.is.inSitu = false) :
    parseBase64 s = (do
      let decodeResult ← base64Decode false (s.is.rest.length + 1) []
      let t ← get
      finishBase64 decodeResult { bytes := t.sub.wsstream, copy := t.is.copy })
        { s with sub := { s.sub with wsstream := [] } } := by
  simp [parseBase64, finishBase64, hinSitu]

/-- Base64 text has an end tag of its own. -/
theorem refuses_finishBase64 (x : Bool) (str : StrArg) : Refuses (finishBase64 x str) := by
  cases x with
  | false => exact refuses_throw _
  | true =>
    have hne : XmlTag.close .base64 ≠ .close .value := by decide
    exact Refuses.expectTag hne _

/-- So an empty one is not ended by the end of a value. -/
theorem refuses_parseBase64 : Refuses parseBase64 := by
  rintro s ⟨hskip, t, hrest⟩
  have hsplit : s.is.rest = 0x3c :: (ascii "/value>" ++ t) := hrest
  cases hinSitu : s.is.inSitu with
  | true =>
    let s₀ : ReaderState XmlReader := { s with is := s.is.putBegin }
    have hs₀ : s₀.is.rest = 0x3c :: (ascii "/value>" ++ t) := hrest
    rw [parseBase64_of_inSitu hinSitu, bind_of_ok (base64Decode_of_lt hs₀)]
    exact refuses_finishBase64 true _ { s₀ with is := s₀.is.putEnd.2 } ⟨hskip, t, hrest⟩
  | false =>
    let s₀ : ReaderState XmlReader := { s with sub := { s.sub with wsstream := [] } }
    have hs₀ : s₀.is.rest = 0x3c :: (ascii "/value>" ++ t) := hrest
    rw [parseBase64_of_not_inSitu hinSitu, bind_of_ok (base64Decode_of_lt hs₀)]
    exact refuses_finishBase64 true _ s₀ ⟨hskip, t, hrest⟩

/-- Behind the text both runs do the same. -/
theorem mirrors_finishBase64 {depth : ℕ} {x : Bool} {str str' : StrArg}
    (h : x = true → Linked root P (.text (.body (depth + 2) .base64)) false n s s' ∧ str' = str) :
    Mirrors (¬ P) (fun _ s _ s' => Inside root P (depth + 1) n s s') (finishBase64 x str s)
      (finishBase64 x str' s') := by
  cases x with
  | false => exact mirrors_error _ _ _
  | true =>
    obtain ⟨h₁, rfl⟩ := h rfl
    refine (mirrors_close h₁ .base64).bind ?_
    rintro _ s₂ _ s₂' h₂
    exact h₂.call _

/-- Both runs read the same binary data. -/
theorem mirrors_parseBase64 {depth : ℕ}
    (h : Linked root P (.text (.body (depth + 2) .base64)) false n s s') :
    Mirrors (¬ P) (fun _ s _ s' => Inside root P (depth + 1) n s s') (parseBase64 s)
      (parseBase64 s') := by
  have hk : ¬ (Context.body (depth + 2) .base64).HasReferences := fun h => h rfl
  cases hinSitu : s.is.inSitu with
  | true =>
    have hinSitu' : s'.is.inSitu = true := h.inSitu.trans hinSitu
    have h₁ : Linked root P (.text (.body (depth + 2) .base64)) false (s'.is.rest.length + 1)
        { s with is := s.is.putBegin } { s' with is := s'.is.putBegin } :=
      ⟨h.skip_left, h.skip_right, h.inSitu, h.copy, Nat.lt_succ_self _, h.texts⟩
    have ho : SameOut true { s with is := s.is.putBegin } { s' with is := s'.is.putBegin } := rfl
    rw [parseBase64_of_inSitu hinSitu, parseBase64_of_inSitu hinSitu']
    refine (mirrors_base64Decode hk h₁ ho _ _).bind ?_
    rintro _ s₂ x s₂' ⟨rfl, hdecoded⟩
    refine mirrors_finishBase64 fun hx => ?_
    obtain ⟨h₂, ho₂, hhead⟩ := hdecoded hx
    obtain ⟨hlength, hstr⟩ := ho₂.strArg_eq h₂ hhead
    have h₃ := h₂.mono h.left
    exact ⟨⟨h₃.skip_left, h₃.skip_right, h₃.inSitu, h₃.copy, h₃.left, h₃.texts⟩, hlength ▸ hstr⟩
  | false =>
    have hinSitu' : s'.is.inSitu = false := h.inSitu.trans hinSitu
    let s₁ : ReaderState XmlReader := { s with sub := { s.sub with wsstream := [] } }
    let s₁' : ReaderState XmlReader := { s' with sub := { s'.sub with wsstream := [] } }
    have h₁ : Linked root P (.text (.body (depth + 2) .base64)) false (s'.is.rest.length + 1) s₁ s₁' :=
      ⟨h.skip_left, h.skip_right, h.inSitu, h.copy, Nat.lt_succ_self _, h.texts⟩
    have ho : SameOut false s₁ s₁' := rfl
    rw [parseBase64_of_not_inSitu hinSitu, parseBase64_of_not_inSitu hinSitu']
    refine (mirrors_base64Decode hk h₁ ho _ _).bind ?_
    rintro _ s₂ x s₂' ⟨rfl, hdecoded⟩
    refine mirrors_finishBase64 fun hx => ?_
    obtain ⟨h₂, ho₂, -⟩ := hdecoded hx
    have hws : s₂'.sub.wsstream = s₂.sub.wsstream := ho₂
    exact ⟨h₂.mono h.left, by rw [hws, h₂.copy]⟩

end

end

end AnyRpc.XmlReader
