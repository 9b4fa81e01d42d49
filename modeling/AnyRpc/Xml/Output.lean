import AnyRpc.Xml.Reader

/-! # Where the reader puts a string

What the reader decodes goes to a local stream, or to the stream itself behind the bytes that are
already taken. For both there is one predicate on the state, with the room that there is in place. -/

namespace AnyRpc.XmlReader

open Library Reader

/-- What is put so far, in place in front of a gap of at least `n` bytes. -/
def Holds (inPlace : Bool) (n : ℕ) (out : Bytes) (s : ReaderState XmlReader) : Prop :=
  if inPlace then ∃ r, s.is.region = some r ∧ r.written = out ∧ n ≤ r.gap.length
  else s.sub.wsstream = out

section

variable {inPlace : Bool} {n : ℕ} {out : Bytes} {s : ReaderState XmlReader}

theorem Holds.mono {m : ℕ} (h : Holds inPlace n out s) (hm : m ≤ n) : Holds inPlace m out s := by
  cases inPlace with
  | true =>
    obtain ⟨r, hregion, hout, hn⟩ := h
    exact ⟨r, hregion, hout, hm.trans hn⟩
  | false => exact h

/-- Bytes that are taken make room for others. -/
theorem Holds.advance {text rest : Bytes} (h : Holds inPlace n out s)
    (hrest : s.is.rest = text ++ rest) :
    Holds inPlace (n + text.length) out { s with is := s.is.advance text.length } := by
  cases inPlace with
  | true =>
    obtain ⟨r, hregion, hout, hn⟩ := h
    refine ⟨{ r with gap := r.gap ++ text }, ?_, hout, ?_⟩
    · simp [ReadStream.advance, hregion, hrest]
    · rw [List.length_append]
      omega
  | false => exact h

/-- A byte that is taken makes room for another one. -/
theorem Holds.take {c : UInt8} {rest : Bytes} (h : Holds inPlace n out s)
    (hrest : s.is.rest = c :: rest) :
    Holds inPlace (n + 1) out { s with is := s.is.advance 1 } :=
  have hrest' : s.is.rest = [c] ++ rest := hrest
  h.advance hrest'

/-- Taking a byte that may be missing. -/
theorem Holds.get (h : Holds inPlace n out s) :
    Holds inPlace n out { s with is := s.is.advance 1 } := by
  cases inPlace with
  | true =>
    obtain ⟨r, hregion, hout, hn⟩ := h
    refine ⟨{ r with gap := r.gap ++ s.is.rest.take 1 }, ?_, hout, ?_⟩
    · simp [ReadStream.advance, hregion]
    · rw [List.length_append]
      exact Nat.le_add_right_of_le hn
  | false => exact h

/-- `Put` of as many bytes as there is room for. -/
theorem osPutBytes_eq (str : Bytes) (h : Holds inPlace n out s) (hstr : str.length ≤ n) :
    ∃ s', osPutBytes inPlace str s = .ok () s' ∧ s'.is.rest = s.is.rest ∧
      Holds inPlace (n - str.length) (out ++ str) s' := by
  cases inPlace with
  | true =>
    obtain ⟨r, hregion, rfl, hn⟩ := h
    have hroom : str.length ≤ r.gap.length := hstr.trans hn
    refine ⟨{ s with is := { s.is with
      region := some { written := r.written ++ str, gap := r.gap.drop str.length } } }, ?_, rfl,
      _, rfl, rfl, ?_⟩
    · simp [osPutBytes, onStream, ReadStream.putBytes, hregion, hroom]
    · rw [List.length_drop]
      omega
  | false =>
    refine ⟨{ s with sub := { s.sub with wsstream := s.sub.wsstream ++ str } }, rfl, rfl, ?_⟩
    exact congrArg (· ++ str) (show s.sub.wsstream = out from h)

/-- `Put` of one byte. -/
theorem osPut_eq_osPutBytes (c : UInt8) (h : Holds inPlace n out s) (hn : 1 ≤ n) :
    osPut inPlace c s = osPutBytes inPlace [c] s := by
  cases inPlace with
  | true =>
    obtain ⟨r, hregion, rfl, hgap⟩ := h
    obtain ⟨g, gap, hg⟩ := List.exists_cons_of_length_pos (hn.trans hgap)
    simp [osPut, osPutBytes, putChar, onStream, ReadStream.put, ReadStream.putBytes, hregion, hg]
  | false => rfl

/-- `Put` of one byte, where there is room. -/
theorem osPut_eq (c : UInt8) (h : Holds inPlace n out s) (hn : 1 ≤ n) :
    ∃ s', osPut inPlace c s = .ok () s' ∧ s'.is.rest = s.is.rest ∧
      Holds inPlace (n - 1) (out ++ [c]) s' := by
  rw [osPut_eq_osPutBytes c h hn]
  exact osPutBytes_eq [c] h hn

/-- `Put` of one byte after the other, where there is room for all of them. -/
theorem osPutAll_eq (str : Bytes) (h : Holds inPlace n out s) (hstr : str.length ≤ n) :
    ∃ s', osPutAll inPlace str s = .ok () s' ∧ s'.is.rest = s.is.rest ∧
      Holds inPlace (n - str.length) (out ++ str) s' := by
  induction str generalizing n out s with
  | nil => exact ⟨s, rfl, rfl, by simpa using h⟩
  | cons c str ih =>
    rw [List.length_cons] at hstr
    obtain ⟨s₁, hput, hrest, hholds⟩ := osPut_eq c h (by omega)
    obtain ⟨s₂, hputs, hrest', hholds'⟩ := ih hholds (by omega)
    refine ⟨s₂, ?_, hrest'.trans hrest, ?_⟩
    · rw [osPutAll, bind_of_ok hput, hputs]
    · rw [List.append_assoc] at hholds'
      exact hholds'.mono (by rw [List.length_cons]; omega)

end

/-! ## The loop over the characters of a string -/

/-- The part of the loop behind an `&`. -/
def parseReference (inPlace : Bool) (fuel : ℕ) : ReadM Bool := do
  match ← onText (readEncoded []) with
  | none => return false
  | some encoded =>
    match decodeReference encoded with
    | .error f => throw f
    | .ok str =>
      osPutAll inPlace str
      parseStringToStream inPlace fuel false

section

variable {inPlace : Bool} {fuel : ℕ} {w : Bool} {c : UInt8} {t : Bytes} {s : ReaderState XmlReader}

theorem parseStringToStream_of_nil (hs : s.is.rest = []) :
    ∃ f, parseStringToStream inPlace (fuel + 1) w s = .error f s := by
  simp [parseStringToStream, ReadStream.eof, hs, throwValueInvalid]

theorem parseStringToStream_of_lt (hs : s.is.rest = 0x3c :: t) :
    parseStringToStream inPlace (fuel + 1) w s = .ok w s := by
  simp [parseStringToStream, ReadStream.eof, ReadStream.peek, hs]

theorem parseStringToStream_of_amp (hs : s.is.rest = 0x26 :: t) :
    parseStringToStream inPlace (fuel + 1) w s =
      parseReference inPlace fuel { s with is := s.is.advance 1 } := by
  have heof : eof s = .ok false s := by simp [ReadStream.eof, hs]
  have hpeek : peek s = .ok 0x26 s := by simp [ReadStream.peek, hs]
  have hget : getChar s = .ok 0x26 { s with is := s.is.advance 1 } := by simp [ReadStream.peek, hs]
  rw [parseStringToStream, bind_of_ok heof, if_neg Bool.false_ne_true, bind_of_ok hpeek,
    if_neg (by decide), bind_of_ok hpeek, if_pos rfl, bind_of_ok hget]
  rfl

theorem parseStringToStream_of_cons (hs : s.is.rest = c :: t) (hlt : c ≠ 0x3c) (hamp : c ≠ 0x26) :
    parseStringToStream inPlace (fuel + 1) w s = (do
      osPut inPlace c
      parseStringToStream inPlace fuel (w && isSpace c)) { s with is := s.is.advance 1 } := by
  simp [parseStringToStream, ReadStream.eof, ReadStream.peek, hs, hlt, hamp]

end

end AnyRpc.XmlReader
