import AnyRpc.Json.Grammar
import AnyRpc.Json.Reader
import AnyRpc.Reader.Calls

/-! # Strings of the JSON reader

A string is decoded character by character. What a character of the grammar does to the reader is to
move its text from what is left to what is written (`scanned`); where no character and no closing
quotation mark is left, the reader throws. -/

namespace AnyRpc.JsonReader

open Library Reader Json

/-- The state of the reader. -/
abbrev State := ReaderState JsonReader

/-! ## Code points -/

/-- The digits of `ParseHex4`, where they are there. -/
theorem parseHexDigits_of_hexFrom {h : Bytes} {v w : ℕ} (hw : hexFrom v h = some w) (r : Bytes) :
    parseHexDigits h.length v (h ++ r) = .ok w r := by
  induction h generalizing v with
  | nil =>
    cases hw
    rfl
  | cons c h ih =>
    obtain ⟨digit, hdigit, hrest⟩ := Option.bind_eq_some_iff.mp hw
    rw [List.length_cons, parseHexDigits, List.cons_append]
    simp only [bind_apply, Text.get_apply, List.headD_cons, List.tail_cons, hdigit]
    exact ih hrest

/-- The digits of `ParseHex4`, or the lack of one of them. -/
theorem parseHexDigits_cases (n v : ℕ) (s : Bytes) :
    (∃ h r w, s = h ++ r ∧ h.length = n ∧ hexFrom v h = some w) ∨
      ∃ f r, parseHexDigits n v s = .error f r ∧ f.IsError := by
  induction n generalizing v s with
  | zero => exact .inl ⟨[], s, v, rfl, rfl, rfl⟩
  | succ n ih =>
    cases hdigit : hexDigitValue? (s.headD 0) with
    | none =>
      have hrun : parseHexDigits (n + 1) v s = (anyrpcThrow ErrorCode.stringUnicodeEscapeInvalid
          (ascii "Incorrect digit after escape in string") : Exec Bytes ℕ) s.tail := by
        rw [parseHexDigits]
        simp only [bind_apply, Text.get_apply, hdigit]
      exact .inr ⟨_, _, hrun, _, rfl, show ErrorCode.stringUnicodeEscapeInvalid ≠ 0 by decide⟩
    | some digit =>
      cases s with
      | nil =>
        have hnone : hexDigitValue? 0 = none := by decide
        exact nomatch hnone.symm.trans hdigit
      | cons c s =>
        rcases ih (v * 16 + digit) s with ⟨h, r, w, rfl, hlen, hw⟩ | ⟨f, r, hrun, hf⟩
        · refine .inl ⟨c :: h, r, w, rfl, congrArg Nat.succ hlen, ?_⟩
          rw [hexFrom, show hexDigitValue? c = some digit from hdigit]
          exact hw
        · refine .inr ⟨f, r, ?_, hf⟩
          rw [parseHexDigits]
          simp only [bind_apply, Text.get_apply, hdigit]
          exact hrun

theorem parseHex4_of_hex4 {h : Bytes} {v : ℕ} (hv : Hex4 h v) (r : Bytes) :
    parseHex4 (h ++ r) = .ok v r := by
  have hrun := parseHexDigits_of_hexFrom hv.2 r
  rw [hv.1] at hrun
  exact hrun

theorem parseHex4_cases (s : Bytes) :
    (∃ h r v, s = h ++ r ∧ Hex4 h v) ∨ ∃ f r, parseHex4 s = .error f r ∧ f.IsError := by
  rcases parseHexDigits_cases 4 0 s with ⟨h, r, v, hs, hlen, hv⟩ | herror
  · exact .inl ⟨h, r, v, hs, hlen, hv⟩
  · exact .inr herror

/-- Both halves of a surrogate pair, put together. -/
theorem surrogates_eq {v w : ℕ} (hw : IsLowSurrogate w) :
    ((v - 0xD800) <<< 10 ||| (w - 0xDC00)) + 0x10000 =
      0x10000 + (v - 0xD800) * 0x400 + (w - 0xDC00) := by
  have hlt : w - 0xDC00 < 2 ^ 10 := by
    have := hw.2
    omega
  rw [← Nat.shiftLeft_add_eq_or_of_lt hlt, Nat.shiftLeft_eq]
  omega

/-- The code point of an escape. -/
theorem parseUnicode_of_codePoint {t : Bytes} {v : ℕ} (h : CodePoint t v) (r : Bytes) :
    parseUnicode (t ++ r) = .ok v r := by
  cases h with
  | single hv hsingle =>
    have hhigh : ¬ (0xD800 ≤ v ∧ v ≤ 0xDBFF) := hsingle
    rw [parseUnicode, bind_of_ok (parseHex4_of_hex4 hv r), if_neg hhigh]
    rfl
  | @pair h l v w hv hhigh hw hlow =>
    have hhigh' : 0xD800 ≤ v ∧ v ≤ 0xDBFF := hhigh
    have hlow' : ¬ (w < 0xDC00 ∨ 0xDFFF < w) := by
      have := hlow
      rw [IsLowSurrogate] at this
      omega
    rw [List.append_assoc, parseUnicode, bind_of_ok (parseHex4_of_hex4 hv _), if_pos hhigh']
    simp [parseHex4_of_hex4 hw r, hlow', surrogates_eq hlow]

theorem throwSurrogate_isError {α : Type} (s : Bytes) :
    ∃ f r, (throwSurrogate : Exec Bytes α) s = .error f r ∧ f.IsError :=
  ⟨_, s, rfl, _, rfl, show ErrorCode.stringUnicodeSurrogateInvalid ≠ 0 by decide⟩

/-- The code point of an escape, or the lack of one. -/
theorem parseUnicode_cases (s : Bytes) :
    (∃ t r v, s = t ++ r ∧ CodePoint t v) ∨
      ∃ f r, parseUnicode s = .error f r ∧ f.IsError := by
  rcases parseHex4_cases s with ⟨h, r, v, rfl, hv⟩ | ⟨f, r, hrun, hf⟩
  · by_cases hhigh : IsHighSurrogate v
    · have hrun : parseUnicode (h ++ r) = (do
          if (← Text.get) ≠ 0x5c then
            throwSurrogate
          if (← Text.get) ≠ 0x75 then
            throwSurrogate
          let codepoint2 ← parseHex4
          if codepoint2 < 0xDC00 ∨ 0xDFFF < codepoint2 then
            throwSurrogate
          return ((v - 0xD800) <<< 10 ||| (codepoint2 - 0xDC00)) + 0x10000) r := by
        have hhigh' : 0xD800 ≤ v ∧ v ≤ 0xDBFF := hhigh
        rw [parseUnicode, bind_of_ok (parseHex4_of_hex4 hv r), if_pos hhigh']
      rw [hrun]
      by_cases hslash : r.head? = some 0x5c
      · obtain ⟨r, rfl⟩ := List.head?_eq_some_iff.mp hslash
        by_cases hu : r.head? = some 0x75
        · obtain ⟨r, rfl⟩ := List.head?_eq_some_iff.mp hu
          rcases parseHex4_cases r with ⟨l, r, w, rfl, hw⟩ | ⟨f, r', hrun', hf⟩
          · by_cases hlow : IsLowSurrogate w
            · refine .inl ⟨h ++ 0x5c :: 0x75 :: l, r, _, ?_, .pair hv hhigh hw hlow⟩
              rw [List.append_assoc]
              rfl
            · have hlow' : w < 0xDC00 ∨ 0xDFFF < w := by
                rw [IsLowSurrogate] at hlow
                omega
              obtain ⟨f, r', hthrow, hf⟩ := throwSurrogate_isError (α := PUnit) r
              refine .inr ⟨f, r', ?_, hf⟩
              simp [parseHex4_of_hex4 hw r, hlow', hthrow]
          · exact .inr ⟨f, r', by simp [hrun'], hf⟩
        · obtain ⟨f, r', hthrow, hf⟩ := throwSurrogate_isError (α := PUnit) r.tail
          refine .inr ⟨f, r', ?_, hf⟩
          have hu' : r.head?.getD 0 ≠ 0x75 := by
            cases r with
            | nil => decide
            | cons c r => exact fun hc => hu (congrArg some hc)
          simp [hu', hthrow]
      · obtain ⟨f, r', hthrow, hf⟩ := throwSurrogate_isError (α := PUnit) r.tail
        refine .inr ⟨f, r', ?_, hf⟩
        have hslash' : r.head?.getD 0 ≠ 0x5c := by
          cases r with
          | nil => decide
          | cons c r => exact fun hc => hslash (congrArg some hc)
        simp [hslash', hthrow]
    · exact .inl ⟨h, r, v, rfl, .single hv hhigh⟩
  · exact .inr ⟨f, r, by rw [parseUnicode, bind_of_error hrun], hf⟩

/-! ## Writing what is decoded -/

/-- The state after bytes are put. -/
def emitted (s : State) (bytes : Bytes) : State :=
  if s.is.inSitu then
    { s with is := { s.is with
      region := s.is.region.map fun r => ⟨r.written ++ bytes, r.gap.drop bytes.length⟩ } }
  else { s with sub := { wsstream := s.sub.wsstream ++ bytes } }

/-- The state after bytes are consumed. -/
def consumed (s : State) (n : ℕ) : State := { s with is := s.is.advance n }

/-- Bytes can be put: to a local stream, or behind the position that is read next. -/
def Room (s : State) (n : ℕ) : Prop :=
  s.is.inSitu = true → ∃ r, s.is.region = some r ∧ n ≤ r.gap.length

section

variable (s : State)

@[simp] theorem emitted_rest (bytes : Bytes) : (emitted s bytes).is.rest = s.is.rest := by
  rw [emitted]
  split_ifs <;> rfl

@[simp] theorem emitted_inSitu (bytes : Bytes) : (emitted s bytes).is.inSitu = s.is.inSitu := by
  rw [emitted]
  split_ifs <;> rfl

@[simp] theorem emitted_copy (bytes : Bytes) : (emitted s bytes).is.copy = s.is.copy := by
  rw [emitted]
  split_ifs <;> rfl

@[simp] theorem emitted_beyond (bytes : Bytes) : (emitted s bytes).is.beyond = s.is.beyond := by
  rw [emitted]
  split_ifs <;> rfl

@[simp] theorem emitted_calls (bytes : Bytes) : (emitted s bytes).calls = s.calls := by
  rw [emitted]
  split_ifs <;> rfl

theorem emitted_nil : emitted s [] = s := by
  obtain ⟨⟨rest, beyond, region, inSitu, copy, tell⟩, calls, ⟨wsstream⟩⟩ := s
  cases inSitu with
  | false => simp [emitted]
  | true => cases region <;> simp [emitted]

/-- Bytes are put one part after the other. -/
theorem emitted_emitted (b b' : Bytes) : emitted (emitted s b) b' = emitted s (b ++ b') := by
  obtain ⟨⟨rest, beyond, region, inSitu, copy, tell⟩, calls, ⟨wsstream⟩⟩ := s
  cases inSitu with
  | false => simp [emitted]
  | true => cases region <;> simp [emitted]

theorem consumed_consumed (m n : ℕ) : consumed (consumed s m) n = consumed s (m + n) := by
  rw [consumed, consumed, ReadStream.advance_advance]
  rfl

/-- What is put takes the place of what was consumed before. -/
theorem consumed_emitted {bytes : Bytes} (h : Room s bytes.length) (n : ℕ) :
    consumed (emitted s bytes) n = emitted (consumed s n) bytes := by
  obtain ⟨⟨rest, beyond, region, inSitu, copy, tell⟩, calls, ⟨wsstream⟩⟩ := s
  cases inSitu with
  | false => simp [emitted, consumed, ReadStream.advance]
  | true =>
    obtain ⟨r, hr, hlen⟩ := h rfl
    cases hr
    simp [emitted, consumed, ReadStream.advance, List.drop_append_of_le_length hlen]

/-- Putting a byte. -/
theorem osPut_eq {c : UInt8} (h : Room s 1) : osPut c s = .ok () (emitted s [c]) := by
  obtain ⟨⟨rest, beyond, region, inSitu, copy, tell⟩, calls, ⟨wsstream⟩⟩ := s
  cases inSitu with
  | false => rfl
  | true =>
    obtain ⟨⟨written, gap⟩, hr, hlen⟩ := h rfl
    cases hr
    cases gap with
    | nil => exact absurd hlen (Nat.not_succ_le_zero 0)
    | cons d gap => rfl

end

variable {s : State}

theorem Room.mono {m n : ℕ} (h : Room s n) (hmn : m ≤ n) : Room s m := fun hmode =>
  let ⟨r, hr, hlen⟩ := h hmode
  ⟨r, hr, hmn.trans hlen⟩

/-- There is room for the bytes that are not put yet. -/
theorem Room.emitted {m n : ℕ} {bytes : Bytes} (h : Room s n) (hn : bytes.length + m ≤ n) :
    Room (emitted s bytes) m := by
  intro hmode
  rw [emitted_inSitu] at hmode
  obtain ⟨r, hr, hlen⟩ := h hmode
  refine ⟨⟨r.written ++ bytes, r.gap.drop bytes.length⟩, ?_, ?_⟩
  · rw [JsonReader.emitted, if_pos hmode, hr]
    rfl
  · rw [List.length_drop]
    omega

/-- Putting bytes one after the other. -/
theorem osPutAll_eq {bytes : Bytes} (h : Room s bytes.length) :
    osPutAll bytes s = .ok () (emitted s bytes) := by
  induction bytes generalizing s with
  | nil =>
    rw [emitted_nil]
    rfl
  | cons c bytes ih =>
    have hone : Room s 1 := h.mono (by simp)
    rw [osPutAll, bind_of_ok (osPut_eq s hone), ih (h.emitted (by simp [Nat.add_comm])),
      emitted_emitted]
    rfl

/-! ## Characters -/

/-- `PutBegin` was called, where that is needed. -/
def Begun (s : State) : Prop := s.is.inSitu = true → ∃ r, s.is.region = some r

/-- The state after a text is consumed and what it denotes is put. -/
def scanned (s : State) (text bytes : Bytes) : State := emitted (consumed s text.length) bytes

/-- What is consumed makes room. -/
theorem Begun.room (h : Begun s) {text r : Bytes} (hrest : s.is.rest = text ++ r) :
    Room (consumed s text.length) text.length := by
  intro hmode
  obtain ⟨region, hr⟩ := h hmode
  refine ⟨⟨region.written, region.gap ++ s.is.rest.take text.length⟩, ?_, ?_⟩
  · rw [consumed, ReadStream.advance, hr]
    rfl
  · rw [hrest, List.take_left]
    simp

theorem scanned_rest {text r : Bytes} (hrest : s.is.rest = text ++ r) (bytes : Bytes) :
    (scanned s text bytes).is.rest = r := by
  rw [scanned, emitted_rest]
  exact s.is.rest_advance_of_append hrest

/-- The region that a string is decoded in. -/
theorem scanned_region (hmode : s.is.inSitu = true) {r : Region} (hr : s.is.region = some r)
    (text bytes : Bytes) :
    (scanned s text bytes).is.region =
      some ⟨r.written ++ bytes,
        (r.gap ++ s.is.rest.take text.length).drop bytes.length⟩ := by
  rw [scanned, emitted, if_pos (show (consumed s text.length).is.inSitu = true from hmode),
    consumed, ReadStream.advance, hr]
  rfl

theorem Begun.scanned (h : Begun s) (text bytes : Bytes) : Begun (scanned s text bytes) := by
  intro hmode
  have hmode' : s.is.inSitu = true := by
    rw [JsonReader.scanned, emitted_inSitu] at hmode
    exact hmode
  obtain ⟨r, hr⟩ := h hmode'
  exact ⟨_, scanned_region hmode' hr text bytes⟩

/-- One text after the other. -/
theorem scanned_scanned (h : Begun s) {t t' r b b' : Bytes} (hrest : s.is.rest = t ++ r)
    (hb : b.length ≤ t.length) :
    scanned (scanned s t b) t' b' = scanned s (t ++ t') (b ++ b') := by
  rw [scanned, scanned, consumed_emitted _ ((h.room hrest).mono hb), emitted_emitted,
    consumed_consumed, scanned, List.length_append]

theorem codePoint_length {t : Bytes} {v : ℕ} (h : CodePoint t v) : 4 ≤ t.length := by
  cases h with
  | single hv _ => exact hv.1.ge
  | pair hv _ _ _ =>
    rw [List.length_append, hv.1]
    exact Nat.le_add_right _ _

/-- No character is longer when it is decoded. -/
theorem char_length {t b : Bytes} (h : Char t b) : b.length ≤ t.length ∧ 0 < t.length := by
  cases h with
  | unescaped _ _ _ => exact ⟨le_rfl, Nat.one_pos⟩
  | escape _ => exact ⟨by simp, Nat.two_pos⟩
  | unicode h =>
    have h₁ := encodeUtf8_length_le
    have h₂ := codePoint_length h
    refine ⟨(h₁ _).trans (h₂.trans ?_), Nat.succ_pos _⟩
    simp only [List.length_cons]
    omega

/-- The table of the escapes. -/
theorem escape_of_mem {e c : UInt8} (h : (e, c) ∈ escapes) : escape e = c ∧ c ≠ 0 := by
  revert e c
  simp only [escapes, List.mem_cons, Prod.mk.injEq, List.not_mem_nil, or_false]
  rintro e c (⟨rfl, rfl⟩ | ⟨rfl, rfl⟩ | ⟨rfl, rfl⟩ | ⟨rfl, rfl⟩ | ⟨rfl, rfl⟩ | ⟨rfl, rfl⟩ |
    ⟨rfl, rfl⟩ | ⟨rfl, rfl⟩) <;> decide

theorem mem_of_escape {e : UInt8} (h : escape e ≠ 0) : (e, escape e) ∈ escapes := by
  unfold escape at h ⊢
  split_ifs at h ⊢ with h₁ h₂ h₃ h₄ h₅ h₆ h₇ h₈
  · rw [h₁]; decide
  · rw [h₂]; decide
  · rw [h₃]; decide
  · rw [h₄]; decide
  · rw [h₅]; decide
  · rw [h₆]; decide
  · rw [h₇]; decide
  · rw [h₈]; decide
  · exact absurd rfl h

/-- A character is moved from what is left to what is written. -/
theorem parseStringToStream_of_char {t b r : Bytes} (h : Char t b) (hbegun : Begun s)
    (hrest : s.is.rest = t ++ r) (fuel : ℕ) :
    parseStringToStream (fuel + 1) s = parseStringToStream fuel (scanned s t b) := by
  have hroom := (hbegun.room hrest).mono (char_length h).1
  have hput := osPutAll_eq hroom
  cases h with
  | @unescaped c hc hquote hslash =>
    have hpeek : s.is.peek = c := by
      rw [ReadStream.peek, hrest]
      rfl
    have hzero : c ≠ 0 := by
      rintro rfl
      exact absurd hc (by decide)
    rw [parseStringToStream, bind_of_ok (peek_apply s), hpeek, if_neg hslash, if_neg hquote,
      if_neg hzero, if_neg (UInt8.not_lt.mpr hc), bind_of_ok (getChar_apply s), hpeek]
    exact bind_of_ok (osPut_eq _ hroom)
  | @escape e c he =>
    have hpeek : s.is.peek = 0x5c := by
      rw [ReadStream.peek, hrest]
      rfl
    have hpeek' : (s.is.advance 1).peek = e := by
      rw [ReadStream.peek, ReadStream.rest_advance, hrest]
      rfl
    obtain ⟨hescape, hzero⟩ := escape_of_mem he
    have hrun : parseEscape s = .ok () (scanned s [0x5c, e] [c]) := by
      rw [parseEscape, bind_of_ok (getChar_apply s), bind_of_ok (getChar_apply _), hpeek', hescape,
        if_pos hzero, ReadStream.advance_advance]
      exact osPut_eq _ hroom
    rw [parseStringToStream, bind_of_ok (peek_apply s), hpeek, if_pos rfl, bind_of_ok hrun]
  | @unicode t v ht =>
    have hpeek : s.is.peek = 0x5c := by
      rw [ReadStream.peek, hrest]
      rfl
    have hpeek' : (s.is.advance 1).peek = 0x75 := by
      rw [ReadStream.peek, ReadStream.rest_advance, hrest]
      rfl
    have hrest' : ((s.is.advance 1).advance 1).rest = t ++ r := by
      rw [ReadStream.advance_advance, ReadStream.rest_advance, hrest]
      rfl
    have hcode : (onText parseUnicode : ReadM ℕ)
        { s with is := (s.is.advance 1).advance 1 } =
          .ok v (consumed s (0x5c :: 0x75 :: t).length) := by
      rw [onText_of_ok (r := r) (by rw [hrest']; exact parseUnicode_of_codePoint ht r), hrest',
        List.length_append, Nat.add_sub_cancel, ReadStream.advance_advance,
        ReadStream.advance_advance, consumed]
      simp only [List.length_cons, Nat.add_comm]
    have hrun : parseEscape s = .ok () (scanned s (0x5c :: 0x75 :: t) (encodeUtf8 v)) := by
      rw [parseEscape, bind_of_ok (getChar_apply s), bind_of_ok (getChar_apply _), hpeek',
        if_neg (by decide), if_pos rfl, bind_of_ok hcode]
      exact hput
    rw [parseStringToStream, bind_of_ok (peek_apply s), hpeek, if_pos rfl, bind_of_ok hrun]

/-- The characters of a string, up to its closing quotation mark. -/
theorem parseStringToStream_of_chars {ts bs r : Bytes} (h : Chars ts bs) (hbegun : Begun s)
    (hrest : s.is.rest = ts ++ 0x22 :: r) {fuel : ℕ} (hfuel : ts.length < fuel) :
    parseStringToStream fuel s = .ok () (scanned s (ts ++ [0x22]) (bs ++ [0])) := by
  induction h generalizing s fuel with
  | nil =>
    obtain ⟨fuel, rfl⟩ := Nat.exists_eq_succ_of_ne_zero (by omega : fuel ≠ 0)
    have hpeek : s.is.peek = 0x22 := by
      rw [ReadStream.peek, hrest]
      rfl
    rw [Nat.succ_eq_add_one, parseStringToStream, bind_of_ok (peek_apply s), hpeek,
      if_neg (by decide), if_pos rfl, bind_of_ok (getChar_apply s)]
    exact osPut_eq _ (hbegun.room (show s.is.rest = [0x22] ++ r from hrest))
  | @cons t b ts bs ht _ ih =>
    obtain ⟨hb, hpos⟩ := char_length ht
    rw [List.length_append] at hfuel
    obtain ⟨fuel, rfl⟩ := Nat.exists_eq_succ_of_ne_zero (by omega : fuel ≠ 0)
    rw [List.append_assoc] at hrest
    rw [Nat.succ_eq_add_one, parseStringToStream_of_char ht hbegun hrest,
      ih (hbegun.scanned t b) (scanned_rest hrest b) (by omega), scanned_scanned hbegun hrest hb,
      List.append_assoc, List.append_assoc]

/-- The fault of a byte that may not stand in a string. -/
theorem throws_escapeInvalid {α : Type} (s : State) : Throws (throwEscapeInvalid : ReadM α) s :=
  throws_anyrpcThrow (by decide) _ s

/-- What is left starts with a character or with a quotation mark, or the reader throws. -/
theorem char_cases (s : State) :
    (∃ t b r, Char t b ∧ s.is.rest = t ++ r) ∨ (∃ r, s.is.rest = 0x22 :: r) ∨
      ∀ fuel, Throws (parseStringToStream (fuel + 1)) s := by
  cases hrest : s.is.rest with
  | nil =>
    refine .inr (.inr fun fuel => ?_)
    have hpeek : s.is.peek = 0 := by
      rw [ReadStream.peek, hrest]
      rfl
    refine throws_bind_of_ok (peek_apply s) rfl ?_
    rw [hpeek, if_neg (by decide), if_neg (by decide), if_pos rfl]
    exact throws_anyrpcThrow (by decide) _ s
  | cons c r =>
    have hpeek : s.is.peek = c := by
      rw [ReadStream.peek, hrest]
      rfl
    by_cases hslash : c = 0x5c
    · subst hslash
      have hthrows (h : Throws parseEscape s) (fuel : ℕ) :
          Throws (parseStringToStream (fuel + 1)) s := by
        refine throws_bind_of_ok (peek_apply s) rfl ?_
        rw [hpeek, if_pos rfl]
        exact h.bind _
      have hpeek' : (s.is.advance 1).peek = r.headD 0 := by
        rw [ReadStream.peek, ReadStream.rest_advance, hrest]
        rfl
      have hrest' : ((s.is.advance 1).advance 1).rest = r.tail := by
        rw [ReadStream.advance_advance, ReadStream.rest_advance, hrest]
        exact List.drop_one
      by_cases hescape : escape (r.headD 0) = 0
      · by_cases hu : r.headD 0 = 0x75
        · obtain ⟨r, rfl⟩ : ∃ r', r = 0x75 :: r' := by
            cases r with
            | nil => exact absurd hu (by decide)
            | cons d r =>
              have hd : d = 0x75 := hu
              exact ⟨r, by rw [hd]⟩
          rcases parseUnicode_cases r with ⟨t, r', v, rfl, ht⟩ | ⟨f, r', hrun, hf⟩
          · exact .inl ⟨0x5c :: 0x75 :: t, _, r', .unicode ht, rfl⟩
          · refine .inr (.inr (hthrows ?_))
            refine throws_bind_of_ok (getChar_apply s) rfl ?_
            refine throws_bind_of_ok (getChar_apply _) rfl ?_
            rw [hpeek', if_neg (not_not.mpr hescape), if_pos hu]
            exact (throws_onText (by rw [hrest']; exact hrun) hf).bind _
        · refine .inr (.inr (hthrows ?_))
          refine throws_bind_of_ok (getChar_apply s) rfl ?_
          refine throws_bind_of_ok (getChar_apply _) rfl ?_
          rw [hpeek', if_neg (not_not.mpr hescape), if_neg hu]
          exact throws_escapeInvalid _
      · cases r with
        | nil => exact absurd hescape (by decide)
        | cons e r => exact .inl ⟨[0x5c, e], _, r, .escape (mem_of_escape hescape), rfl⟩
    · by_cases hquote : c = 0x22
      · exact .inr (.inl ⟨r, by rw [hquote]⟩)
      · by_cases hcontrol : c < 0x20
        · refine .inr (.inr fun fuel => throws_bind_of_ok (peek_apply s) rfl ?_)
          rw [hpeek, if_neg hslash, if_neg hquote]
          by_cases hzero : c = 0
          · rw [if_pos hzero]
            exact throws_anyrpcThrow (by decide) _ s
          · rw [if_neg hzero, if_pos hcontrol]
            exact throws_escapeInvalid s
        · exact .inl ⟨[c], [c], r, .unescaped (UInt8.not_lt.mp hcontrol) hquote hslash, rfl⟩

/-- What is left are the characters of a string with its closing quotation mark, or the reader
throws. -/
theorem parseStringToStream_cases (hbegun : Begun s) {fuel : ℕ} (hfuel : s.is.rest.length < fuel) :
    (∃ ts bs r, Chars ts bs ∧ s.is.rest = ts ++ 0x22 :: r) ∨
      Throws (parseStringToStream fuel) s := by
  induction fuel generalizing s with
  | zero => exact absurd hfuel (Nat.not_lt_zero _)
  | succ fuel ih =>
    rcases char_cases s with ⟨t, b, r, ht, hrest⟩ | ⟨r, hrest⟩ | hthrows
    · have hlt : r.length < fuel := by
        have := (char_length ht).2
        rw [hrest, List.length_append] at hfuel
        omega
      rcases ih (hbegun.scanned t b) (by rw [scanned_rest hrest]; exact hlt) with
        ⟨ts, bs, r', hts, hrest'⟩ | ⟨f, s', hrun, hf, hevents⟩
      · rw [scanned_rest hrest] at hrest'
        refine .inl ⟨t ++ ts, b ++ bs, r', .cons ht hts, ?_⟩
        rw [hrest, hrest', List.append_assoc]
      · refine .inr ⟨f, s', ?_, hf, hevents.trans ?_⟩
        · rw [parseStringToStream_of_char ht hbegun hrest, hrun]
        · simp [ReaderState.events, scanned, consumed]
    · exact .inl ⟨[], [], r, .nil, hrest⟩
    · exact .inr (hthrows fuel)

/-! ## Strings -/

/-- The assertion on the next byte, where it holds. -/
theorem assertPeek_eq {c : UInt8} (h : s.is.peek = c) : assertPeek c s = .ok () s := by
  rw [assertPeek, bind_of_ok (peek_apply s), h]
  simp

theorem assertPeek_throws {c : UInt8} (h : s.is.peek ≠ c) : Throws (assertPeek c) s := by
  refine throws_bind_of_ok (peek_apply s) rfl ?_
  rw [decide_eq_false h, anyrpcAssert_false]
  exact throws_anyrpcThrow (by decide) _ s

/-- Whether the reader hands out copies of the strings that it decodes. -/
def copies (s : State) : Bool := s.is.copy || !s.is.inSitu

/-- A string is delivered as what it denotes, with the terminator behind it. -/
theorem parseStringFor_eq (event : StrArg → Event) {ts bs r : Bytes} (h : Chars ts bs)
    (hrest : s.is.rest = quoted ts ++ r) :
    ∃ s', parseStringFor event s = .ok () s' ∧ s'.is.rest = r ∧
      Step s s' [event { bytes := bs, copy := copies s }] := by
  have hpeek : s.is.peek = 0x22 := by
    rw [ReadStream.peek, hrest]
    rfl
  have hrest' : (s.is.advance 1).rest = ts ++ 0x22 :: r := by
    rw [ReadStream.rest_advance, hrest, quoted]
    simp
  have hfuel : ts.length < (s.is.advance 1).rest.length + 1 := by
    rw [hrest', List.length_append]
    omega
  have happend : ts ++ 0x22 :: r = (ts ++ [0x22]) ++ r := by
    rw [List.append_assoc]
    rfl
  have hend (b : Bytes) {s' : State} (hs' : s'.is.rest = ts ++ 0x22 :: r) :
      (scanned s' (ts ++ [0x22]) b).is.rest = r := scanned_rest (hs'.trans happend) b
  rw [parseStringFor, bind_of_ok (assertPeek_eq hpeek), bind_of_ok (getChar_apply s),
    bind_of_ok (get_apply _)]
  cases hmode : s.is.inSitu with
  | true =>
    rw [if_pos (show (s.is.advance 1).inSitu = true from hmode)]
    let s₂ : State := { s with is := (s.is.advance 1).putBegin }
    have hbegun : Begun s₂ := fun _ => ⟨_, rfl⟩
    obtain ⟨s₃, hs₃⟩ : ∃ s₃, scanned s₂ (ts ++ [0x22]) (bs ++ [0]) = s₃ := ⟨_, rfl⟩
    have hrun : parseStringToStream (s₂.is.rest.length + 1) s₂ = .ok () s₃ := by
      rw [← hs₃]
      exact parseStringToStream_of_chars h hbegun hrest' hfuel
    obtain ⟨gap, hregion⟩ : ∃ gap, s₃.is.region = some ⟨bs ++ [0], gap⟩ := by
      rw [← hs₃]
      exact ⟨_, scanned_region (s := s₂) (r := {}) hmode rfl (ts ++ [0x22]) (bs ++ [0])⟩
    have hlength : s₃.is.putEnd.1 - 1 = bs.length := by
      rw [ReadStream.putEnd, hregion]
      simp
    have hcopy : s₃.is.copy = copies s := by
      rw [← hs₃, copies, hmode, Bool.not_true, Bool.or_false]
      exact emitted_copy _ _
    have harg : s₃.is.strArg bs.length = { bytes := bs, copy := copies s } := by
      rw [← hcopy]
      simp [ReadStream.strArg, ReadStream.memory, hregion]
    refine ⟨{ s₃ with
      is := s₃.is.putEnd.2
      calls := s₃.calls ++ [⟨event (s₃.is.strArg bs.length), s₃.is.putEnd.2.tell⟩] }, ?_, ?_, ?_⟩
    · have hput : (putBegin : ReadM Unit) { s with is := s.is.advance 1 } = .ok () s₂ := rfl
      rw [bind_of_ok hput, bind_of_ok (get_apply _), bind_of_ok hrun, bind_of_ok (get_apply _),
        ← hlength]
      rfl
    · show s₃.is.rest = r
      rw [← hs₃]
      exact hend _ hrest'
    · refine ⟨?_, ?_, ?_, ?_⟩
      · show s₃.is.inSitu = s.is.inSitu
        rw [← hs₃]
        exact emitted_inSitu _ _
      · show s₃.is.copy = s.is.copy
        rw [← hs₃]
        exact emitted_copy _ _
      · show s₃.is.beyond = s.is.beyond
        rw [← hs₃]
        exact emitted_beyond _ _
      · have hcalls : s₃.calls = s.calls := by
          rw [← hs₃]
          exact emitted_calls _ _
        simp [ReaderState.events, hcalls, harg]
  | false =>
    rw [if_neg (show ¬ (s.is.advance 1).inSitu = true by
      rw [ReadStream.inSitu_advance, hmode]; exact Bool.false_ne_true)]
    let s₂ : State := { s with is := s.is.advance 1, sub := { wsstream := [] } }
    have hbegun : Begun s₂ := fun hs₂ => Bool.noConfusion (hmode.symm.trans hs₂)
    obtain ⟨s₃, hs₃⟩ : ∃ s₃, scanned s₂ (ts ++ [0x22]) (bs ++ [0]) = s₃ := ⟨_, rfl⟩
    have hrun : parseStringToStream (s₂.is.rest.length + 1) s₂ = .ok () s₃ := by
      rw [← hs₃]
      exact parseStringToStream_of_chars h hbegun hrest' hfuel
    have hstream : s₃.sub.wsstream = bs ++ [0] := by
      rw [← hs₃, scanned, emitted, if_neg (show ¬ (consumed s₂ _).is.inSitu = true from fun hs₂ =>
        Bool.noConfusion (hmode.symm.trans hs₂))]
      rfl
    have hcopy : copies s = true := by rw [copies, hmode, Bool.not_false, Bool.or_true]
    rw [hcopy]
    refine ⟨{ s₃ with
      calls := s₃.calls ++ [⟨event { bytes := bs }, s₃.is.tell⟩] }, ?_, ?_, ?_⟩
    · rw [bind_of_ok (modify_apply _ _), bind_of_ok (get_apply _), bind_of_ok hrun,
        bind_of_ok (get_apply _)]
      simp [hstream]
    · show s₃.is.rest = r
      rw [← hs₃]
      exact hend _ hrest'
    · refine ⟨?_, ?_, ?_, ?_⟩
      · show s₃.is.inSitu = s.is.inSitu
        rw [← hs₃]
        exact emitted_inSitu _ _
      · show s₃.is.copy = s.is.copy
        rw [← hs₃]
        exact emitted_copy _ _
      · show s₃.is.beyond = s.is.beyond
        rw [← hs₃]
        exact emitted_beyond _ _
      · have hcalls : s₃.calls = s.calls := by
          rw [← hs₃]
          exact emitted_calls _ _
        simp [ReaderState.events, hcalls]

/-- A string is delivered as what it denotes, and can be stored. -/
theorem parseStringFor_of_chars (event : StrArg → Event) {ts bs r : Bytes} (h : Chars ts bs)
    (hrest : s.is.rest = quoted ts ++ r) :
    ∃ arg s', parseStringFor event s = .ok () s' ∧ Step s s' [event arg] ∧ s'.is.rest = r ∧
      arg.bytes = bs ∧ arg.terminated = true := by
  obtain ⟨s', hrun, hr, hstep⟩ := parseStringFor_eq event h hrest
  exact ⟨_, s', hrun, hstep, hr, rfl, by simp [StrArg.terminated]⟩

/-- What is left is a string, or the reader throws. -/
theorem parseStringFor_cases (event : StrArg → Event) (s : State) :
    (∃ ts bs r, Chars ts bs ∧ s.is.rest = quoted ts ++ r) ∨ Throws (parseStringFor event) s := by
  by_cases hpeek : s.is.peek = 0x22
  · obtain ⟨r, hrest⟩ : ∃ r, s.is.rest = 0x22 :: r := by
      cases hrest : s.is.rest with
      | nil =>
        rw [ReadStream.peek, hrest] at hpeek
        exact absurd hpeek (by decide)
      | cons c r =>
        rw [ReadStream.peek, hrest] at hpeek
        exact ⟨r, congrArg (· :: r) hpeek⟩
    have hrest' : (s.is.advance 1).rest = r := by
      rw [ReadStream.rest_advance, hrest]
      rfl
    have hchars {ts bs r' : Bytes} (hts : Chars ts bs) (hr : r = ts ++ 0x22 :: r') :
        ∃ ts bs r, Chars ts bs ∧ s.is.rest = quoted ts ++ r := by
      refine ⟨ts, bs, r', hts, ?_⟩
      rw [hrest, hr, quoted, List.cons_append, List.append_assoc]
      rfl
    cases hmode : s.is.inSitu with
    | true =>
      have hbegun : Begun { s with is := (s.is.advance 1).putBegin } := fun _ => ⟨_, rfl⟩
      rcases parseStringToStream_cases hbegun (Nat.lt_succ_self _) with
        ⟨ts, bs, r', hts, hr⟩ | hthrows
      · exact .inl (hchars hts (hrest'.symm.trans hr))
      · refine .inr (throws_bind_of_ok (assertPeek_eq hpeek) rfl ?_)
        refine throws_bind_of_ok (getChar_apply s) rfl ?_
        refine throws_bind_of_ok (get_apply _) rfl ?_
        rw [if_pos (show (s.is.advance 1).inSitu = true from hmode)]
        refine throws_bind_of_ok (modify_apply _ _) rfl ?_
        exact throws_bind_of_ok (get_apply _) rfl (hthrows.bind _)
    | false =>
      have hbegun : Begun { s with is := s.is.advance 1, sub := { wsstream := [] } } := fun h =>
        Bool.noConfusion (hmode.symm.trans h)
      rcases parseStringToStream_cases hbegun (Nat.lt_succ_self _) with
        ⟨ts, bs, r', hts, hr⟩ | hthrows
      · exact .inl (hchars hts (hrest'.symm.trans hr))
      · refine .inr (throws_bind_of_ok (assertPeek_eq hpeek) rfl ?_)
        refine throws_bind_of_ok (getChar_apply s) rfl ?_
        refine throws_bind_of_ok (get_apply _) rfl ?_
        rw [if_neg (show ¬ (s.is.advance 1).inSitu = true from fun h =>
          Bool.noConfusion (hmode.symm.trans h))]
        refine throws_bind_of_ok (modify_apply _ _) rfl ?_
        exact throws_bind_of_ok (get_apply _) rfl (hthrows.bind _)
  · exact .inr ((assertPeek_throws hpeek).bind _)

end AnyRpc.JsonReader
