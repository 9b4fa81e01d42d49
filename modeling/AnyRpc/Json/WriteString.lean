import AnyRpc.Foundation.Decimal
import AnyRpc.Handler.EventTree
import AnyRpc.Json.Complete
import AnyRpc.Json.Writer

/-! # The strings of the JSON writer

With ASCII encoding a string is either well-formed UTF-8, and then its text consists of ASCII and is
read back as the same bytes (`string_ascii`), or it is refused. The position in the string moves
within `DecodeUtf8`; the proofs go by what is left of the string there. Every other encoding writes
every string, and then every call returns (`returnsIff_handle`). -/

namespace AnyRpc.JsonWriter

open Handler Library Library.Utf8

/-! ## Decoding a sequence -/

section

variable {str r : Bytes} {pos : ℕ}

/-- A byte of the string, counted from a position. -/
theorem charAt_eq {c : UInt8} {k : ℕ} (h : (str.drop pos)[k]? = some c) :
    charAt str (pos + k) = pure c := by
  rw [charAt, ← List.getElem?_drop, h]

/-- The code point of a sequence. -/
theorem decodeUtf8_of_multibyte {v : ℕ} {p : Bytes} (h : Multibyte v p)
    (hdrop : str.drop pos = p ++ r) :
    decodeUtf8 str pos = pure (v, pos + (p.length - 1)) := by
  have hlength : str.length - pos = p.length + r.length := by
    rw [← List.length_drop, hdrop, List.length_append]
  have hchar {c : UInt8} (k : ℕ) (hc : (p ++ r)[k]? = some c) : charAt str (pos + k) = pure c :=
    charAt_eq (hdrop ▸ hc)
  have hmask (c : UInt8) := toNat_and c 0x3F 6 rfl
  have hbound {c : UInt8} {n : ℕ} (hc : c.toNat = n) (m : ℕ) (hm8 : m < 256) (hm : m ≤ n) :
      ¬ c < UInt8.ofNat m := by
    rw [UInt8.lt_iff_toNat_lt, hc, UInt8.toNat_ofNat', Nat.mod_eq_of_lt hm8]
    exact Nat.not_lt.mpr hm
  have hbound' {c : UInt8} {n : ℕ} (hc : c.toNat = n) (m : ℕ) (hm8 : m < 256) (hm : n < m) :
      c < UInt8.ofNat m := by
    rw [UInt8.lt_iff_toNat_lt, hc, UInt8.toNat_ofNat', Nat.mod_eq_of_lt hm8]
    exact hm
  have hroom (n : ℕ) (hn : n ≤ p.length) : ¬ str.length - pos < n := by
    rw [hlength]
    omega
  cases h with
  | @two c c2 h hv hc hc2 =>
    have hfirst : charAt str pos = pure c := hchar 0 rfl
    have hcont2 : c2 &&& 0xc0 = 0x80 := (and_mask_iff c2).mpr (by omega)
    have hvalue : (c &&& 0x1F).toNat <<< 6 + (c2 &&& 0x3F).toNat = v := by
      rw [toNat_and c 0x1F 5 rfl, hmask, Nat.shiftLeft_eq]
      omega
    have hlow : ¬ v < 0x80 := Nat.not_lt.mpr h
    have h0 : ¬ c < 0xC0 := hbound hc 0xC0 (by decide) (by omega)
    have h1 : c < 0xE0 := hbound' hc 0xE0 (by decide) (by omega)
    rw [decodeUtf8, hfirst, pure_bind]
    simp only [h0, h1, hroom 2 le_rfl, hchar 1 rfl, hcont2, hvalue, hlow, pure_bind, if_true,
      if_false, ne_eq, not_true_eq_false]
    rfl
  | @three c c2 c3 h hv hc hc2 hc3 =>
    have hfirst : charAt str pos = pure c := hchar 0 rfl
    have hcont2 : c2 &&& 0xc0 = 0x80 := (and_mask_iff c2).mpr (by omega)
    have hcont3 : c3 &&& 0xc0 = 0x80 := (and_mask_iff c3).mpr (by omega)
    have hvalue : (c &&& 0x0F).toNat <<< 12 + (c2 &&& 0x3F).toNat <<< 6 + (c3 &&& 0x3F).toNat = v := by
      rw [toNat_and c 0x0F 4 rfl, hmask, hmask, Nat.shiftLeft_eq, Nat.shiftLeft_eq]
      omega
    have hlow : ¬ v < 0x800 := Nat.not_lt.mpr h
    have h0 : ¬ c < 0xC0 := hbound hc 0xC0 (by decide) (by omega)
    have h1 : ¬ c < 0xE0 := hbound hc 0xE0 (by decide) (by omega)
    have h2 : c < 0xF0 := hbound' hc 0xF0 (by decide) (by omega)
    rw [decodeUtf8, hfirst, pure_bind]
    simp only [h0, h1, h2, hroom 3 le_rfl, hchar 1 rfl, hchar 2 rfl, hcont2, hcont3, hvalue, hlow,
      pure_bind, if_true, if_false, ne_eq, not_true_eq_false, or_false]
    rfl
  | @four c c2 c3 c4 h hv hc hc2 hc3 hc4 =>
    have hfirst : charAt str pos = pure c := hchar 0 rfl
    have hcont2 : c2 &&& 0xc0 = 0x80 := (and_mask_iff c2).mpr (by omega)
    have hcont3 : c3 &&& 0xc0 = 0x80 := (and_mask_iff c3).mpr (by omega)
    have hcont4 : c4 &&& 0xc0 = 0x80 := (and_mask_iff c4).mpr (by omega)
    have hvalue : (c &&& 0x07).toNat <<< 18 + (c2 &&& 0x3F).toNat <<< 12 +
        (c3 &&& 0x3F).toNat <<< 6 + (c4 &&& 0x3F).toNat = v := by
      rw [toNat_and c 0x07 3 rfl, hmask, hmask, hmask, Nat.shiftLeft_eq, Nat.shiftLeft_eq,
        Nat.shiftLeft_eq]
      omega
    have hlow : ¬ v < 0x10000 := Nat.not_lt.mpr h
    have h0 : ¬ c < 0xC0 := hbound hc 0xC0 (by decide) (by omega)
    have h1 : ¬ c < 0xE0 := hbound hc 0xE0 (by decide) (by omega)
    have h2 : ¬ c < 0xF0 := hbound hc 0xF0 (by decide) (by omega)
    have h3 : c < 0xF8 := hbound' hc 0xF8 (by decide) (by omega)
    rw [decodeUtf8, hfirst, pure_bind]
    simp only [h0, h1, h2, h3, hroom 4 le_rfl, hchar 1 rfl, hchar 2 rfl, hchar 3 rfl, hcont2, hcont3,
      hcont4, hvalue, hlow, pure_bind, if_true, if_false, ne_eq, not_true_eq_false, or_false]
    rfl

/-- Where no sequence starts, there is a fault. -/
theorem decodeUtf8_throws {c : UInt8} (hdrop : str.drop pos = c :: r)
    (hnone : ∀ v p r', Multibyte v p → str.drop pos ≠ p ++ r') :
    ∃ message, decodeUtf8 str pos = throwUtf8 message := by
  have hlength : str.length - pos = r.length + 1 := by
    rw [← List.length_drop, hdrop, List.length_cons]
  have hchar {c' : UInt8} (k : ℕ) (hc : (c :: r)[k]? = some c') : charAt str (pos + k) = pure c' :=
    charAt_eq (hdrop ▸ hc)
  have hfirst : charAt str pos = pure c := hchar 0 rfl
  have hmask (c : UInt8) := toNat_and c 0x3F 6 rfl
  rw [decodeUtf8, hfirst, pure_bind, hlength]
  by_cases h0 : c < 0xC0
  · rw [if_pos h0]
    exact ⟨_, rfl⟩
  rw [if_neg h0]
  have hc0 : 0xC0 ≤ c.toNat := UInt8.not_lt.mp h0
  beta_reduce
  by_cases h1 : c < 0xE0
  · rw [if_pos h1]
    have hc1 : c.toNat < 0xE0 := UInt8.lt_iff_toNat_lt.mp h1
    cases r with
    | nil => exact ⟨_, rfl⟩
    | cons c2 r =>
      rw [if_neg (by simp), hchar 1 rfl]
      by_cases hcont : c2 &&& 0xc0 ≠ 0x80
      · simp only [pure_bind, if_pos hcont]
        exact ⟨_, rfl⟩
      by_cases hlow : (c &&& 0x1F).toNat <<< 6 + (c2 &&& 0x3F).toNat < 0x80
      · simp only [pure_bind, if_neg hcont, if_pos hlow]
        exact ⟨_, rfl⟩
      rw [toNat_and c 0x1F 5 rfl, hmask, Nat.shiftLeft_eq] at hlow
      rw [ne_eq, not_not, and_mask_iff] at hcont
      exact absurd hdrop (hnone (c.toNat % 32 * 64 + c2.toNat % 64) [c, c2] r
        (.two (by omega) (by omega) (by omega) (by omega)))
  rw [if_neg h1]
  have hc1 : 0xE0 ≤ c.toNat := UInt8.not_lt.mp h1
  by_cases h2 : c < 0xF0
  · rw [if_pos h2]
    have hc2 : c.toNat < 0xF0 := UInt8.lt_iff_toNat_lt.mp h2
    match r with
    | [] | [_] => exact ⟨_, rfl⟩
    | c2 :: c3 :: r =>
      rw [if_neg (by simp), hchar 1 rfl, hchar 2 rfl]
      by_cases hcont : c2 &&& 0xc0 ≠ 0x80 ∨ c3 &&& 0xc0 ≠ 0x80
      · simp only [pure_bind, if_pos hcont]
        exact ⟨_, rfl⟩
      by_cases hlow : (c &&& 0x0F).toNat <<< 12 + (c2 &&& 0x3F).toNat <<< 6 +
          (c3 &&& 0x3F).toNat < 0x800
      · simp only [pure_bind, if_neg hcont, if_pos hlow]
        exact ⟨_, rfl⟩
      rw [toNat_and c 0x0F 4 rfl, hmask, hmask, Nat.shiftLeft_eq, Nat.shiftLeft_eq] at hlow
      simp only [ne_eq, not_or, not_not, and_mask_iff] at hcont
      exact absurd hdrop (hnone (c.toNat % 16 * 4096 + c2.toNat % 64 * 64 + c3.toNat % 64)
        [c, c2, c3] r (.three (by omega) (by omega) (by omega) (by omega) (by omega)))
  rw [if_neg h2]
  have hc2 : 0xF0 ≤ c.toNat := UInt8.not_lt.mp h2
  by_cases h3 : c < 0xF8
  · rw [if_pos h3]
    have hc3 : c.toNat < 0xF8 := UInt8.lt_iff_toNat_lt.mp h3
    match r with
    | [] | [_] | [_, _] => exact ⟨_, rfl⟩
    | c2 :: c3 :: c4 :: r =>
      rw [if_neg (by simp), hchar 1 rfl, hchar 2 rfl, hchar 3 rfl]
      by_cases hcont : c2 &&& 0xc0 ≠ 0x80 ∨ c3 &&& 0xc0 ≠ 0x80 ∨ c4 &&& 0xc0 ≠ 0x80
      · simp only [pure_bind, if_pos hcont]
        exact ⟨_, rfl⟩
      by_cases hlow : (c &&& 0x07).toNat <<< 18 + (c2 &&& 0x3F).toNat <<< 12 +
          (c3 &&& 0x3F).toNat <<< 6 + (c4 &&& 0x3F).toNat < 0x10000
      · simp only [pure_bind, if_neg hcont, if_pos hlow]
        exact ⟨_, rfl⟩
      rw [toNat_and c 0x07 3 rfl, hmask, hmask, hmask, Nat.shiftLeft_eq, Nat.shiftLeft_eq,
        Nat.shiftLeft_eq] at hlow
      simp only [ne_eq, not_or, not_not, and_mask_iff] at hcont
      exact absurd hdrop (hnone (c.toNat % 8 * 262144 + c2.toNat % 64 * 4096 +
        c3.toNat % 64 * 64 + c4.toNat % 64) [c, c2, c3, c4] r
        (.four (by omega) (by omega) (by omega) (by omega) (by omega) (by omega)))
  rw [if_neg h3]
  exact ⟨_, rfl⟩

end

/-! ## Escapes -/

theorem hexDigit_lt {d : ℕ} (h : d < 16) : hexDigit d < 0x80 := by
  have hall : ∀ d : Fin 16, hexDigit d < 0x80 := by decide +kernel
  exact hall ⟨d, h⟩

/-- Four digits stand for a number that they have room for. -/
theorem hex4_spec {v : ℕ} (h : v < 0x10000) : Json.Hex4 (hex4 v) v := by
  have hmask (n : ℕ) : n &&& 0xF = n % 16 := Nat.and_two_pow_sub_one_eq_mod n 4
  have hdigit (n : ℕ) : hexDigitValue? (hexDigit (n % 16)) = some (n % 16) :=
    hexDigitValue?_hexDigit (Nat.mod_lt _ (by decide))
  refine ⟨rfl, ?_⟩
  simp only [hex4, Json.hexFrom, hmask, hdigit, Option.bind_some, Nat.shiftRight_eq_div_pow,
    Option.some.injEq]
  omega

theorem hex4_ascii (v : ℕ) : ∀ c ∈ hex4 v, c < 0x80 := by
  have hmask (n : ℕ) : hexDigit (n &&& 0xF) < 0x80 :=
    hexDigit_lt (Nat.lt_of_le_of_lt Nat.and_le_right (by decide))
  simp [hex4, hmask]

/-- The text that stands for a code point, behind the first `\u`. -/
def unicodeText (v : ℕ) : Bytes :=
  if v < 0x10000 then hex4 v
  else hex4 (((v - 0x10000) >>> 10) + 0xD800) ++
    0x5c :: 0x75 :: hex4 (((v - 0x10000) &&& 0x3FF) + 0xDC00)

theorem unicodeText_ascii (v : ℕ) : ∀ c ∈ unicodeText v, c < 0x80 := by
  intro c hc
  rw [unicodeText] at hc
  split_ifs at hc
  · exact hex4_ascii _ c hc
  · simp only [List.mem_append, List.mem_cons] at hc
    rcases hc with hc | rfl | rfl | hc
    · exact hex4_ascii _ c hc
    · decide
    · decide
    · exact hex4_ascii _ c hc

/-- A reader finds the code point in it. -/
theorem codePoint_unicodeText {v : ℕ} (h : v.isValidChar) : Json.CodePoint (unicodeText v) v := by
  rw [Nat.isValidChar] at h
  rw [unicodeText]
  split_ifs with hv
  · exact .single (hex4_spec hv) fun hhigh => by rw [Json.IsHighSurrogate] at hhigh; omega
  · have hmask : (v - 0x10000) &&& 0x3FF = (v - 0x10000) % 0x400 :=
      Nat.and_two_pow_sub_one_eq_mod _ 10
    have hshift : (v - 0x10000) >>> 10 = (v - 0x10000) / 0x400 := Nat.shiftRight_eq_div_pow _ 10
    have hpair := Json.CodePoint.pair
      (hex4_spec (v := (v - 0x10000) / 0x400 + 0xD800) (by omega))
      (by rw [Json.IsHighSurrogate]; omega)
      (hex4_spec (v := (v - 0x10000) % 0x400 + 0xDC00) (by omega))
      (by rw [Json.IsLowSurrogate]; omega)
    rw [hmask, hshift]
    convert hpair using 1
    omega

/-- The writer with more of its text. -/
def wrote (w : JsonWriter) (text : Bytes) : JsonWriter := { w with os := w.os ++ text }

theorem put_apply (text : Bytes) (w : JsonWriter) : put text w = .ok () (w.wrote text) := rfl

@[simp] theorem wrote_nil (w : JsonWriter) : w.wrote [] = w := by
  simp [wrote]

@[simp] theorem wrote_wrote (w : JsonWriter) (t t' : Bytes) :
    (w.wrote t).wrote t' = w.wrote (t ++ t') := by
  simp [wrote]

@[simp] theorem wrote_encoding (w : JsonWriter) (t : Bytes) : (w.wrote t).encoding = w.encoding := rfl

/-- A scalar value is written. -/
theorem putUnicode_eq {v : ℕ} (h : v.isValidChar) (w : JsonWriter) :
    putUnicode v w = .ok () (w.wrote (unicodeText v)) := by
  rw [Nat.isValidChar] at h
  rw [putUnicode, unicodeText]
  by_cases hv : v < 0x10000
  · rw [if_pos (by omega), if_pos hv]
    rfl
  · have hrange : (0x010000 ≤ v && v ≤ 0x10FFFF) = true := by
      rw [Bool.and_eq_true, decide_eq_true_eq, decide_eq_true_eq]
      omega
    rw [if_neg (by omega), if_neg hv, hrange, anyrpcAssert_true, pure_bind,
      bind_of_ok (put_apply _ w), bind_of_ok (put_apply _ _), put_apply, wrote_wrote, wrote_wrote]
    rfl

/-- A computation of the writer throws an exception. -/
def Throws {α : Type} (p : Exec JsonWriter α) (w : JsonWriter) : Prop :=
  ∃ e w', p w = .error (.exception e) w'

/-- A number that is not a scalar value is refused. -/
theorem putUnicode_throws {v : ℕ} (h : ¬ v.isValidChar) (w : JsonWriter) :
    Throws (putUnicode v) w := by
  rw [Nat.isValidChar] at h
  have hrange : (0x010000 ≤ v && v ≤ 0x10FFFF) = false := by
    rw [Bool.and_eq_false_iff, decide_eq_false_iff_not, decide_eq_false_iff_not]
    omega
  rw [putUnicode, if_neg (by omega), hrange]
  exact ⟨_, _, rfl⟩

/-! ## The characters of a string -/

/-- The escape of a byte is one of the reader's, or the code point of a control character. -/
theorem escape_cases (c : UInt8) :
    (escape c = 0 ∧ 0x20 ≤ c ∧ c ≠ 0x22 ∧ c ≠ 0x5c) ∨
      (escape c ≠ 0 ∧ escape c ≠ 0x75 ∧ (escape c, c) ∈ Json.escapes ∧ escape c < 0x80 ∧ c < 0x80) ∨
      (escape c = 0x75 ∧ c < 0x20) := by
  have h : ∀ b : BitVec 8, let c := UInt8.ofBitVec b
      (escape c = 0 ∧ 0x20 ≤ c ∧ c ≠ 0x22 ∧ c ≠ 0x5c) ∨
        (escape c ≠ 0 ∧ escape c ≠ 0x75 ∧ (escape c, c) ∈ Json.escapes ∧ escape c < 0x80 ∧
          c < 0x80) ∨
        (escape c = 0x75 ∧ c < 0x20) := by
    decide +kernel
  exact h c.toBitVec

/-- The digits of a control character. -/
theorem codePoint_control {c : UInt8} (h : c < 0x20) :
    Json.CodePoint [0x30, 0x30, hexDigit (c.toNat >>> 4), hexDigit (c.toNat &&& 0xF)] c.toNat ∧
      encodeUtf8 c.toNat = [c] ∧ hexDigit (c.toNat >>> 4) < 0x80 ∧
      hexDigit (c.toNat &&& 0xF) < 0x80 := by
  have hc : c.toNat < 0x20 := UInt8.lt_iff_toNat_lt.mp h
  have hmask : c.toNat &&& 0xF = c.toNat % 16 := Nat.and_two_pow_sub_one_eq_mod _ 4
  have hshift : c.toNat >>> 4 = c.toNat / 16 := Nat.shiftRight_eq_div_pow _ 4
  have hlow : c.toNat % 16 < 16 := Nat.mod_lt _ (by decide)
  have hhigh : c.toNat / 16 < 16 := by omega
  have hzero : hexDigitValue? 0x30 = some 0 := by decide
  rw [hmask, hshift]
  refine ⟨.single ⟨rfl, ?_⟩ ?_, ?_, hexDigit_lt hhigh, hexDigit_lt hlow⟩
  · simp only [Json.hexFrom, hzero, hexDigitValue?_hexDigit hlow, hexDigitValue?_hexDigit hhigh,
      Option.bind_some, Option.some.injEq]
    omega
  · rw [Json.IsHighSurrogate]
    omega
  · rw [encodeUtf8, if_pos (by omega), UInt8.ofNat_toNat]

section

variable (P : Bytes → Prop) (Q : UInt8 → Prop)

/-- What one turn of the loop does, given what is left of the string and the condition `P` on it that
decides whether it is written: the text of a character is written, which consists of bytes in `Q` and
denotes the bytes that are taken, or there is a fault. -/
def Puts (str : Bytes) (i : ℕ) (w : JsonWriter) : Prop :=
  (∃ b r t, str.drop i = b ++ r ∧ b ≠ [] ∧
      putChar str i w = .ok (i + (b.length - 1)) (w.wrote t) ∧ Json.Char t b ∧
      (∀ c ∈ t, Q c) ∧ (P (b ++ r) ↔ P r)) ∨
    (¬ P (str.drop i) ∧ Throws (putChar str i) w)

variable {P Q}

/-- The loop writes the characters of what is left of the string, or there is a fault. -/
theorem putChars_cases {str : Bytes} (hnil : P []) {w : JsonWriter}
    (hputs : ∀ i w', w'.encoding = w.encoding → i < str.length → Puts P Q str i w')
    {fuel i : ℕ} (hfuel : (str.drop i).length ≤ fuel) :
    (P (str.drop i) ∧ ∃ t, putChars str fuel i w = .ok () (w.wrote t) ∧
        Json.Chars t (str.drop i) ∧ ∀ c ∈ t, Q c) ∨
      (¬ P (str.drop i) ∧ Throws (putChars str fuel i) w) := by
  induction fuel generalizing i w with
  | zero =>
    have hdrop : str.drop i = [] := List.length_eq_zero_iff.mp (Nat.le_zero.mp hfuel)
    have hi : ¬ i < str.length := Nat.not_lt.mpr (List.drop_eq_nil_iff.mp hdrop)
    rw [hdrop]
    refine .inl ⟨hnil, [], ?_, .nil, nofun⟩
    rw [putChars, if_neg hi, wrote_nil]
    rfl
  | succ fuel ih =>
    by_cases hi : i < str.length
    swap
    · rw [List.drop_eq_nil_of_le (Nat.not_lt.mp hi)]
      refine .inl ⟨hnil, [], ?_, .nil, nofun⟩
      rw [putChars, if_neg hi, wrote_nil]
      rfl
    have hstep : putChars str (fuel + 1) i = (do
        let pos ← putChar str i
        putChars str fuel (pos + 1)) := by
      rw [putChars, if_pos hi]
    rw [hstep]
    rcases hputs i w rfl hi with ⟨b, r, t, hb, hne, hput, hchar, ht, hP⟩ | ⟨hnot, e, w', hthrows⟩
    · have hlength : 0 < b.length := List.length_pos_iff.mpr hne
      have hnext : str.drop (i + (b.length - 1) + 1) = r := by
        rw [Nat.add_assoc, Nat.sub_add_cancel hlength, ← List.drop_drop, hb, List.drop_left]
      have hfuel' : (str.drop (i + (b.length - 1) + 1)).length ≤ fuel := by
        rw [hnext]
        rw [hb, List.length_append] at hfuel
        omega
      rw [hb, hP]
      rcases ih (w := w.wrote t) hputs hfuel' with ⟨hrest, ts, hrun, hchars, hts⟩ |
        ⟨hnot, e, w', hthrows⟩
      · rw [hnext] at hrest hchars
        refine .inl ⟨hrest, t ++ ts, ?_, .cons hchar hchars, ?_⟩
        · rw [bind_of_ok hput, hrun, wrote_wrote]
        · intro c hc
          rcases List.mem_append.mp hc with hc | hc
          · exact ht c hc
          · exact hts c hc
      · rw [hnext] at hnot
        exact .inr ⟨hnot, e, w', by rw [bind_of_ok hput, hthrows]⟩
    · exact .inr ⟨hnot, e, w', bind_of_error hthrows⟩

/-- A string is written between quotation marks, or there is a fault. -/
theorem string_cases {str : Bytes} (hnil : P []) {w : JsonWriter}
    (hputs : ∀ i w', w'.encoding = w.encoding → i < str.length → Puts P Q str i w') :
    (P str ∧ ∃ t, string str w = .ok () (w.wrote (Json.quoted t)) ∧ Json.Chars t str ∧
        ∀ c ∈ t, Q c) ∨
      (¬ P str ∧ Throws (string str) w) := by
  rcases putChars_cases hnil (w := w.wrote [0x22]) hputs (i := 0) le_rfl with
    ⟨hP, t, hrun, hchars, ht⟩ | ⟨hnot, e, w', hthrows⟩
  · refine .inl ⟨hP, t, ?_, hchars, ht⟩
    rw [List.drop_zero] at hrun
    rw [string, bind_of_ok (put_apply _ w), bind_of_ok hrun, put_apply, wrote_wrote, wrote_wrote]
    rfl
  · exact .inr ⟨hnot, e, w', by
      rw [List.drop_zero] at hthrows
      rw [string, bind_of_ok (put_apply _ w), bind_of_error hthrows]⟩

end

/-- The turn for a character that has an escape. -/
theorem puts_escape {P : Bytes → Prop} {Q : UInt8 → Prop} {str r : Bytes} {i : ℕ} {c : UInt8}
    (hdrop : str.drop i = c :: r) (hescape : escape c ≠ 0) (w : JsonWriter)
    (hQ : ∀ c, c < 0x80 → Q c) (hP : c < 0x80 → (P (c :: r) ↔ P r)) : Puts P Q str i w := by
  have hchar : charAt str i = pure c := charAt_eq (k := 0) (by rw [hdrop]; rfl)
  rcases escape_cases c with ⟨hnone, -⟩ | ⟨-, hu, hmem, he, hc⟩ | ⟨hu, hc⟩
  · exact absurd hnone hescape
  · refine .inl ⟨[c], r, [0x5c, escape c], hdrop, List.cons_ne_nil _ _, ?_, .escape hmem, ?_, hP hc⟩
    · rw [putChar, hchar, pure_bind, if_pos hescape, bind_of_ok (put_apply _ w), if_neg hu]
      rfl
    · intro c' hc'
      refine hQ c' ?_
      rcases List.mem_cons.mp hc' with rfl | hc'
      · decide
      · rw [List.mem_singleton.mp hc']
        exact he
  · obtain ⟨hcode, hencode, hhigh, hlow⟩ := codePoint_control hc
    have hunicode := Json.Char.unicode hcode
    rw [hencode] at hunicode
    refine .inl ⟨[c], r, _, hdrop, List.cons_ne_nil _ _, ?_, hunicode, ?_,
      hP (Nat.lt_trans hc (by decide))⟩
    · rw [putChar, hchar, pure_bind, if_pos hescape, bind_of_ok (put_apply _ w), if_pos hu,
        bind_of_ok (put_apply _ _), wrote_wrote, hu]
      rfl
    · intro c' hc'
      refine hQ c' ?_
      simp only [List.mem_cons, List.not_mem_nil, or_false] at hc'
      rcases hc' with rfl | rfl | rfl | rfl | rfl | rfl
      · decide
      · decide
      · decide
      · decide
      · exact hhigh
      · exact hlow

/-- The turn for a byte that is put as it is. -/
theorem puts_unescaped {P : Bytes → Prop} {Q : UInt8 → Prop} {str r : Bytes} {i : ℕ} {c : UInt8}
    (hdrop : str.drop i = c :: r) (hescape : escape c = 0) (w : JsonWriter)
    (hraw : ¬ (w.encoding = .ascii ∧ 0x80 ≤ c)) (hQ : Q c) (hP : P (c :: r) ↔ P r) :
    Puts P Q str i w := by
  have hchar : charAt str i = pure c := charAt_eq (k := 0) (by rw [hdrop]; rfl)
  rcases escape_cases c with ⟨-, hc, hquote, hslash⟩ | ⟨hsome, -⟩ | ⟨hu, -⟩
  · refine .inl ⟨[c], r, [c], hdrop, List.cons_ne_nil _ _, ?_, .unescaped hc hquote hslash, ?_, hP⟩
    · rw [putChar, hchar, pure_bind, if_neg (not_not.mpr hescape), bind_of_ok (get_apply w),
        if_neg hraw]
      rfl
    · intro c' hc'
      rw [List.mem_singleton.mp hc']
      exact hQ
  · exact absurd hescape hsome
  · rw [hu] at hescape
    exact absurd hescape (by decide)

/-- What is left of a string at a position within it. -/
theorem exists_drop_eq {str : Bytes} {i : ℕ} (hi : i < str.length) :
    ∃ c r, str.drop i = c :: r :=
  ⟨_, _, List.drop_eq_getElem_cons hi⟩

/-- Every other encoding writes every string. -/
theorem string_of_not_ascii (str : Bytes) {w : JsonWriter} (h : w.encoding ≠ .ascii) :
    ∃ t, string str w = .ok () (w.wrote (Json.quoted t)) ∧ Json.Chars t str := by
  have hputs (i : ℕ) (w' : JsonWriter) (hw' : w'.encoding = w.encoding) (hi : i < str.length) :
      Puts (fun _ => True) (fun _ => True) str i w' := by
    obtain ⟨c, r, hdrop⟩ := exists_drop_eq hi
    by_cases hescape : escape c = 0
    · refine puts_unescaped hdrop hescape w' (fun hraw => h ?_) trivial Iff.rfl
      exact hw'.symm.trans hraw.1
    · exact puts_escape hdrop hescape w' (fun _ _ => trivial) fun _ => Iff.rfl
  rcases string_cases trivial hputs with ⟨-, t, hrun, hchars, -⟩ | ⟨hnot, -⟩
  · exact ⟨t, hrun, hchars⟩
  · exact absurd trivial hnot

/-! ## Sequences of several bytes -/

/-- An escape for the sequence of several bytes that starts at a position. -/
def putSequence (str : Bytes) (i : ℕ) : Exec JsonWriter ℕ := do
  let (codepoint, pos) ← decodeUtf8 str i
  put [0x5c, 0x75]
  putUnicode codepoint
  return pos

/-- The sequence is that of a character, or it is refused. -/
theorem putSequence_cases {str r : Bytes} {i : ℕ} {c : UInt8} (hdrop : str.drop i = c :: r)
    (hc : 0x80 ≤ c) (w : JsonWriter) :
    (∃ v p r', Multibyte v p ∧ v.isValidChar ∧ str.drop i = p ++ r' ∧
        putSequence str i w = .ok (i + (p.length - 1)) (w.wrote (0x5c :: 0x75 :: unicodeText v))) ∨
      (¬ WellFormed (str.drop i) ∧ Throws (putSequence str i) w) := by
  have hfirst : WellFormed (str.drop i) → ∃ (ch : Char) (r' : Bytes),
      Multibyte ch.toNat (encode ch.toNat) ∧ str.drop i = encode ch.toNat ++ r' := by
    rw [hdrop]
    exact fun h => h.exists_multibyte hc
  by_cases hsome : ∃ v p r', Multibyte v p ∧ str.drop i = p ++ r'
  · obtain ⟨v, p, r', h, hp⟩ := hsome
    have hdecode := decodeUtf8_of_multibyte h hp
    have hrun : putSequence str i = (do
        put [0x5c, 0x75]
        putUnicode v
        return i + (p.length - 1)) := by
      rw [putSequence, hdecode]
      rfl
    by_cases hv : v.isValidChar
    · refine .inl ⟨v, p, r', h, hv, hp, ?_⟩
      rw [hrun, bind_of_ok (put_apply _ w), bind_of_ok (putUnicode_eq hv _), wrote_wrote]
      rfl
    · refine .inr ⟨fun hwell => ?_, ?_⟩
      · obtain ⟨ch, r'', hch, hr''⟩ := hfirst hwell
        -- Both decode to the same code point, which is that of a character.
        have hsame := hdecode.symm.trans (decodeUtf8_of_multibyte hch hr'')
        have hpair := congrArg (fun p : Exec JsonWriter (ℕ × ℕ) => p w) hsame
        obtain ⟨rfl, -⟩ := Prod.mk.inj (EStateM.Result.ok.inj hpair).1
        exact hv ch.valid
      · obtain ⟨e, w', hthrows⟩ := putUnicode_throws hv (w.wrote [0x5c, 0x75])
        refine ⟨e, w', ?_⟩
        rw [hrun, bind_of_ok (put_apply _ w), bind_of_error hthrows]
  · refine .inr ⟨fun hwell => ?_, ?_⟩
    · obtain ⟨ch, r', hch, hr'⟩ := hfirst hwell
      exact hsome ⟨_, _, r', hch, hr'⟩
    · obtain ⟨message, hdecode⟩ := decodeUtf8_throws hdrop
        fun v p r' h hp => hsome ⟨v, p, r', h, hp⟩
      rw [putSequence, hdecode]
      exact ⟨_, _, rfl⟩

/-- One turn of the loop with ASCII encoding. -/
theorem puts_ascii {str : Bytes} {i : ℕ} (hi : i < str.length) {w : JsonWriter}
    (hascii : w.encoding = .ascii) : Puts WellFormed (· < 0x80) str i w := by
  obtain ⟨c, r, hdrop⟩ := exists_drop_eq hi
  have hwell (hc : c < 0x80) : WellFormed (c :: r) ↔ WellFormed r := by
    obtain ⟨ch, hch⟩ := exists_char_of_lt (UInt8.lt_iff_toNat_lt.mp hc)
    rw [← List.singleton_append, hch]
    exact wellFormed_append ch r
  by_cases hescape : escape c = 0
  swap
  · exact puts_escape hdrop hescape w (fun _ hc => hc) hwell
  by_cases hc : 0x80 ≤ c
  swap
  · have hlt : c < 0x80 := UInt8.not_le.mp hc
    exact puts_unescaped hdrop hescape w (fun h => hc h.2) hlt (hwell hlt)
  have hchar : charAt str i = pure c := charAt_eq (k := 0) (by rw [hdrop]; rfl)
  have hrun : putChar str i w = putSequence str i w := by
    rw [putChar, hchar, pure_bind, if_neg (not_not.mpr hescape), bind_of_ok (get_apply w),
      if_pos ⟨hascii, hc⟩, putSequence]
  rcases putSequence_cases hdrop hc w with ⟨v, p, r', h, hv, hp, hput⟩ | ⟨hnot, e, w', hthrows⟩
  · obtain ⟨ch, rfl⟩ := exists_char hv
    have hunicode := Json.Char.unicode (codePoint_unicodeText hv)
    have hencode : encodeUtf8 ch.toNat = p := by
      rw [encodeUtf8_eq h.bounds.2, ← h.eq_encode]
    rw [hencode] at hunicode
    refine .inl ⟨p, r', _, hp, ?_, hrun.trans hput, hunicode, ?_, ?_⟩
    · rintro rfl
      cases h
    · simpa using unicodeText_ascii ch.toNat
    · rw [h.eq_encode]
      exact wellFormed_append ch r'
  · exact .inr ⟨hnot, e, w', hrun.trans hthrows⟩

/-! ## Reading back -/

variable [Platform]

/-- A string is read as the value of a document, up to what follows it. -/
theorem parse_quoted {ts bs r : Bytes} (h : Json.Chars ts bs) {s : ReaderState JsonReader}
    (hrest : s.is.rest = Json.quoted ts ++ r) :
    ∃ arg s', JsonReader.parse s = .ok () s' ∧ s'.events = s.events ++ [.scalar (.string arg)] ∧
      s'.is.rest = r ∧ arg.bytes = bs ∧ arg.terminated = true := by
  obtain ⟨hskip, hrest'⟩ := JsonReader.skipWhiteSpace_eq (s := s) (w := []) nofun
    (r := Json.quoted ts ++ r) (by rintro _ ⟨⟩; rfl) hrest
  obtain ⟨s₁, hs₁⟩ : ∃ s₁, JsonReader.consumed s ([] : Bytes).length = s₁ := ⟨_, rfl⟩
  have hevents : s₁.events = s.events := by
    rw [← hs₁]
    rfl
  rw [hs₁] at hskip hrest'
  obtain ⟨arg, s', hrun, hstep, hr, hbytes, hterminated⟩ :=
    JsonReader.parseStringFor_of_chars (fun str => .scalar (.string str)) h hrest'
  have heof : (Reader.eof : JsonReader.ReadM Bool) s₁ = .ok false s₁ := by
    rw [Reader.eof, bind_of_ok (get_apply s₁), ReadStream.eof, hrest']
    rfl
  have hpeek : s₁.is.peek = 0x22 := JsonReader.peek_of_rest hrest'
  refine ⟨arg, s', ?_, by rw [hstep.events, hevents], hr, hbytes, hterminated⟩
  rw [JsonReader.parse, bind_of_ok hskip, bind_of_ok heof, if_pos (by decide),
    bind_of_ok (get_apply s₁), JsonReader.parseValue, bind_of_ok (Reader.peek_apply s₁), hpeek,
    if_neg (by decide), if_neg (by decide), if_neg (by decide), if_pos rfl]
  exact hrun

/-- With ASCII encoding, `String` writes a text in ASCII that is read back as the same bytes, for
every well-formed string, and throws for all others. -/
theorem string_ascii (str : Bytes) (w : JsonWriter) (hascii : w.encoding = .ascii) :
    (WellFormed str ∧ ∃ text, string str w = .ok () (w.wrote text) ∧ (∀ c ∈ text, c < 0x80) ∧
        (∀ (s : ReaderState JsonReader) (r : Bytes), s.is.rest = text ++ r →
          ∃ arg s', JsonReader.parse s = .ok () s' ∧
            s'.events = s.events ++ [.scalar (.string arg)] ∧ s'.is.rest = r ∧ arg.bytes = str) ∧
        ∀ (is : ReadStream) (d : Document), is.rest = text →
          ∃ r, JsonReader.parseStream is d = .ok r ∧ r.hasParseError = false ∧
            r.handler.value = .string str) ∨
      (¬ WellFormed str ∧ ∃ e w', string str w = .error (.exception e) w') := by
  rcases string_cases wellFormed_nil (fun i w' hw' hi => puts_ascii hi (hw'.trans hascii)) with
    ⟨hwell, t, hrun, hchars, ht⟩ | h
  · refine .inl ⟨hwell, Json.quoted t, hrun, ?_, fun s r hrest => ?_, fun is d hrest => ?_⟩
    · intro c hc
      simp only [Json.quoted, List.mem_cons, List.mem_append, List.not_mem_nil, or_false] at hc
      rcases hc with rfl | hc | rfl
      · decide
      · exact ht c hc
      · decide
    · obtain ⟨arg, s', hparse, hevents, hr, hbytes, -⟩ := parse_quoted hchars hrest
      exact ⟨arg, s', hparse, hevents, hr, hbytes⟩
    · obtain ⟨arg, s', hparse, hevents, hr, hbytes, hterminated⟩ :=
        parse_quoted hchars (s := { JsonReader.new is with calls := [] }) (r := [])
          (hrest.trans (List.append_nil _).symm)
      have hbuild : (EventTree.leaf (.string arg)).build d.convertExtensions =
          .ok (.string str) := by
        rw [EventTree.build, Scalar.build, if_pos hterminated, hbytes]
      exact ⟨_, Reader.parseStream_of_build (t := .leaf (.string arg)) hparse hevents hbuild, rfl,
        rfl⟩
  · exact .inr h

omit [Platform] in
/-- The last code point, which needs a surrogate pair. -/
theorem string_ascii_pair :
    WellFormed [0xf4, 0x8f, 0xbf, 0xbf] ∧
      ∃ text, string [0xf4, 0x8f, 0xbf, 0xbf] { encoding := .ascii } =
          .ok () (wrote { encoding := .ascii } text) ∧
        text = ascii "\"\\uDBFF\\uDFFF\"" ∧ ∀ c ∈ text, c < 0x80 := by
  have hwell : WellFormed [0xf4, 0x8f, 0xbf, 0xbf] := by decide +kernel
  have hos : (reached (string [0xf4, 0x8f, 0xbf, 0xbf] { encoding := .ascii })).os =
      ascii "\"\\uDBFF\\uDFFF\"" := by
    decide +kernel
  rcases @string_ascii Platform.blank [0xf4, 0x8f, 0xbf, 0xbf] { encoding := .ascii } rfl with
    ⟨-, text, hrun, htext, -⟩ | ⟨hnot, -⟩
  · rw [hrun] at hos
    exact ⟨hwell, text, hrun, hos, htext⟩
  · exact absurd hwell hnot

/-! ## Calls that return -/

omit [Platform] in
theorem length_padded_le (pad : UInt8) {width : ℕ} {z : ℤ} (hwidth : width ≤ 11)
    (h : z.natAbs < 10 ^ 10) : (padded pad width z).length ≤ 11 := by
  obtain ⟨hdigits, -⟩ := length_decimal_le (k := 10) (by decide) h
  rw [padded]
  split_ifs <;> simp <;> omega

theorem length_dateTimeText_le (h : Platform.Bounded) (dt : ℤ) :
    (dateTimeText (Platform.localtime dt)).length ≤ 69 := by
  have hfields := h.localtime dt
  simp only [List.forall_mem_cons, List.not_mem_nil, false_implies, implies_true, and_true]
    at hfields
  obtain ⟨hyear, hmon, hmday, hhour, hmin, hsec⟩ := hfields
  have hlength (pad : UInt8) (width : ℕ) (z : ℤ) (hwidth : width ≤ 11) (hz : z.natAbs < 10 ^ 10) :=
    length_padded_le pad hwidth hz
  have h₁ := hlength 0x20 4 (1900 + (Platform.localtime dt).year) (by decide) (by omega)
  have h₂ := hlength 0x30 2 (1 + (Platform.localtime dt).mon) (by decide) (by omega)
  have h₃ := hlength 0x30 2 (Platform.localtime dt).mday (by decide) (by omega)
  have h₄ := hlength 0x30 2 (Platform.localtime dt).hour (by decide) (by omega)
  have h₅ := hlength 0x30 2 (Platform.localtime dt).min (by decide) (by omega)
  have h₆ := hlength 0x30 2 (Platform.localtime dt).sec (by decide) (by omega)
  simp only [dateTimeText, List.length_append, List.length_singleton]
  omega

/-- A writer as the program makes it by default, at any point of its text. -/
def Plain (w : JsonWriter) : Prop := w.encoding ≠ .ascii ∧ w.pretty = false ∧ w.precision = 0

/-- A computation only writes. -/
def Writes (p : Exec JsonWriter Unit) : Prop := ∀ w : JsonWriter,
  w.Plain → ∃ t, p w = .ok () (w.wrote t)

omit [Platform] in
theorem writes_put (t : Bytes) : Writes (put t) := fun _ _ => ⟨t, rfl⟩

omit [Platform] in
theorem Writes.seq {p q : Exec JsonWriter Unit} (hp : Writes p) (hq : Writes q) :
    Writes (do p; q) := by
  intro w hw
  obtain ⟨t, ht⟩ := hp w hw
  obtain ⟨t', ht'⟩ := hq (w.wrote t) hw
  exact ⟨t ++ t', by rw [bind_of_ok ht, ht', wrote_wrote]⟩

omit [Platform] in
theorem writes_string (str : Bytes) : Writes (string str) := fun _ hw =>
  let ⟨_, hrun, _⟩ := string_of_not_ascii str hw.1
  ⟨_, hrun⟩

omit [Platform] in
/-- A text that fits the buffer. -/
theorem writes_putBuffer {text : Bytes} (h : text.length < 100) : Writes (putBuffer text) := by
  rw [putBuffer, if_pos h]
  exact writes_put text

omit [Platform] in
theorem writes_newLine : Writes newLine := fun w hw => by
  refine ⟨[], ?_⟩
  rw [newLine, bind_of_ok (get_apply w), if_neg (by rw [hw.2.1]; decide), wrote_nil]
  rfl

omit [Platform] in
theorem writes_incLevel : Writes incLevel := fun w hw => by
  refine ⟨[], ?_⟩
  rw [incLevel, modify_apply, if_neg (by rw [hw.2.1]; decide), wrote_nil]

omit [Platform] in
theorem writes_decLevel : Writes decLevel := fun w hw => by
  refine ⟨[], ?_⟩
  rw [decLevel, bind_of_ok (get_apply w), if_neg (by rw [hw.2.1]; decide), wrote_nil]
  rfl

theorem writes_double (h : Platform.Bounded) (d : BitVec 64) : Writes (double d) := fun w hw => by
  have hprecision : ¬ 0 < w.precision := by
    rw [hw.2.2]
    decide
  rw [double, bind_of_ok (get_apply w), if_neg hprecision]
  exact writes_putBuffer (h.formatG d) w hw

theorem writes_dateTime (h : Platform.Bounded) (dt : ℤ) : Writes (dateTime dt) := by
  refine writes_putBuffer ?_
  have htext := length_dateTimeText_le h dt
  have hmarker : Document.dateTimeString.length = 14 := by decide
  have hstart : (ascii "[\"").length = 2 := by decide
  have hmiddle : (ascii "\",\"").length = 3 := by decide
  have hend : (ascii "\"]").length = 2 := by decide
  simp only [List.length_append]
  omega

omit [Platform] in
theorem writes_binary (str : Bytes) : Writes (binary str) :=
  (writes_put _).seq ((writes_put _).seq (writes_put _))

theorem writes_scalar (h : Platform.Bounded) (sc : Scalar) : Writes (scalar sc) := by
  cases sc with
  | dateTime dt => exact writes_dateTime h dt
  | string str => exact writes_string _
  | binary str => exact writes_binary _
  | float f => exact writes_double h _
  | double d => exact writes_double h d
  | _ => exact writes_put _

/-- Every call of a traversal returns. -/
theorem returnsIff_handle (h : Platform.Bounded) (e : Event) (he : Announces e) :
    ReturnsIff Plain True (handle e : Exec JsonWriter Unit) := by
  have hwrites : Writes (handle e : Exec JsonWriter Unit) := by
    cases e with
    | scalar sc => exact writes_scalar h sc
    | key str => exact (writes_string _).seq (writes_put _)
    | startMap _ =>
      exact writes_newLine.seq ((writes_put _).seq (writes_incLevel.seq writes_newLine))
    | startArray c =>
      cases c with
      | none => exact absurd he id
      | some _ =>
        exact writes_newLine.seq ((writes_put _).seq (writes_incLevel.seq writes_newLine))
    | mapSeparator => exact (writes_put _).seq writes_newLine
    | arraySeparator => exact (writes_put _).seq writes_newLine
    | endMap _ => exact writes_decLevel.seq (writes_newLine.seq (writes_put _))
    | endArray _ => exact writes_decLevel.seq (writes_newLine.seq (writes_put _))
  intro w hw
  obtain ⟨t, ht⟩ := hwrites w hw
  exact .inl ⟨trivial, w.wrote t, ht, hw⟩

end AnyRpc.JsonWriter
