import Mathlib.Tactic.Ring
import AnyRpc.Document.Extension
import AnyRpc.Reader.Calls
import AnyRpc.Xml.Output

/-! # References

What a reference `&name;` in a string stands for, and what the reader makes of it. The reader compares
a name with `strncmp` over the length of the name that it has read, so it takes the start of one of
the five names for the name. Of this nothing is promised here, and nothing of a reference without a
digit, nor of one with the six hexadecimal digits that the largest code points need. -/

namespace AnyRpc

open Library Reader

/-! ## Numerals -/

/-- The value of a decimal digit. -/
def decimalDigitValue? (c : UInt8) : Option ℕ := if isDigit c then some (c.toNat - 0x30) else none

/-- The number that a numeral stands for: each digit at its place. -/
def numeral? (base : ℕ) (digit? : UInt8 → Option ℕ) : Bytes → Option ℕ
  | [] => some 0
  | c :: digits => (digit? c).bind fun d =>
    (numeral? base digit? digits).map fun v => d * base ^ digits.length + v

section

variable {base : ℕ} {digit? : UInt8 → Option ℕ} {digitChar : ℕ → UInt8}

/-- A numeral of the digits of a number from a place on down. -/
def placesOf (base : ℕ) (digitChar : ℕ → UInt8) (v : ℕ) : ℕ → Bytes
  | 0 => []
  | n + 1 => digitChar (v / base ^ n % base) :: placesOf base digitChar v n

theorem length_placesOf (v n : ℕ) : (placesOf base digitChar v n).length = n := by
  induction n with
  | zero => rfl
  | succ n ih => rw [placesOf, List.length_cons, ih]

/-- With enough places the numeral stands for the number. -/
theorem numeral?_placesOf (hdigit : ∀ d < base, digit? (digitChar d) = some d) (hbase : 0 < base)
    (v n : ℕ) : numeral? base digit? (placesOf base digitChar v n) = some (v % base ^ n) := by
  induction n with
  | zero => rw [pow_zero, Nat.mod_one, placesOf, numeral?]
  | succ n ih =>
    rw [placesOf, numeral?, hdigit _ (Nat.mod_lt _ hbase), ih, length_placesOf, Nat.mod_pow_succ]
    simp [Nat.add_comm, Nat.mul_comm]

end

theorem decimalDigitValue?_digitChar : ∀ d < 10, decimalDigitValue? (digitChar d) = some d := by
  decide

namespace XmlReader

/-- The loop over the digits, from a code point that is already read. -/
theorem codepointDigits_eq (base : ℕ) (digit? : UInt8 → Option ℕ) (digits : Bytes) (codepoint : ℕ) :
    codepointDigits base digit? digits codepoint =
      match numeral? base digit? digits with
      | none => .error unicodeEscapeInvalid
      | some v =>
        if 0x10FFFF < codepoint * base ^ digits.length + v then .error unicodeEscapeInvalid
        else .ok (codepoint * base ^ digits.length + v) := by
  induction digits generalizing codepoint with
  | nil => simp [codepointDigits, numeral?]
  | cons c digits ih =>
    rw [codepointDigits, numeral?]
    cases digit? c with
    | none => rfl
    | some d =>
      simp only [ih, Option.bind_some]
      cases numeral? base digit? digits with
      | none => rfl
      | some v =>
        have hvalue : (codepoint * base + d) * base ^ digits.length + v =
            codepoint * base ^ (c :: digits).length + (d * base ^ digits.length + v) := by
          rw [List.length_cons]
          ring
        simp only [Option.map_some, hvalue]

/-! ## What a reference stands for -/

/-- The characters that have a name. -/
def namedCharacters : List (Bytes × ℕ) :=
  [(ascii "lt", 0x3c), (ascii "gt", 0x3e), (ascii "amp", 0x26), (ascii "apos", 0x27),
    (ascii "quot", 0x22)]

/-- A name stands for a character: it is the name of one, or its code point with as many digits, at
most. -/
inductive Denotes (maxDecimal maxHex : ℕ) : Bytes → ℕ → Prop
  | named {name : Bytes} {v : ℕ} : (name, v) ∈ namedCharacters → Denotes maxDecimal maxHex name v
  | decimal {digits : Bytes} {v : ℕ} : digits ≠ [] → digits.length ≤ maxDecimal →
    numeral? 10 decimalDigitValue? digits = some v → v ≤ 0x10FFFF →
    Denotes maxDecimal maxHex (0x23 :: digits) v
  | hex {digits : Bytes} {v : ℕ} : digits ≠ [] → digits.length ≤ maxHex →
    numeral? 16 hexDigitValue? digits = some v → v ≤ 0x10FFFF →
    Denotes maxDecimal maxHex (0x23 :: 0x78 :: digits) v

/-- The names of which nothing is promised: a name without its end, or with a null byte behind it, a
reference without a digit, and six hexadecimal digits. -/
inductive Unspecified : Bytes → Prop
  | cut {name full : Bytes} {v : ℕ} : (full, v) ∈ namedCharacters → name <+: full → name ≠ [] →
    name ≠ full → Unspecified name
  | null {name full : Bytes} {v : ℕ} : (full, v) ∈ namedCharacters → full ++ [0] <+: name →
    Unspecified name
  | noDigit : Unspecified [0x23]
  | sixDigits {digits : Bytes} {v : ℕ} : digits.length = 6 →
    numeral? 16 hexDigitValue? digits = some v → v ≤ 0x10FFFF →
    Unspecified (0x23 :: 0x78 :: digits)

theorem xmlEntity_eq : xmlEntity = namedCharacters.map fun e => (UInt8.ofNat e.2, e.1) := rfl

theorem unicodeEscapeInvalid_isError : unicodeEscapeInvalid.IsError :=
  ⟨_, rfl, show ErrorCode.stringUnicodeEscapeInvalid ≠ 0 by decide⟩

theorem escapeInvalid_isError : escapeInvalid.IsError :=
  ⟨_, rfl, show ErrorCode.stringEscapeInvalid ≠ 0 by decide⟩

/-- The names are no longer than four characters, begin with a letter and hold no null byte. -/
theorem namedCharacters_spec : ∀ e ∈ namedCharacters, 2 ≤ e.1.length ∧ e.1.length ≤ 4 ∧ e.2 ≤ 0x7f ∧
    e.1.head? ≠ some 0x23 ∧ (0 : UInt8) ∉ e.1 := by
  decide +kernel

/-- Of a reference that stands for a character it is promised. -/
theorem Denotes.not_unspecified {name : Bytes} {v : ℕ} (h : Denotes 7 5 name v) :
    ¬ Unspecified name := by
  -- A number begins with a `#`, as no name does.
  have hhead {str full t : Bytes} {w : ℕ} (hmem : (full, w) ∈ namedCharacters)
      (hpre : 0x23 :: str ++ t = full) : False :=
    (namedCharacters_spec _ hmem).2.2.2.1 (by rw [← hpre]; rfl)
  have hnull {str full t : Bytes} {w : ℕ} (hmem : (full, w) ∈ namedCharacters)
      (hpre : full ++ [0] ++ t = 0x23 :: str) : False := by
    obtain ⟨htwo, -, -, hne, -⟩ := namedCharacters_spec _ hmem
    cases full with
    | nil => simp at htwo
    | cons c full => exact hne (congrArg some (List.cons.inj hpre).1)
  intro hun
  cases h with
  | named hname =>
    have hall : ∀ e ∈ namedCharacters, ∀ e' ∈ namedCharacters,
        (e.1 <+: e'.1 → e.1 = e'.1) ∧ ¬ e'.1 ++ [0] <+: e.1 := by decide +kernel
    have hspec := namedCharacters_spec _ hname
    cases hun with
    | cut hfull hpre _ hne => exact hne ((hall _ hname _ hfull).1 hpre)
    | null hfull hpre => exact (hall _ hname _ hfull).2 hpre
    | noDigit => exact hspec.2.2.2.1 rfl
    | sixDigits => exact hspec.2.2.2.1 rfl
  | decimal hne _ hv =>
    cases hun with
    | cut hfull hpre => exact hpre.elim fun t ht => hhead hfull ht
    | null hfull hpre => exact hpre.elim fun t ht => hnull hfull ht
    | noDigit => exact hne rfl
    | sixDigits => cases hv
  | hex _ hlength =>
    cases hun with
    | cut hfull hpre => exact hpre.elim fun t ht => hhead hfull ht
    | null hfull hpre => exact hpre.elim fun t ht => hnull hfull ht
    | sixDigits hsix => omega

/-- What is looked for in the table. -/
theorem mem_of_find?_xmlEntity {name : Bytes} {e : UInt8 × Bytes}
    (h : xmlEntity.find? (fun e => Document.strncmpEq name e.2) = some e) :
    ∃ v, (e.2, v) ∈ namedCharacters ∧ (name <+: e.2 ∨ e.2 ++ [0] <+: name) := by
  have hmem := List.mem_of_find?_eq_some h
  have hfound := List.find?_some (p := fun e : UInt8 × Bytes => Document.strncmpEq name e.2) h
  rw [xmlEntity_eq, List.mem_map] at hmem
  obtain ⟨⟨full, v⟩, hfull, rfl⟩ := hmem
  have hnull := (namedCharacters_spec _ hfull).2.2.2.2
  exact ⟨v, hfull, (Document.strncmpEq_iff hnull).mp hfound⟩

/-- A numeral within its bounds gives the code point, and any other one a fault. -/
theorem codepointDigits_of_le {base : ℕ} {digit? : UInt8 → Option ℕ} {digits : Bytes} {v : ℕ}
    (hv : numeral? base digit? digits = some v) (hle : v ≤ 0x10FFFF) :
    codepointDigits base digit? digits 0 = .ok v := by
  rw [codepointDigits_eq, hv]
  simp only [Nat.zero_mul, Nat.zero_add]
  exact if_neg (Nat.not_lt.mpr hle)

theorem codepointDigits_ok {base : ℕ} {digit? : UInt8 → Option ℕ} {digits : Bytes} :
    codepointDigits base digit? digits 0 = .error unicodeEscapeInvalid ∨
      ∃ v, numeral? base digit? digits = some v ∧ v ≤ 0x10FFFF := by
  rw [codepointDigits_eq]
  cases numeral? base digit? digits with
  | none => exact Or.inl rfl
  | some v =>
    simp only [Nat.zero_mul, Nat.zero_add]
    by_cases hlt : 0x10FFFF < v
    · exact Or.inl (if_pos hlt)
    · exact Or.inr ⟨v, rfl, Nat.not_lt.mp hlt⟩

/-- A reference that stands for a character puts its encoding. -/
theorem decodeReference_of_denotes {name : Bytes} {v : ℕ} (h : Denotes 7 5 name v) :
    decodeReference name = .ok (Utf8.encode v) := by
  cases h with
  | named hmem =>
    have hall : ∀ e ∈ namedCharacters, decodeReference e.1 = .ok (Utf8.encode e.2) := by
      decide +kernel
    exact hall _ hmem
  | @decimal digits v hne hlength hv hle =>
    have hx : digits.head? ≠ some 0x78 := by
      intro hhead
      obtain ⟨t, rfl⟩ : ∃ t, digits = 0x78 :: t := by
        cases digits with
        | nil => cases hhead
        | cons c t =>
          cases hhead
          exact ⟨t, rfl⟩
      cases hv
    have hdigits : parseDecimalEscapeCode digits = .ok v := by
      rw [parseDecimalEscapeCode, if_neg (Nat.not_lt.mpr hlength)]
      exact codepointDigits_of_le hv hle
    simp only [decodeReference, hx, and_false, if_false, hdigits]
    exact congrArg Except.ok (encodeUtf8_eq (by omega))
  | @hex digits v hne hlength hv hle =>
    have hlt : 2 < (0x23 :: 0x78 :: digits).length := by
      have := List.length_pos_iff.mpr hne
      simpa using this
    have hdigits : parseHexEscapeCode digits = .ok v := by
      rw [parseHexEscapeCode, if_neg (Nat.not_lt.mpr hlength)]
      exact codepointDigits_of_le hv hle
    simp only [decodeReference, hlt, List.head?_cons, and_self, if_true, List.tail_cons, hdigits]
    exact congrArg Except.ok (encodeUtf8_eq (by omega))

/-- Any other one of which something is promised is a fault. -/
theorem decodeReference_error {name : Bytes} (hnot : ∀ v, ¬ Denotes 7 5 name v)
    (hspecified : ¬ Unspecified name) : ∃ f, decodeReference name = .error f ∧ f.IsError := by
  match name with
  | [] => exact ⟨_, rfl, escapeInvalid_isError⟩
  | c :: str =>
    by_cases hc : c = 0x23
    · subst hc
      by_cases hhex : 2 < (0x23 :: str).length ∧ str.head? = some 0x78
      · obtain ⟨hlength, hhead⟩ := hhex
        obtain ⟨digits, rfl⟩ : ∃ digits, str = 0x78 :: digits := by
          cases str with
          | nil => cases hhead
          | cons c digits =>
            cases hhead
            exact ⟨digits, rfl⟩
        refine ⟨unicodeEscapeInvalid, ?_, unicodeEscapeInvalid_isError⟩
        have hdigits : parseHexEscapeCode digits = .error unicodeEscapeInvalid := by
          rw [parseHexEscapeCode]
          by_cases hlong : 5 < digits.length
          · exact if_pos hlong
          · rw [if_neg hlong]
            refine codepointDigits_ok.resolve_right ?_
            rintro ⟨v, hv, hle⟩
            refine hnot v (.hex ?_ (Nat.not_lt.mp hlong) hv hle)
            rintro rfl
            simp at hlength
        simp only [decodeReference, hlength, List.head?_cons, and_self, if_true, List.tail_cons,
          hdigits]
        rfl
      · refine ⟨unicodeEscapeInvalid, ?_, unicodeEscapeInvalid_isError⟩
        have hdigits : parseDecimalEscapeCode str = .error unicodeEscapeInvalid := by
          rw [parseDecimalEscapeCode]
          by_cases hlong : 7 < str.length
          · exact if_pos hlong
          · rw [if_neg hlong]
            refine codepointDigits_ok.resolve_right ?_
            rintro ⟨v, hv, hle⟩
            refine hnot v (.decimal ?_ (Nat.not_lt.mp hlong) hv hle)
            rintro rfl
            exact hspecified .noDigit
        simp only [decodeReference, hhex, if_false, hdigits]
        rfl
    · refine ⟨escapeInvalid, ?_, escapeInvalid_isError⟩
      have hnone : xmlEntity.find? (fun e => Document.strncmpEq (c :: str) e.2) = none := by
        cases hfind : xmlEntity.find? fun e => Document.strncmpEq (c :: str) e.2 with
        | none => rfl
        | some e =>
          obtain ⟨v, hfull, hcut | hnull⟩ := mem_of_find?_xmlEntity hfind
          · refine absurd (.cut hfull hcut (List.cons_ne_nil _ _) ?_) hspecified
            intro heq
            exact hnot v (heq ▸ .named hfull)
          · exact absurd (.null hfull hnull) hspecified
      unfold decodeReference
      split
      · next h => cases h
      · next h => exact absurd (List.cons.inj h).1 hc
      · rw [hnone]

/-! ## Reading a reference -/

/-- The name is read up to the `;`, when it is not too long. -/
theorem readEncoded_of_lt {name : Bytes} (hname : (0x3b : UInt8) ∉ name) (rest : Bytes)
    (encoded : Bytes) (h : encoded.length + name.length < XmlTag.maxLength) :
    readEncoded encoded (name ++ 0x3b :: rest) = .ok (some (encoded ++ name)) rest := by
  induction name generalizing encoded with
  | nil => rw [List.nil_append, readEncoded, if_pos rfl, List.append_nil]
  | cons c name ih =>
    rw [List.mem_cons, not_or] at hname
    rw [List.length_cons] at h
    rw [List.cons_append, readEncoded, if_neg (Ne.symm hname.1), if_neg (by omega),
      ih hname.2 (encoded ++ [c]) (by rw [List.length_append, List.length_singleton]; omega),
      List.append_assoc, List.singleton_append]

theorem readEncoded_of_le {name : Bytes} (hname : (0x3b : UInt8) ∉ name) (rest : Bytes)
    (encoded : Bytes) (hencoded : encoded.length < XmlTag.maxLength)
    (h : XmlTag.maxLength ≤ encoded.length + name.length) :
    ∃ r, readEncoded encoded (name ++ 0x3b :: rest) = .error escapeInvalid r := by
  induction name generalizing encoded with
  | nil =>
    rw [List.length_nil] at h
    omega
  | cons c name ih =>
    rw [List.mem_cons, not_or] at hname
    rw [List.length_cons] at h
    rw [List.cons_append, readEncoded, if_neg (Ne.symm hname.1)]
    by_cases hlong : XmlTag.maxLength ≤ encoded.length + 1
    · exact ⟨_, if_pos hlong⟩
    · rw [if_neg hlong]
      exact ih hname.2 (encoded ++ [c]) (by rw [List.length_append, List.length_singleton]; omega)
        (by rw [List.length_append, List.length_singleton]; omega)

/-- A name is no shorter than the encoding of its character less the `&` and the `;`. -/
theorem Denotes.length_le {name : Bytes} {v : ℕ} (h : Denotes 7 5 name v) :
    (Utf8.encode v).length ≤ name.length + 2 ∧ name.length < XmlTag.maxLength := by
  have hencode : (Utf8.encode v).length ≤ 4 := by
    unfold Utf8.encode
    split_ifs <;> simp
  have hmax : XmlTag.maxLength = 100 := rfl
  cases h with
  | named hmem =>
    obtain ⟨htwo, hfour, -⟩ := namedCharacters_spec _ hmem
    simp only at htwo hfour
    omega
  | decimal hne hlength =>
    have := List.length_pos_iff.mpr hne
    rw [List.length_cons]
    omega
  | hex hne hlength =>
    rw [List.length_cons, List.length_cons]
    omega

section

variable {inPlace : Bool} {out rest : Bytes} {s : ReaderState XmlReader}

/-- A character of the text is put as it is. -/
theorem parseStringToStream_char (fuel : ℕ) (onlyWhiteSpace : Bool) {c : UInt8} (hlt : c ≠ 0x3c)
    (hamp : c ≠ 0x26) (h : Holds inPlace 0 out s) (hrest : s.is.rest = c :: rest) :
    ∃ s', s'.is.rest = rest ∧ Holds inPlace 0 (out ++ [c]) s' ∧
      parseStringToStream inPlace (fuel + 1) onlyWhiteSpace s =
        parseStringToStream inPlace fuel (onlyWhiteSpace && isSpace c) s' := by
  obtain ⟨s', hput, hrest', hholds⟩ := osPut_eq c (h.take hrest) (Nat.le_add_left _ _)
  refine ⟨s', ?_, hholds.mono (Nat.zero_le _), ?_⟩
  · rw [hrest']
    simp [hrest]
  · simp [parseStringToStream, ReadStream.eof, ReadStream.peek, hrest, hlt, hamp, hput]

/-- The name behind the `&` is read together with the `;`. -/
theorem onText_readEncoded {name : Bytes} (hname : (0x3b : UInt8) ∉ name)
    (hlength : name.length < XmlTag.maxLength) (hrest : s.is.rest = 0x26 :: name ++ 0x3b :: rest) :
    (onText (readEncoded []) { s with is := s.is.advance 1 } : EStateM.Result _ _ _) =
      .ok (some name) { s with is := s.is.advance (0x26 :: name ++ [0x3b]).length } := by
  have hrest₁ : (s.is.advance 1).rest = name ++ 0x3b :: rest := by simp [hrest]
  have hread : readEncoded [] (s.is.advance 1).rest = .ok (some name) rest := by
    rw [hrest₁, readEncoded_of_lt hname rest [] (by simpa using hlength), List.nil_append]
  rw [onText_of_ok hread, hrest₁, ReadStream.advance_advance]
  have htaken : 1 + ((name ++ 0x3b :: rest).length - rest.length) =
      (0x26 :: name ++ [0x3b]).length := by
    simp only [List.length_append, List.length_cons, List.length_nil]
    omega
  rw [htaken]

/-- A reference that stands for a character puts its encoding. -/
theorem parseStringToStream_denotes (fuel : ℕ) (onlyWhiteSpace : Bool) {name : Bytes} {v : ℕ}
    (hname : (0x3b : UInt8) ∉ name) (hdenotes : Denotes 7 5 name v) (h : Holds inPlace 0 out s)
    (hrest : s.is.rest = 0x26 :: name ++ 0x3b :: rest) :
    ∃ s', s'.is.rest = rest ∧ Holds inPlace 0 (out ++ Utf8.encode v) s' ∧
      parseStringToStream inPlace (fuel + 1) onlyWhiteSpace s =
        parseStringToStream inPlace fuel false s' := by
  obtain ⟨hencode, hlength⟩ := hdenotes.length_le
  have hsplit : s.is.rest = (0x26 :: name ++ [0x3b]) ++ rest := by rw [hrest]; simp
  have hroom : (Utf8.encode v).length ≤ 0 + (0x26 :: name ++ [0x3b]).length := by
    simp only [List.length_append, List.length_cons, List.length_nil]
    omega
  have hread := onText_readEncoded hname hlength hrest
  have hadvance := h.advance hsplit
  have hrest₁ := s.is.rest_advance_of_append hsplit
  generalize s.is.advance (0x26 :: name ++ [0x3b]).length = is₁ at hread hadvance hrest₁
  obtain ⟨s', hput, hrest', hholds⟩ := osPutAll_eq (Utf8.encode v) hadvance hroom
  refine ⟨s', hrest'.trans hrest₁, hholds.mono (Nat.zero_le _), ?_⟩
  simp [parseStringToStream, ReadStream.eof, ReadStream.peek, hrest, hread,
    decodeReference_of_denotes hdenotes, hput]

/-- Any other one of which something is promised ends the parsing. -/
theorem parseStringToStream_error (fuel : ℕ) (onlyWhiteSpace : Bool) {name : Bytes}
    (hname : (0x3b : UInt8) ∉ name) (hnot : ∀ v, ¬ Denotes 7 5 name v)
    (hspecified : ¬ Unspecified name) (hrest : s.is.rest = 0x26 :: name ++ 0x3b :: rest) :
    ∃ f s', parseStringToStream inPlace (fuel + 1) onlyWhiteSpace s = .error f s' ∧ f.IsError := by
  by_cases hlength : name.length < XmlTag.maxLength
  · obtain ⟨f, hf, herror⟩ := decodeReference_error hnot hspecified
    have hread := onText_readEncoded hname hlength hrest
    refine ⟨f, { s with is := s.is.advance (0x26 :: name ++ [0x3b]).length }, ?_, herror⟩
    simp [parseStringToStream, ReadStream.eof, ReadStream.peek, hrest, hread, hf]
  · have hrest₁ : (s.is.advance 1).rest = name ++ 0x3b :: rest := by simp [hrest]
    obtain ⟨r, hr⟩ := readEncoded_of_le hname rest [] (by decide) (by simpa using hlength)
    rw [← hrest₁] at hr
    obtain ⟨s', hread⟩ : ∃ s', (onText (readEncoded []) { s with is := s.is.advance 1 } :
        EStateM.Result _ _ _) = .error escapeInvalid s' := ⟨_, onText_of_error hr⟩
    refine ⟨escapeInvalid, s', ?_, escapeInvalid_isError⟩
    simp [parseStringToStream, ReadStream.eof, ReadStream.peek, hrest, hread]

end

/-! ## Reading a text -/

/-- A piece of a string: a character, or a reference. -/
inductive Piece
  | char (c : UInt8) (hlt : c ≠ 0x3c) (hamp : c ≠ 0x26)
  | reference (name : Bytes) (hname : 0x3b ∉ name)

namespace Piece

def text : Piece → Bytes
  | char c _ _ => [c]
  | reference name _ => 0x26 :: name ++ [0x3b]

/-- What a piece contributes. -/
inductive Means : Piece → Bytes → Prop
  | char (c : UInt8) (hlt : c ≠ 0x3c) (hamp : c ≠ 0x26) : Means (char c hlt hamp) [c]
  | reference {name : Bytes} {v : ℕ} (hname : 0x3b ∉ name) : Denotes 7 5 name v →
    Means (reference name hname) (Utf8.encode v)

/-- Whether what it means is promised. -/
def Specified : Piece → Prop
  | char _ _ _ => True
  | reference name _ => ¬ Unspecified name

def isWhiteSpace : Piece → Bool
  | char c _ _ => isSpace c
  | reference _ _ => false

end Piece

section

variable {inPlace : Bool} {out rest : Bytes} {s : ReaderState XmlReader}

/-- A piece contributes what it means. -/
theorem parseStringToStream_piece (fuel : ℕ) (onlyWhiteSpace : Bool) {p : Piece} {bytes : Bytes}
    (hmeans : p.Means bytes) (h : Holds inPlace 0 out s) (hrest : s.is.rest = p.text ++ rest) :
    ∃ s', s'.is.rest = rest ∧ Holds inPlace 0 (out ++ bytes) s' ∧
      parseStringToStream inPlace (fuel + 1) onlyWhiteSpace s =
        parseStringToStream inPlace fuel (onlyWhiteSpace && p.isWhiteSpace) s' := by
  cases hmeans with
  | char c hlt hamp => exact parseStringToStream_char fuel onlyWhiteSpace hlt hamp h hrest
  | @reference name v hname hdenotes =>
    have hrest' : s.is.rest = 0x26 :: name ++ 0x3b :: rest := by
      rw [hrest, Piece.text]
      simp
    obtain ⟨s', hs', hholds, hrun⟩ :=
      parseStringToStream_denotes fuel onlyWhiteSpace hname hdenotes h hrest'
    refine ⟨s', hs', hholds, ?_⟩
    rw [hrun, Piece.isWhiteSpace, Bool.and_false]

/-- Each piece of a text contributes what it means. -/
theorem parseStringToStream_pieces (fuel : ℕ) (onlyWhiteSpace : Bool) {ps : List Piece}
    {bytes : List Bytes} (hmeans : List.Forall₂ Piece.Means ps bytes) (h : Holds inPlace 0 out s)
    (hrest : s.is.rest = ps.flatMap Piece.text ++ rest) :
    ∃ s', s'.is.rest = rest ∧ Holds inPlace 0 (out ++ bytes.flatten) s' ∧
      parseStringToStream inPlace (ps.length + fuel) onlyWhiteSpace s =
        parseStringToStream inPlace fuel (onlyWhiteSpace && ps.all Piece.isWhiteSpace) s' := by
  induction hmeans generalizing s out onlyWhiteSpace with
  | nil =>
    refine ⟨s, hrest, by simpa using h, ?_⟩
    rw [List.length_nil, Nat.zero_add, List.all_nil, Bool.and_true]
  | @cons p b ps bs hp _ ih =>
    rw [List.flatMap_cons, List.append_assoc] at hrest
    obtain ⟨s₁, hs₁, hholds₁, hrun₁⟩ :=
      parseStringToStream_piece (ps.length + fuel) onlyWhiteSpace hp h hrest
    obtain ⟨s₂, hs₂, hholds₂, hrun₂⟩ := ih (onlyWhiteSpace && p.isWhiteSpace) hholds₁ hs₁
    refine ⟨s₂, hs₂, ?_, ?_⟩
    · rwa [List.flatten_cons, ← List.append_assoc]
    · rw [List.length_cons, Nat.add_right_comm, hrun₁, hrun₂, List.all_cons, Bool.and_assoc]

/-- A reference that means nothing ends the parsing. -/
theorem parseStringToStream_piece_error (fuel : ℕ) (onlyWhiteSpace : Bool) {p : Piece}
    (hspecified : p.Specified) (hnot : ∀ bytes, ¬ p.Means bytes)
    (hrest : s.is.rest = p.text ++ rest) :
    ∃ f s', parseStringToStream inPlace (fuel + 1) onlyWhiteSpace s = .error f s' ∧ f.IsError := by
  cases p with
  | char c hlt hamp => exact absurd (.char c hlt hamp) (hnot [c])
  | reference name hname =>
    have hrest' : s.is.rest = 0x26 :: name ++ 0x3b :: rest := by
      rw [hrest, Piece.text]
      simp
    exact parseStringToStream_error fuel onlyWhiteSpace hname
      (fun v hv => hnot _ (.reference hname hv)) hspecified hrest'

/-- The pieces in front of it do not matter. -/
theorem parseStringToStream_pieces_error (fuel : ℕ) (onlyWhiteSpace : Bool) {ps : List Piece}
    (hspecified : ∀ p ∈ ps, p.Specified) (hnot : ∃ p ∈ ps, ∀ bytes, ¬ p.Means bytes)
    (h : Holds inPlace 0 out s) (hrest : s.is.rest = ps.flatMap Piece.text ++ rest) :
    ∃ f s', parseStringToStream inPlace (ps.length + fuel) onlyWhiteSpace s = .error f s' ∧
      f.IsError := by
  induction ps generalizing s out onlyWhiteSpace with
  | nil =>
    obtain ⟨p, hp, -⟩ := hnot
    exact absurd hp List.not_mem_nil
  | cons p ps ih =>
    rw [List.flatMap_cons, List.append_assoc] at hrest
    rw [List.length_cons, Nat.add_right_comm]
    by_cases hp : ∃ bytes, p.Means bytes
    · obtain ⟨bytes, hbytes⟩ := hp
      obtain ⟨s₁, hs₁, hholds₁, hrun₁⟩ :=
        parseStringToStream_piece (ps.length + fuel) onlyWhiteSpace hbytes h hrest
      rw [hrun₁]
      refine ih _ (fun q hq => hspecified q (List.mem_cons_of_mem _ hq)) ?_ hholds₁ hs₁
      obtain ⟨q, hq, hqnot⟩ := hnot
      rcases List.mem_cons.mp hq with rfl | hq
      · exact absurd hbytes (hqnot bytes)
      · exact ⟨q, hq, hqnot⟩
    · exact parseStringToStream_piece_error (ps.length + fuel) onlyWhiteSpace
        (hspecified p List.mem_cons_self) (fun bytes hbytes => hp ⟨bytes, hbytes⟩) hrest

end

/-! ## Code points in both forms -/

/-- Every code point has a reference with decimal digits. -/
theorem denotes_decimal {v : ℕ} (h : v ≤ 0x10FFFF) :
    Denotes 7 5 (0x23 :: placesOf 10 digitChar v 7) v := by
  have hv : numeral? 10 decimalDigitValue? (placesOf 10 digitChar v 7) = some v := by
    rw [numeral?_placesOf decimalDigitValue?_digitChar (by decide), Nat.mod_eq_of_lt (by omega)]
  exact .decimal (by simp [placesOf]) (length_placesOf v 7).le hv h

/-- Every code point below 0x100000 has one with hexadecimal digits. -/
theorem denotes_hex {v : ℕ} (h : v ≤ 0xFFFFF) :
    Denotes 7 5 (0x23 :: 0x78 :: placesOf 16 hexDigit v 5) v := by
  have hv : numeral? 16 hexDigitValue? (placesOf 16 hexDigit v 5) = some v := by
    rw [numeral?_placesOf (fun _ => hexDigitValue?_hexDigit) (by decide), Nat.mod_eq_of_lt (by omega)]
  exact .hex (by simp [placesOf]) (length_placesOf v 5).le hv (by omega)

/-- In any text, a reference that stands for a character contributes its encoding, and any other one
of which something is promised is a parse error. Below 0x100000 there is a reference in both forms for
every code point. -/
theorem parseStringToStream_references {inPlace : Bool} {out rest : Bytes}
    {s : ReaderState XmlReader} (fuel : ℕ) (onlyWhiteSpace : Bool) {ps : List Piece}
    (hspecified : ∀ p ∈ ps, p.Specified) (h : Holds inPlace 0 out s)
    (hrest : s.is.rest = ps.flatMap Piece.text ++ rest) :
    (∀ bytes, List.Forall₂ Piece.Means ps bytes →
      ∃ s', s'.is.rest = rest ∧ Holds inPlace 0 (out ++ bytes.flatten) s' ∧
        parseStringToStream inPlace (ps.length + fuel) onlyWhiteSpace s =
          parseStringToStream inPlace fuel (onlyWhiteSpace && ps.all Piece.isWhiteSpace) s') ∧
    ((∃ p ∈ ps, ∀ bytes, ¬ p.Means bytes) →
      ∃ f s', parseStringToStream inPlace (ps.length + fuel) onlyWhiteSpace s = .error f s' ∧
        f.IsError) ∧
    ∀ v ≤ 0x10FFFF, Denotes 7 5 (0x23 :: placesOf 10 digitChar v 7) v ∧
      (v ≤ 0xFFFFF → Denotes 7 5 (0x23 :: 0x78 :: placesOf 16 hexDigit v 5) v) :=
  ⟨fun _ hmeans => parseStringToStream_pieces fuel onlyWhiteSpace hmeans h hrest,
    fun hnot => parseStringToStream_pieces_error fuel onlyWhiteSpace hspecified hnot h hrest,
    fun _ hv => ⟨denotes_decimal hv, denotes_hex⟩⟩

/-- `a&amp;` is put as `a&`. -/
theorem parseStringToStream_amp :
    ∃ s', s'.is.rest = ascii "<" ∧ Holds false 0 (ascii "a&") s' ∧
      parseStringToStream false (2 + 1) true (new (.readString (ascii "a&amp;<"))) =
        parseStringToStream false 1 false s' := by
  have hamp : Denotes 7 5 (ascii "amp") 0x26 := .named (by decide +kernel)
  have hall : ∀ p ∈ [Piece.char 0x61 (by decide) (by decide),
      Piece.reference (ascii "amp") (by decide +kernel)], p.Specified := by
    intro p hp
    rcases List.mem_pair.mp hp with rfl | rfl
    · trivial
    · exact hamp.not_unspecified
  have hholds : Holds false 0 [] (new (.readString (ascii "a&amp;<"))) := rfl
  have hrest : (new (.readString (ascii "a&amp;<"))).is.rest = [Piece.char 0x61 (by decide) (by decide),
      Piece.reference (ascii "amp") (by decide +kernel)].flatMap Piece.text ++ ascii "<" := by
    decide +kernel
  exact (parseStringToStream_references 1 true hall hholds hrest).1 _
    (.cons (.char 0x61 _ _) (.cons (.reference _ hamp) .nil))

/-- Leading zeros are too many digits, although the code point is in range. -/
theorem leadingZeros_refused : Denotes 99 98 (0x23 :: ascii "00000065") 0x41 ∧
    threw (parseStringToStream false 13 true (new (.readString (ascii "&#00000065;<")))) = true := by
  have hvalue : numeral? 10 decimalDigitValue? (ascii "00000065") = some 0x41 := by decide +kernel
  exact ⟨.decimal (by decide) (by decide +kernel) hvalue (by decide), by decide +kernel⟩

end XmlReader

end AnyRpc
