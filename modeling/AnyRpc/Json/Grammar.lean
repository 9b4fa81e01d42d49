import AnyRpc.Reader.NumberText
import AnyRpc.Foundation.Utf8

/-! # The grammar of JSON

The syntax of RFC 8259 over the bytes of a text, where the bytes of a character outside of ASCII
stand for themselves and white space is what `isspace` takes for it. White space stands between the
tokens of a value, not around it. Next to a text stands what matters of its meaning: the bytes that a
string denotes, and the numbers of a value in their order. -/

namespace AnyRpc.Json

open NumberText

/-! ## Strings -/

/-- The number that hexadecimal digits make of the one before them. -/
def hexFrom : ℕ → Bytes → Option ℕ
  | v, [] => some v
  | v, c :: cs => (hexDigitValue? c).bind fun digit => hexFrom (v * 16 + digit) cs

/-- Four hexadecimal digits and their value. -/
def Hex4 (h : Bytes) (v : ℕ) : Prop := h.length = 4 ∧ hexFrom 0 h = some v

/-- The escapes of a single byte, and what they denote. -/
def escapes : List (UInt8 × UInt8) :=
  [(0x22, 0x22), (0x5c, 0x5c), (0x2f, 0x2f), (0x62, 0x08), (0x66, 0x0c), (0x6e, 0x0a), (0x72, 0x0d),
    (0x74, 0x09)]

/-- The first half of a surrogate pair. -/
def IsHighSurrogate (v : ℕ) : Prop := 0xD800 ≤ v ∧ v ≤ 0xDBFF

/-- The second half of a surrogate pair. -/
def IsLowSurrogate (v : ℕ) : Prop := 0xDC00 ≤ v ∧ v ≤ 0xDFFF

/-- The digits behind a `\u`, with those of the second half of a surrogate pair, and the code point
that they denote. -/
inductive CodePoint : Bytes → ℕ → Prop where
  | single {h : Bytes} {v : ℕ} : Hex4 h v → ¬ IsHighSurrogate v → CodePoint h v
  | pair {h l : Bytes} {v w : ℕ} : Hex4 h v → IsHighSurrogate v → Hex4 l w → IsLowSurrogate w →
      CodePoint (h ++ 0x5c :: 0x75 :: l) (0x10000 + (v - 0xD800) * 0x400 + (w - 0xDC00))

/-- One character of a string: its text, and the bytes that it denotes. A high surrogate is followed
by a low one. -/
inductive Char : Bytes → Bytes → Prop where
  | unescaped {c : UInt8} : 0x20 ≤ c → c ≠ 0x22 → c ≠ 0x5c → Char [c] [c]
  | escape {e c : UInt8} : (e, c) ∈ escapes → Char [0x5c, e] [c]
  | unicode {t : Bytes} {v : ℕ} : CodePoint t v → Char (0x5c :: 0x75 :: t) (encodeUtf8 v)

/-- The characters of a string, between its quotation marks. -/
inductive Chars : Bytes → Bytes → Prop where
  | nil : Chars [] []
  | cons {t b ts bs : Bytes} : Char t b → Chars ts bs → Chars (t ++ ts) (b ++ bs)

/-- A string with its quotation marks. -/
def quoted (text : Bytes) : Bytes := 0x22 :: (text ++ [0x22])

/-! ## Values -/

/-- White space. -/
def Spaces (w : Bytes) : Prop := ∀ c ∈ w, isSpace c = true

theorem spaces_nil : Spaces [] := nofun

theorem Spaces.append {w w' : Bytes} (h : Spaces w) (h' : Spaces w') : Spaces (w ++ w') :=
  List.forall_mem_append.mpr ⟨h, h'⟩

/-- The symbols of the grammar with more than one part. -/
inductive Symbol where
  | value
  /-- The elements of an array that is not empty. -/
  | elements
  /-- The members of an object that is not empty. -/
  | members
  deriving DecidableEq, Repr

/-- A text that a symbol stands for, and the numbers in it. -/
inductive Derives : Symbol → Bytes → List NumberText → Prop where
  | null : Derives .value (ascii "null") []
  | true : Derives .value (ascii "true") []
  | false : Derives .value (ascii "false") []
  | number {t : NumberText} : t.Valid → Derives .value t.text [t]
  | string {text bytes : Bytes} : Chars text bytes → Derives .value (quoted text) []
  | emptyArray {w : Bytes} : Spaces w → Derives .value (0x5b :: (w ++ [0x5d])) []
  | array {w es : Bytes} {ns : List NumberText} : Spaces w → Derives .elements es ns →
      Derives .value (0x5b :: (w ++ (es ++ [0x5d]))) ns
  | emptyObject {w : Bytes} : Spaces w → Derives .value (0x7b :: (w ++ [0x7d])) []
  | object {w ms : Bytes} {ns : List NumberText} : Spaces w → Derives .members ms ns →
      Derives .value (0x7b :: (w ++ (ms ++ [0x7d]))) ns
  | lastElement {p w : Bytes} {ns : List NumberText} : Derives .value p ns → Spaces w →
      Derives .elements (p ++ w) ns
  | element {p w w' es : Bytes} {ns ns' : List NumberText} : Derives .value p ns → Spaces w →
      Spaces w' → Derives .elements es ns' →
      Derives .elements (p ++ (w ++ 0x2c :: (w' ++ es))) (ns ++ ns')
  | lastMember {key bytes w₁ w₂ p w : Bytes} {ns : List NumberText} : Chars key bytes → Spaces w₁ →
      Spaces w₂ → Derives .value p ns → Spaces w →
      Derives .members (quoted key ++ (w₁ ++ 0x3a :: (w₂ ++ (p ++ w)))) ns
  | member {key bytes w₁ w₂ p w w' ms : Bytes} {ns ns' : List NumberText} : Chars key bytes →
      Spaces w₁ → Spaces w₂ → Derives .value p ns → Spaces w → Spaces w' → Derives .members ms ns' →
      Derives .members (quoted key ++ (w₁ ++ 0x3a :: (w₂ ++ (p ++ (w ++ 0x2c :: (w' ++ ms))))))
        (ns ++ ns')

/-- A JSON value. -/
def IsValue (p : Bytes) : Prop := ∃ ns, Derives .value p ns

/-- A JSON number. -/
def IsNumber (p : Bytes) : Prop := ∃ t : NumberText, t.Valid ∧ p = t.text

/-! ## First bytes -/

/-- The first byte of a number. -/
theorem head_number {t : NumberText} (h : t.Valid) :
    ∃ c r, t.text = c :: r ∧ (isDigit c = true ∨ c = 0x2d) := by
  obtain ⟨c, us, hint, hc⟩ := h.int.head
  rw [NumberText.text, hint]
  cases t.minus with
  | true => exact ⟨0x2d, _, rfl, .inr rfl⟩
  | false => exact ⟨c, _, rfl, .inl hc⟩

theorem isSpace_toNat {c : UInt8} (h : isSpace c = true) : c.toNat ≤ 0x20 := by
  rw [isSpace, Bool.or_eq_true, Bool.and_eq_true, decide_eq_true_eq, decide_eq_true_eq,
    decide_eq_true_eq] at h
  rcases h with rfl | ⟨-, h⟩
  · decide
  · exact (UInt8.le_iff_toNat_le.mp h).trans (by decide)

/-- What is above the space is not white space. -/
theorem isSpace_eq_false {c : UInt8} (h : 0x20 < c.toNat) : isSpace c = false :=
  Bool.eq_false_iff.mpr fun hc => absurd (isSpace_toNat hc) (not_le.mpr h)

/-- No value starts with white space or with the end of an array. -/
theorem head_value {p : Bytes} {ns : List NumberText} (h : Derives .value p ns) :
    ∃ c r, p = c :: r ∧ isSpace c = false ∧ c ≠ 0x5d := by
  cases h with
  | null => exact ⟨0x6e, _, rfl, by decide, by decide⟩
  | true => exact ⟨0x74, _, rfl, by decide, by decide⟩
  | false => exact ⟨0x66, _, rfl, by decide, by decide⟩
  | string _ => exact ⟨0x22, _, rfl, by decide, by decide⟩
  | emptyArray _ | array _ _ => exact ⟨0x5b, _, rfl, by decide, by decide⟩
  | emptyObject _ | object _ _ => exact ⟨0x7b, _, rfl, by decide, by decide⟩
  | number ht =>
    obtain ⟨c, r, htext, hc⟩ := head_number ht
    refine ⟨c, r, htext, ?_⟩
    rcases hc with hc | rfl
    · refine ⟨isSpace_eq_false ((by decide : 0x20 < 0x30).trans_le (isDigit_iff.mp hc).1), ?_⟩
      rintro rfl
      exact absurd hc (by decide)
    · exact ⟨by decide, by decide⟩

/-- The first element of an array is a value. -/
theorem head_elements {es : Bytes} {ns : List NumberText} (h : Derives .elements es ns) :
    ∃ c r, es = c :: r ∧ isSpace c = false ∧ c ≠ 0x5d := by
  cases h with
  | lastElement hp _ | element hp _ _ _ =>
    obtain ⟨c, r, rfl, hc⟩ := head_value hp
    exact ⟨c, _, rfl, hc⟩

/-- The first member of an object is a string. -/
theorem head_members {ms : Bytes} {ns : List NumberText} (h : Derives .members ms ns) :
    ∃ r, ms = 0x22 :: r := by
  cases h with
  | lastMember _ _ _ _ _ | member _ _ _ _ _ _ _ => exact ⟨_, rfl⟩

/-! ## White space -/

/-- White space ends before anything else. -/
theorem takeWhile_isSpace {w r : Bytes} (hw : Spaces w) (hr : ∀ c ∈ r.head?, isSpace c = false) :
    (w ++ r).takeWhile isSpace = w := by
  have hr' : r.takeWhile isSpace = [] := by
    cases r with
    | nil => rfl
    | cons c r =>
      have hc : isSpace c = false := hr c rfl
      simp [hc]
  rw [List.takeWhile_append_of_pos hw, hr', List.append_nil]

/-- White space and what is behind it. -/
theorem exists_spaces (s : Bytes) :
    ∃ w r, s = w ++ r ∧ Spaces w ∧ ∀ c ∈ r.head?, isSpace c = false := by
  refine ⟨s.takeWhile isSpace, s.dropWhile isSpace, List.takeWhile_append_dropWhile.symm,
    fun _ hc => List.mem_takeWhile_imp hc, fun c hc => ?_⟩
  have := List.head?_dropWhile_not isSpace s
  rw [Option.mem_def.mp hc] at this
  exact this

/-- A byte that is no part of a number ends it. -/
theorem endsNumber_cons {c : UInt8} {r : Bytes}
    (hc : isDigit c = false ∧ c ≠ 0x2e ∧ c ≠ 0x65 ∧ c ≠ 0x45) : EndsNumber (c :: r) := by
  rintro _ ⟨⟩
  exact hc

/-- White space ends a number. -/
theorem endsNumber_append {w r : Bytes} (hw : Spaces w) (hr : EndsNumber r) :
    EndsNumber (w ++ r) := by
  cases w with
  | nil => exact hr
  | cons c w =>
    have hc := isSpace_toNat (hw c List.mem_cons_self)
    have hne {d : UInt8} (hd : 0x20 < d.toNat) : c ≠ d := by
      rintro rfl
      omega
    refine endsNumber_cons ⟨Bool.eq_false_iff.mpr fun hdigit => ?_, hne (by decide), hne (by decide),
      hne (by decide)⟩
    have := (isDigit_iff.mp hdigit).1
    omega

end AnyRpc.Json
