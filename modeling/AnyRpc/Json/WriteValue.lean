import AnyRpc.Json.Legible
import AnyRpc.Json.WriteString

/-! # The values of the JSON writer

What a traversal writes of a value without floating-point numbers and points in time: white space and
a text that means the value (`JsonWriter.ValueText`), or nothing but a fault, where ASCII encoding
meets a string or a key that is not UTF-8. With pretty printing an array or a map starts with the end
of the line before it. -/

namespace AnyRpc

open Handler Library Library.Utf8 Json

/-- The nodes that are read as they are written, with or without the conversion of extensions. A text
in base 64 is a string of JSON as long as it takes one line. -/
def Value.IsJson (convert : Bool) : Value → Prop
  | null | bool _ | string _ => True
  | number n => ∃ z, Number.InRange z ∧ n = .ofInteger z
  | binary b => convert = true ∧ b ≠ [] ∧ b.length ≤ 48
  | array es _ =>
    es.length ≤ maxPushedElements ∧ (convert = true → EventTree.extension? es = none)
  | map ms _ => ms.length ≤ maxMapCapacity
  | invalid | dateTime _ => False

/-- The nodes whose strings are UTF-8. -/
def Value.IsUtf8 : Value → Prop
  | string s => WellFormed s
  | map ms _ => ∀ m ∈ ms, WellFormed m.1
  | _ => True

namespace JsonWriter

/-! ## Parts of the writer -/

/-- A part of the writer puts a text of a kind exactly when a condition holds, and throws otherwise. -/
def Spells (P : Prop) (T : Bytes → Prop) (p : Exec JsonWriter Unit) (w : JsonWriter) : Prop :=
  (P ∧ ∃ t, p w = .ok () (w.wrote t) ∧ T t) ∨ (¬ P ∧ Throws p w)

section

variable {P Q : Prop} {T T' T'' : Bytes → Prop} {p q : Exec JsonWriter Unit} {w : JsonWriter}

theorem spells_of_ok {t : Bytes} (h : p w = .ok () (w.wrote t)) (hT : T t) : Spells True T p w :=
  .inl ⟨trivial, t, h, hT⟩

/-- One part after the other. -/
theorem Spells.seq (hp : Spells P T p w) (hq : ∀ t, T t → Spells Q T' q (w.wrote t))
    (hT : ∀ t t', T t → T' t' → T'' (t ++ t')) : Spells (P ∧ Q) T'' (do p; q) w := by
  rcases hp with ⟨hP, t, hrun, ht⟩ | ⟨hP, e, w', hthrows⟩
  · rcases hq t ht with ⟨hQ, t', hrun', ht'⟩ | ⟨hQ, e, w', hthrows⟩
    · exact .inl ⟨⟨hP, hQ⟩, t ++ t', by rw [bind_of_ok hrun, hrun', wrote_wrote], hT t t' ht ht'⟩
    · exact .inr ⟨fun h => hQ h.2, e, w', by rw [bind_of_ok hrun, hthrows]⟩
  · exact .inr ⟨fun h => hP h.1, e, w', bind_of_error hthrows⟩

theorem Spells.congr (h : Spells P T p w) (hPQ : P ↔ Q) : Spells Q T p w := by
  rwa [← hPQ]

theorem Spells.mono (h : Spells P T p w) (hT : ∀ t, T t → T' t) : Spells P T' p w :=
  h.imp_left fun ⟨hP, t, hrun, ht⟩ => ⟨hP, t, hrun, hT t ht⟩

end

/-- Whether a text has to be, and is, one of ASCII. -/
def Plainly (ascii : Prop) (t : Bytes) : Prop := ascii → ∀ c ∈ t, c < 0x80

theorem Plainly.append {a : Prop} {t t' : Bytes} (h : Plainly a t) (h' : Plainly a t') :
    Plainly a (t ++ t') := fun ha c hc =>
  (List.mem_append.mp hc).elim (h ha c) (h' ha c)

theorem plainly_of_lt {a : Prop} {t : Bytes} (h : ∀ c ∈ t, c < 0x80) : Plainly a t := fun _ => h

/-! ## Strings -/

/-- What is written of a string. -/
def StringText (a : Prop) (str : Bytes) (t : Bytes) : Prop :=
  ∃ u, t = quoted u ∧ Chars u str ∧ Plainly a t

/-- A string is written in quotation marks, or refused. -/
theorem spells_string (str : Bytes) (w : JsonWriter) :
    Spells (w.encoding = .ascii → WellFormed str)
      (StringText (w.encoding = .ascii) str) (string str) w := by
  by_cases hascii : w.encoding = .ascii
  · have hputs (i : ℕ) (w' : JsonWriter) (hw' : w'.encoding = w.encoding) (hi : i < str.length) :
        Puts WellFormed (· < 0x80) str i w' := puts_ascii hi (hw'.trans hascii)
    rcases string_cases wellFormed_nil hputs with ⟨hwell, u, hrun, hchars, hu⟩ | ⟨hwell, hthrows⟩
    · refine .inl ⟨fun _ => hwell, _, hrun, u, rfl, hchars, plainly_of_lt fun c hc => ?_⟩
      simp only [quoted, List.mem_cons, List.mem_append, List.not_mem_nil, or_false] at hc
      rcases hc with rfl | hc | rfl
      · decide
      · exact hu c hc
      · decide
    · exact .inr ⟨fun h => hwell (h hascii), hthrows⟩
  · obtain ⟨u, hrun, hchars⟩ := string_of_not_ascii str hascii
    exact .inl ⟨fun h => absurd h hascii, _, hrun, u, rfl, hchars, fun h => absurd h hascii⟩

/-! ## Layout -/

/-- What `NewLine` puts. -/
def lineText (w : JsonWriter) : Bytes :=
  if w.pretty then 0x0a :: List.replicate w.level.toNat 0x09 else []

/-- The writer within an array or a map. -/
def inner (w : JsonWriter) : JsonWriter := if w.pretty then { w with level := w.level + 1 } else w

theorem newLine_apply (w : JsonWriter) : newLine w = .ok () (w.wrote w.lineText) := by
  rw [newLine, bind_of_ok (get_apply w), lineText]
  cases w.pretty with
  | true => rfl
  | false =>
    rw [if_neg Bool.false_ne_true, if_neg Bool.false_ne_true, wrote_nil]
    rfl

theorem mem_lineText {w : JsonWriter} {c : UInt8} (h : c ∈ w.lineText) : c = 0x0a ∨ c = 0x09 := by
  rw [lineText] at h
  split_ifs at h
  · rcases List.mem_cons.mp h with rfl | h
    · exact .inl rfl
    · exact .inr (List.mem_replicate.mp h).2
  · cases h

theorem spaces_lineText (w : JsonWriter) : Spaces w.lineText := by
  intro c hc
  rcases mem_lineText hc with rfl | rfl <;> decide

theorem plainly_lineText {a : Prop} (w : JsonWriter) : Plainly a w.lineText := by
  refine plainly_of_lt fun c hc => ?_
  rcases mem_lineText hc with rfl | rfl <;> decide

@[simp] theorem inner_encoding (w : JsonWriter) : w.inner.encoding = w.encoding := by
  rw [inner]
  split_ifs <;> rfl

theorem inner_level {w : JsonWriter} (h : 0 ≤ w.level) : 0 ≤ w.inner.level := by
  rw [inner]
  split_ifs
  · exact Int.add_nonneg h (by decide)
  · exact h

theorem wrote_inner (w : JsonWriter) (t : Bytes) : (w.wrote t).inner = w.inner.wrote t := by
  rw [inner, inner]
  split_ifs <;> first | rfl | contradiction

/-- The start of a container. -/
theorem openBracket_apply (c : UInt8) (w : JsonWriter) :
    openBracket c w = .ok () (w.inner.wrote (w.lineText ++ c :: w.inner.lineText)) := by
  have hinc (w : JsonWriter) : incLevel w = .ok () w.inner := rfl
  rw [openBracket, bind_of_ok (newLine_apply w), bind_of_ok (put_apply _ _), bind_of_ok (hinc _),
    newLine_apply, wrote_wrote, wrote_inner, wrote_wrote, List.append_assoc]
  rfl

/-- The end of a container, within it. -/
theorem closeBracket_apply (c : UInt8) {w : JsonWriter} (hlevel : 0 ≤ w.level) (t : Bytes) :
    closeBracket c (w.inner.wrote t) = .ok () (w.wrote (t ++ (w.lineText ++ [c]))) := by
  have hdec : decLevel (w.inner.wrote t) = .ok () (w.wrote t) := by
    rw [decLevel, bind_of_ok (get_apply _), ← wrote_inner, inner]
    cases hpretty : w.pretty with
    | true =>
      have hbefore : (w.wrote t).pretty = true := hpretty
      rw [if_pos hbefore, if_pos hbefore, bind_of_ok (modify_apply _ _), bind_of_ok (get_apply _),
        Int.add_sub_cancel]
      have hassert : decide (0 ≤ (w.wrote t).level) = true := decide_eq_true hlevel
      rw [hassert]
      rfl
    | false =>
      have hbefore : ¬ (w.wrote t).pretty = true := by
        rw [Bool.not_eq_true]
        exact hpretty
      rw [if_neg hbefore, if_neg hbefore]
      rfl
  rw [closeBracket, bind_of_ok hdec, bind_of_ok (newLine_apply _), put_apply, wrote_wrote,
    wrote_wrote]
  rfl

/-- The text between the brackets of a container. -/
def Enclosed (c d : UInt8) (w : JsonWriter) (T : Bytes → Prop) (t : Bytes) : Prop :=
  ∃ b, T b ∧ t = w.lineText ++ c :: (w.inner.lineText ++ (b ++ (w.lineText ++ [d])))

/-- A container is written when what is in it is. -/
theorem spells_container {P : Prop} {T : Bytes → Prop} {body : Exec JsonWriter Unit} (c d : UInt8)
    {w : JsonWriter} (hlevel : 0 ≤ w.level) (hbody : ∀ t, Spells P T body (w.inner.wrote t)) :
    Spells P (Enclosed c d w T) (do openBracket c; body; closeBracket d) w := by
  rcases hbody (w.lineText ++ c :: w.inner.lineText) with ⟨hP, b, hrun, hb⟩ | ⟨hP, e, w', hthrows⟩
  · refine .inl ⟨hP, _, ?_, b, hb, rfl⟩
    rw [bind_of_ok (openBracket_apply c w), bind_of_ok hrun, wrote_wrote,
      closeBracket_apply d hlevel]
    simp
  · exact .inr ⟨hP, e, w', by rw [bind_of_ok (openBracket_apply c w), bind_of_error hthrows]⟩

/-! ## Values -/

section

variable [Platform] (convert : Bool) (a : Prop)

/-- White space and a text that means a value. -/
def ValueText (v : Value) (t : Bytes) : Prop :=
  ∃ s p j, t = s ++ p ∧ Spaces s ∧ Denotes .value p j ∧ j.Means convert v ∧ Plainly a t

/-- White space and a text that means the elements of an array, also with white space behind it. -/
def ElementsText (es : List Value) (t : Bytes) : Prop :=
  ∃ s p js, t = s ++ p ∧ Spaces s ∧ (∀ u, Spaces u → Denotes .elements (p ++ u) js) ∧
    List.Forall₂ (Tree.Means convert) js es ∧ Plainly a t

/-- A text that means the members of a map, also with white space behind it. -/
def MembersText (ms : List (Bytes × Value)) (t : Bytes) : Prop :=
  ∃ js, (∀ u, Spaces u → Denotes .members (t ++ u) js) ∧
    List.Forall₂ (fun j m => j.1 = m.1 ∧ Tree.Means convert j.2 m.2) js ms ∧ Plainly a t

end

section

variable [Platform] {convert : Bool} {a : Prop} {l : Bytes} (hl : Spaces l) (hla : Plainly a l)

/-- A value without white space before it. -/
theorem valueText_of_denotes {v : Value} {p : Bytes} {j : Tree} (hp : Denotes .value p j)
    (hj : j.Means convert v) (ha : Plainly a p) : ValueText convert a v p :=
  ⟨[], p, j, rfl, spaces_nil, hp, hj, ha⟩

/-- A last element. -/
theorem ValueText.element {v : Value} {t : Bytes} (h : ValueText convert a v t) :
    ElementsText convert a [v] t := by
  obtain ⟨s, p, j, rfl, hs, hp, hj, ha⟩ := h
  exact ⟨s, p, [j], rfl, hs, fun u hu => .lastElement hp hu, .cons hj .nil, ha⟩

include hl hla

/-- An element, a comma and more elements. -/
theorem ValueText.elements {v : Value} {es : List Value} {t t' : Bytes}
    (h : ValueText convert a v t) (h' : ElementsText convert a es t') :
    ElementsText convert a (v :: es) (t ++ (0x2c :: l ++ t')) := by
  obtain ⟨s, p, j, rfl, hs, hp, hj, ha⟩ := h
  obtain ⟨s', p', js, rfl, hs', hp', hjs, ha'⟩ := h'
  refine ⟨s, p ++ (0x2c :: l ++ (s' ++ p')), j :: js, by simp, hs, fun u hu => ?_, .cons hj hjs, ?_⟩
  · have hdenotes := Denotes.element hp spaces_nil (hl.append hs') (hp' u hu)
    simpa using hdenotes
  · have hcomma : Plainly a [0x2c] := plainly_of_lt (by decide +kernel)
    have hall := ha.append ((hcomma.append hla).append ha')
    simpa using hall

omit hl hla in
/-- A last member. -/
theorem StringText.member {k : Bytes} {v : Value} {q t : Bytes} (hq : StringText a k q)
    (h : ValueText convert a v t) : MembersText convert a [(k, v)] (q ++ (0x3a :: t)) := by
  obtain ⟨u, rfl, hchars, hqa⟩ := hq
  obtain ⟨s, p, j, rfl, hs, hp, hj, ha⟩ := h
  refine ⟨[(k, j)], fun w hw => ?_, .cons ⟨rfl, hj⟩ .nil, ?_⟩
  · have hdenotes := Denotes.lastMember hchars spaces_nil hs hp hw
    simpa using hdenotes
  · have hcolon : Plainly a [0x3a] := plainly_of_lt (by decide +kernel)
    have hall := hqa.append (hcolon.append ha)
    simpa using hall

/-- A member, a comma and more members. -/
theorem StringText.members {k : Bytes} {v : Value} {ms : List (Bytes × Value)} {q t t' : Bytes}
    (hq : StringText a k q) (h : ValueText convert a v t) (h' : MembersText convert a ms t') :
    MembersText convert a ((k, v) :: ms) (q ++ (0x3a :: t) ++ (0x2c :: l ++ t')) := by
  obtain ⟨u, rfl, hchars, hqa⟩ := hq
  obtain ⟨s, p, j, rfl, hs, hp, hj, ha⟩ := h
  obtain ⟨js, hp', hjs, ha'⟩ := h'
  refine ⟨(k, j) :: js, fun w hw => ?_, .cons ⟨rfl, hj⟩ hjs, ?_⟩
  · have hdenotes := Denotes.member hchars spaces_nil hs hp spaces_nil hl (hp' w hw)
    simpa using hdenotes
  · have hcolon : Plainly a [0x3a] := plainly_of_lt (by decide +kernel)
    have hcomma : Plainly a [0x2c] := plainly_of_lt (by decide +kernel)
    have hall := (hqa.append (hcolon.append ha)).append ((hcomma.append hla).append ha')
    simpa using hall

end

section

variable {convert : Bool} {a : Prop} {w : JsonWriter} {t : Bytes}

/-- The text of a container is one of ASCII if what is in it is. -/
theorem Plainly.enclosed {c d : UInt8} {b : Bytes} (hc : c < 0x80) (hd : d < 0x80)
    (hb : Plainly a b) :
    Plainly a (w.lineText ++ c :: (w.inner.lineText ++ (b ++ (w.lineText ++ [d])))) := by
  have hc' : Plainly a [c] := plainly_of_lt (List.forall_mem_singleton.mpr hc)
  have hd' : Plainly a [d] := plainly_of_lt (List.forall_mem_singleton.mpr hd)
  have hline := plainly_lineText (a := a) w
  have hinner := plainly_lineText (a := a) w.inner
  have hall := hline.append (hc'.append (hinner.append (hb.append (hline.append hd'))))
  simpa using hall

variable [Platform]

/-- An array. -/
theorem valueText_array {es : List Value} {c : ℕ}
    (hlen : es.length ≤ maxPushedElements) (hx : convert = true → EventTree.extension? es = none)
    (h : Enclosed 0x5b 0x5d w (fun t => (es = [] ∧ t = []) ∨ ElementsText convert a es t) t) :
    ValueText convert a (.array es c) t := by
  obtain ⟨b, ⟨rfl, rfl⟩ | ⟨s, p, js, rfl, hs, hp, hjs, ha⟩, rfl⟩ := h
  · have hempty := Denotes.emptyArray ((spaces_lineText w.inner).append (spaces_lineText w))
    refine ⟨w.lineText, _, _, rfl, spaces_lineText w, ?_, Tree.means_array .nil hlen hx c,
      Plainly.enclosed (by decide) (by decide) nofun⟩
    simpa using hempty
  · have harray := Denotes.array ((spaces_lineText w.inner).append hs) (hp _ (spaces_lineText w))
    refine ⟨w.lineText, _, _, rfl, spaces_lineText w, ?_, Tree.means_array hjs hlen hx c,
      Plainly.enclosed (by decide) (by decide) ha⟩
    simpa using harray

/-- A map. -/
theorem valueText_map {ms : List (Bytes × Value)} {c : ℕ} (hlen : ms.length ≤ Value.maxMapCapacity)
    (h : Enclosed 0x7b 0x7d w (fun t => (ms = [] ∧ t = []) ∨ MembersText convert a ms t) t) :
    ValueText convert a (.map ms c) t := by
  obtain ⟨b, ⟨rfl, rfl⟩ | ⟨js, hp, hjs, ha⟩, rfl⟩ := h
  · have hempty := Denotes.emptyObject ((spaces_lineText w.inner).append (spaces_lineText w))
    refine ⟨w.lineText, _, _, rfl, spaces_lineText w, ?_, Tree.means_object .nil hlen c,
      Plainly.enclosed (by decide) (by decide) nofun⟩
    simpa using hempty
  · have hobject := Denotes.object (spaces_lineText w.inner) (hp _ (spaces_lineText w))
    refine ⟨w.lineText, _, _, rfl, spaces_lineText w, ?_, Tree.means_object hjs hlen c,
      Plainly.enclosed (by decide) (by decide) ha⟩
    simpa using hobject

end

/-! ## Leaves -/

/-- The characters of a text in base 64 that takes one line stand for themselves. -/
theorem chars_self {t : Bytes} (h : ∀ c ∈ t, 0x20 ≤ c ∧ c ≠ 0x22 ∧ c ≠ 0x5c) : Chars t t := by
  induction t with
  | nil => exact .nil
  | cons c t ih =>
    obtain ⟨⟨hlow, hquote, hslash⟩, ht⟩ := List.forall_mem_cons.mp h
    exact .cons (.unescaped hlow hquote hslash) (ih ht)

/-- A character of a text in base 64. -/
def Base64Text (c : UInt8) : Prop := 0x20 ≤ c ∧ c ≠ 0x22 ∧ c ≠ 0x5c ∧ c < 0x80

theorem base64Text_pad : Base64Text 0x3d := ⟨by decide, by decide, by decide, by decide⟩

theorem base64Text_char {s : ℕ} (hs : s < 64) : Base64Text (Internal.base64Char s) := by
  have hchars : ∀ s < 64, 0x20 ≤ Internal.base64Char s ∧ Internal.base64Char s ≠ 0x22 ∧
      Internal.base64Char s ≠ 0x5c ∧ Internal.base64Char s < 0x80 := by
    decide +kernel
  exact hchars s hs

/-- A text in base 64, which has the end of a line where the condition holds. -/
def Base64Lines (P : Prop) (t : Bytes) : Prop :=
  (∀ c ∈ t, Base64Text c ∨ c = 0x0a) ∧ ((0x0a : UInt8) ∈ t ↔ P)

theorem Base64Lines.append {P : Prop} {t t' : Bytes} (ht : ∀ c ∈ t, Base64Text c)
    (h : Base64Lines P t') : Base64Lines P (t ++ t') := by
  have hnot : (0x0a : UInt8) ∉ t := fun hmem => absurd (ht _ hmem).1 (by decide)
  refine ⟨List.forall_mem_append.mpr ⟨fun c hc => .inl (ht c hc), h.1⟩, ?_⟩
  rw [List.mem_append, or_iff_right hnot, h.2]

theorem base64Lines_nil {P : Prop} (h : ¬ P) : Base64Lines P [] :=
  ⟨nofun, iff_of_false List.not_mem_nil h⟩

/-- A line is ended where the data goes on behind it. -/
theorem base64Lines_encodeFrom {quad : ℕ} (hquad : quad < 16) (b : Bytes) :
    Base64Lines (3 * (16 - quad) < b.length) (Internal.base64EncodeFrom quad b) := by
  induction quad, b using Internal.base64EncodeFrom.induct with
  | case1 quad b₀ b₁ b₂ rest ih₀ ih₁ =>
    have hquantum : ∀ c ∈ [Internal.base64Char (b₀.toNat >>> 2),
        Internal.base64Char (((b₀.toNat &&& 0x03) <<< 4) + (b₁.toNat >>> 4)),
        Internal.base64Char (((b₁.toNat &&& 0x0f) <<< 2) + (b₂.toNat >>> 6)),
        Internal.base64Char (b₂.toNat &&& 0x3f)], Base64Text c := by
      simp only [List.forall_mem_cons]
      exact ⟨base64Text_char (Internal.sextet₀_lt b₀), base64Text_char (Internal.sextet₁_lt b₀ b₁),
        base64Text_char (Internal.sextet₂_lt b₁ b₂), base64Text_char (Internal.sextet₃_lt b₂),
        fun _ hc => absurd hc List.not_mem_nil⟩
    rw [Internal.base64EncodeFrom]
    refine .append hquantum ?_
    rw [List.length_cons, List.length_cons, List.length_cons]
    by_cases hlast : quad + 1 = Internal.maxQuadLength
    · have hquad : quad = 15 := Nat.succ.inj hlast
      subst hquad
      rw [if_pos hlast]
      by_cases hrest : rest = []
      · rw [if_pos hrest, hrest]
        exact base64Lines_nil (by decide)
      · have hlength := List.length_pos_iff.mpr hrest
        obtain ⟨hchars, -⟩ := ih₀ (by decide)
        rw [if_neg hrest, List.singleton_append]
        refine ⟨List.forall_mem_cons.mpr ⟨.inr rfl, hchars⟩, iff_of_true List.mem_cons_self ?_⟩
        omega
    · have hnext : quad + 1 < 16 := lt_of_le_of_ne hquad hlast
      rw [if_neg hlast]
      obtain ⟨hchars, hnewline⟩ := ih₁ hnext
      refine ⟨hchars, hnewline.trans ?_⟩
      constructor <;> intro h <;> omega
  | case2 quad b₀ b₁ =>
    have hchars : ∀ c ∈ Internal.base64EncodeFrom quad [b₀, b₁], Base64Text c := by
      simp only [Internal.base64EncodeFrom, List.forall_mem_cons]
      exact ⟨base64Text_char (Internal.sextet₀_lt b₀), base64Text_char (Internal.sextet₁_lt b₀ b₁),
        base64Text_char (Internal.sextet₂_lt b₁ 9), base64Text_pad,
        fun _ hc => absurd hc List.not_mem_nil⟩
    rw [← List.append_nil (Internal.base64EncodeFrom quad [b₀, b₁])]
    refine .append hchars (base64Lines_nil ?_)
    simp only [List.length_cons, List.length_nil]
    omega
  | case3 quad b₀ =>
    have hchars : ∀ c ∈ Internal.base64EncodeFrom quad [b₀], Base64Text c := by
      simp only [Internal.base64EncodeFrom, List.forall_mem_cons]
      exact ⟨base64Text_char (Internal.sextet₀_lt b₀), base64Text_char (Internal.sextet₁_lt b₀ 0),
        base64Text_pad, base64Text_pad,
        fun _ hc => absurd hc List.not_mem_nil⟩
    rw [← List.append_nil (Internal.base64EncodeFrom quad [b₀])]
    refine .append hchars (base64Lines_nil ?_)
    simp only [List.length_cons, List.length_nil]
    omega
  | case4 =>
    exact base64Lines_nil (Nat.not_lt_zero _)

theorem base64Lines_encode (b : Bytes) :
    Base64Lines (48 < b.length) (Internal.base64Encode b) :=
  have hquad : 0 < 16 := by decide
  base64Lines_encodeFrom hquad b

variable [Platform]

section

variable {convert : Bool} (w : JsonWriter)

omit [Platform] in
theorem decimal_eq_decimalInt {n : ℕ} {z : ℤ} (h : (n : ℤ) = z) : decimal n = decimalInt z := by
  subst h
  rw [decimalInt, if_neg (by omega), Int.natAbs_natCast]

/-- An integer is written as it is. -/
theorem number_apply {z : ℤ} (hz : Number.InRange z) :
    (handle (.scalar (Value.numberScalar (.ofInteger z))) : Exec JsonWriter Unit) w =
      .ok () (w.wrote (decimalInt z)) := by
  obtain ⟨T, -, hfits, hscalar⟩ := IntegerType.numberScalar_ofInteger hz
  have hinteger := IntegerType.integer?_scalar hfits
  rw [hscalar]
  cases T with
  | int =>
    have htext : (BitVec.ofInt 32 z).toInt = z := Option.some.inj hinteger
    show put (decimalInt (BitVec.ofInt 32 z).toInt) w = _
    rw [htext, put_apply]
  | int64 =>
    have htext : (BitVec.ofInt 64 z).toInt = z := Option.some.inj hinteger
    show put (decimalInt (BitVec.ofInt 64 z).toInt) w = _
    rw [htext, put_apply]
  | unsigned =>
    have htext : ((BitVec.ofInt 32 z).toNat : ℤ) = z := Option.some.inj hinteger
    show put (decimal (BitVec.ofInt 32 z).toNat) w = _
    rw [decimal_eq_decimalInt htext, put_apply]
  | uint64 =>
    have htext : ((BitVec.ofInt 64 z).toNat : ℤ) = z := Option.some.inj hinteger
    show put (decimal (BitVec.ofInt 64 z).toNat) w = _
    rw [decimal_eq_decimalInt htext, put_apply]

/-- The text of an integer. -/
theorem valueText_integer {a : Prop} {z : ℤ} (hz : Number.InRange z) :
    ValueText convert a (.number (.ofInteger z)) (decimalInt z) := by
  obtain ⟨htext, -⟩ := decimalInt_eq_literal z
  have hdenotes : Denotes .value (decimalInt z)
      (.integer (decide (z < 0)) (decimal z.natAbs)) := by
    rw [htext]
    exact .integer (intDigits_decimal z.natAbs)
  refine valueText_of_denotes hdenotes (Tree.means_integer hz) (plainly_of_lt fun c hc => ?_)
  have hdigits : ∀ c ∈ decimal z.natAbs, c < 0x80 := fun c hc => by
    obtain ⟨d, hd, rfl⟩ := mem_decimal hc
    rw [UInt8.lt_iff_toNat_lt, toNat_digitChar hd]
    exact (by omega : 0x30 + d < 0x80)
  rw [decimalInt] at hc
  split_ifs at hc
  · rcases List.mem_cons.mp hc with rfl | hc
    · decide
    · exact hdigits c hc
  · exact hdigits c hc

/-- The text of a binary. -/
def binaryText (b : Bytes) : Bytes :=
  0x5b :: (quoted Document.base64String ++ 0x2c :: (quoted (Internal.base64Encode b) ++ [0x5d]))

omit [Platform] in
theorem binary_apply (b : Bytes) (w : JsonWriter) : binary b w = .ok () (w.wrote (binaryText b)) := by
  have hopen : ascii "[\"" = [0x5b, 0x22] := by decide
  have hcomma : ascii "\",\"" = [0x22, 0x2c, 0x22] := by decide
  have hclose : ascii "\"]" = [0x22, 0x5d] := by decide
  rw [binary, bind_of_ok (put_apply _ w), bind_of_ok (put_apply _ _), put_apply, hopen, hcomma, hclose,
    binaryText]
  simp [quoted]

omit [Platform] in
theorem chars_base64String : Chars Document.base64String Document.base64String :=
  chars_self (by decide +kernel)

/-- The text of a binary that takes one line. -/
theorem valueText_binary {a : Prop} {b : Bytes} (hb : b ≠ []) (hlen : b.length ≤ 48) :
    ValueText true a (.binary b) (binaryText b) := by
  obtain ⟨hlines, hnewline⟩ := base64Lines_encode b
  have htext : ∀ c ∈ Internal.base64Encode b, Base64Text c := fun c hc =>
    (hlines c hc).resolve_right fun h => absurd (hnewline.mp (h ▸ hc)) (not_lt.mpr hlen)
  have hchars : Chars (Internal.base64Encode b) (Internal.base64Encode b) :=
    chars_self fun c hc => ⟨(htext c hc).1, (htext c hc).2.1, (htext c hc).2.2.1⟩
  have hdenotes := Denotes.array spaces_nil (.element (.string chars_base64String) spaces_nil
    spaces_nil (.lastElement (.string hchars) spaces_nil))
  have hopen : Plainly a (0x5b :: (quoted Document.base64String ++ [0x2c, 0x22])) :=
    plainly_of_lt (by decide +kernel)
  have hmiddle : Plainly a (Internal.base64Encode b) := plainly_of_lt fun c hc => (htext c hc).2.2.2
  have hclose : Plainly a [0x22, 0x5d] := plainly_of_lt (by decide +kernel)
  refine valueText_of_denotes ?_ (Tree.means_binary hb) ?_
  · simpa [binaryText, quoted] using hdenotes
  · simpa [binaryText, quoted] using (hopen.append hmiddle).append hclose

end

/-! ## Traversals -/

variable (convert : Bool)

/-- A traversal of the value writes a text that means it, or is refused. -/
def Written (v : Value) : Prop := ∀ w : JsonWriter, 0 ≤ w.level →
  Spells (w.encoding = .ascii → v.All Value.IsUtf8) (ValueText convert (w.encoding = .ascii) v)
    (run v.tree.events) w

variable {convert}

omit [Platform] in
/-- A comma, and the end of a line. -/
theorem separator_apply (w : JsonWriter) : separator w = .ok () (w.wrote (0x2c :: w.lineText)) := by
  rw [separator, bind_of_ok (put_apply _ w), newLine_apply, wrote_wrote]
  rfl

/-- The loop over the elements. -/
theorem spells_elements {es : List Value} (hes : ∀ e ∈ es, Written convert e) (w : JsonWriter)
    (hw : 0 ≤ w.level) : Spells (w.encoding = .ascii → ∀ e ∈ es, e.All Value.IsUtf8)
      (fun t => (es = [] ∧ t = []) ∨ ElementsText convert (w.encoding = .ascii) es t)
      (run (EventTree.elementEvents (es.map Value.tree))) w := by
  induction es generalizing w with
  | nil =>
    refine (spells_of_ok (t := []) ?_ (.inl ⟨rfl, rfl⟩)).congr (by simp)
    rw [wrote_nil]
    rfl
  | cons e es ih =>
    have hfirst := hes e List.mem_cons_self w hw
    have hmore (t : Bytes) : Spells (w.encoding = .ascii → ∀ e ∈ es, e.All Value.IsUtf8)
        (fun t => (es = [] ∧ t = []) ∨ ElementsText convert (w.encoding = .ascii) es t)
        (run (EventTree.elementEvents (es.map Value.tree))) (w.wrote t) :=
      ih (fun e' he' => hes e' (List.mem_cons_of_mem _ he')) (w.wrote t) hw
    rw [List.map_cons, EventTree.elementEvents_cons, run_append, List.length_map]
    cases es with
    | nil =>
      have hrest (t : Bytes) : Spells True (· = []) (run []) (w.wrote t) :=
        spells_of_ok (t := []) (by rw [wrote_nil]; rfl) rfl
      refine (hfirst.seq (fun t _ => hrest t) fun t t' ht ht' => ?_).congr (by simp)
      rw [ht', List.append_nil]
      exact .inr ht.element
    | cons e' es =>
      have hseparator (t : Bytes) : Spells True (· = 0x2c :: w.lineText) separator (w.wrote t) :=
        spells_of_ok (separator_apply _) rfl
      have hrest (t : Bytes) : Spells (True ∧ (w.encoding = .ascii →
            ∀ e ∈ e' :: es, e.All Value.IsUtf8))
          (fun t => ∃ t', t = 0x2c :: w.lineText ++ t' ∧
            ElementsText convert (w.encoding = .ascii) (e' :: es) t')
          (do separator; run (EventTree.elementEvents ((e' :: es).map Value.tree))) (w.wrote t) := by
        have hnext (t' : Bytes) := hmore (t ++ t')
        simp only [← wrote_wrote] at hnext
        refine (hseparator t).seq (fun t' _ => hnext t') fun t t' ht ht' => ?_
        obtain ⟨⟨⟩, -⟩ | htext := ht'
        exact ⟨t', by rw [ht], htext⟩
      refine (hfirst.seq (fun t _ => hrest t) fun t t' ht ht' => ?_).congr ?_
      · obtain ⟨t', rfl, htext⟩ := ht'
        exact .inr (ht.elements (spaces_lineText w) (plainly_lineText w) htext)
      · simp only [List.forall_mem_cons, imp_and, true_and]

omit [Platform] in
/-- A key and the colon behind it. -/
theorem spells_key (str : Bytes) (w : JsonWriter) : Spells (w.encoding = .ascii → WellFormed str)
    (fun t => ∃ q, t = q ++ [0x3a] ∧ StringText (w.encoding = .ascii) str q) (key str) w := by
  have hcolon (t : Bytes) : Spells True (· = [0x3a]) (put [0x3a]) (w.wrote t) := spells_of_ok rfl rfl
  refine ((spells_string str w).seq (fun t _ => hcolon t) fun t t' ht ht' => ?_).congr (by simp)
  exact ⟨t, by rw [ht'], ht⟩

/-- A key and its value. -/
theorem spells_member {k : Bytes} {v : Value} (hv : Written convert v) (w : JsonWriter)
    (hw : 0 ≤ w.level) : Spells ((w.encoding = .ascii → WellFormed k) ∧
        (w.encoding = .ascii → v.All Value.IsUtf8))
      (fun t => ∃ q t', t = q ++ (0x3a :: t') ∧ StringText (w.encoding = .ascii) k q ∧
        ValueText convert (w.encoding = .ascii) v t')
      (run (EventTree.keyEvents (some { bytes := k }) ++ v.tree.events)) w := by
  have hvalue (t : Bytes) : Spells (w.encoding = .ascii → v.All Value.IsUtf8)
      (ValueText convert (w.encoding = .ascii) v) (run v.tree.events) (w.wrote t) :=
    hv (w.wrote t) hw
  refine (spells_key k w).seq (fun t _ => hvalue t) fun t t' ht ht' => ?_
  obtain ⟨q, rfl, hq⟩ := ht
  exact ⟨q, t', by simp, hq, ht'⟩

/-- The loop over the members. -/
theorem spells_members {ms : List (Bytes × Value)} (hms : ∀ m ∈ ms, Written convert m.2)
    (w : JsonWriter) (hw : 0 ≤ w.level) :
    Spells (w.encoding = .ascii → ∀ m ∈ ms, WellFormed m.1 ∧ m.2.All Value.IsUtf8)
      (fun t => (ms = [] ∧ t = []) ∨ MembersText convert (w.encoding = .ascii) ms t)
      (run (EventTree.memberEvents (ms.map fun m => (some { bytes := m.1 }, m.2.tree)))) w := by
  induction ms generalizing w with
  | nil =>
    refine (spells_of_ok (t := []) ?_ (.inl ⟨rfl, rfl⟩)).congr (by simp)
    rw [wrote_nil]
    rfl
  | cons m ms ih =>
    have hfirst := spells_member (k := m.1) (hms m List.mem_cons_self) w hw
    have hmore (t : Bytes) :
        Spells (w.encoding = .ascii → ∀ m ∈ ms, WellFormed m.1 ∧ m.2.All Value.IsUtf8)
        (fun t => (ms = [] ∧ t = []) ∨ MembersText convert (w.encoding = .ascii) ms t)
        (run (EventTree.memberEvents (ms.map fun m => (some { bytes := m.1 }, m.2.tree))))
        (w.wrote t) :=
      ih (fun m' hm' => hms m' (List.mem_cons_of_mem _ hm')) (w.wrote t) hw
    rw [List.map_cons, EventTree.memberEvents_cons, ← List.append_assoc, run_append, List.length_map]
    cases ms with
    | nil =>
      have hrest (t : Bytes) : Spells True (· = []) (run []) (w.wrote t) :=
        spells_of_ok (t := []) (by rw [wrote_nil]; rfl) rfl
      refine (hfirst.seq (fun t _ => hrest t) fun t t' ht ht' => ?_).congr ?_
      · obtain ⟨q, t, rfl, hq, ht⟩ := ht
        rw [ht', List.append_nil]
        exact .inr (hq.member ht)
      · rw [List.forall_mem_singleton, and_true, imp_and]
    | cons m' ms =>
      have hseparator (t : Bytes) : Spells True (· = 0x2c :: w.lineText) separator (w.wrote t) :=
        spells_of_ok (separator_apply _) rfl
      have hrest (t : Bytes) : Spells (True ∧ (w.encoding = .ascii →
            ∀ m ∈ m' :: ms, WellFormed m.1 ∧ m.2.All Value.IsUtf8))
          (fun t => ∃ t', t = 0x2c :: w.lineText ++ t' ∧
            MembersText convert (w.encoding = .ascii) (m' :: ms) t')
          (do separator; run (EventTree.memberEvents ((m' :: ms).map
            fun m => (some { bytes := m.1 }, m.2.tree)))) (w.wrote t) := by
        have hnext (t' : Bytes) := hmore (t ++ t')
        simp only [← wrote_wrote] at hnext
        refine (hseparator t).seq (fun t' _ => hnext t') fun t t' ht ht' => ?_
        obtain ⟨⟨⟩, -⟩ | htext := ht'
        exact ⟨t', by rw [ht], htext⟩
      refine (hfirst.seq (fun t _ => hrest t) fun t t' ht ht' => ?_).congr ?_
      · obtain ⟨q, t, rfl, hq, ht⟩ := ht
        obtain ⟨t', rfl, htext⟩ := ht'
        exact .inr (hq.members (spaces_lineText w) (plainly_lineText w) ht htext)
      · rw [true_and, ← imp_and, ← imp_and, List.forall_mem_cons (a := m)]

/-- A leaf that puts a text. -/
theorem written_of_put {v : Value} {t : Bytes} (hutf8 : v.All Value.IsUtf8)
    (htext : ∀ a, ValueText convert a v t)
    (hput : ∀ w : JsonWriter, run v.tree.events w = .ok () (w.wrote t)) : Written convert v :=
  fun w _ => (spells_of_ok (hput w) (htext _)).congr (by simp [hutf8])

/-- Every value of these nodes is written. -/
theorem written {v : Value} (hv : v.All (Value.IsJson convert)) : Written convert v := by
  induction v using Value.induction with
  | invalid | dateTime dt => exact hv.elim
  | null =>
    refine written_of_put trivial (fun a => ?_) fun w => by rw [← put_apply]; rfl
    exact valueText_of_denotes .null Tree.means_null (plainly_of_lt (by decide +kernel))
  | bool b =>
    cases b with
    | true =>
      refine written_of_put trivial (fun a => ?_) fun w => by rw [← put_apply]; rfl
      exact valueText_of_denotes .true (Tree.means_bool true) (plainly_of_lt (by decide +kernel))
    | false =>
      refine written_of_put trivial (fun a => ?_) fun w => by rw [← put_apply]; rfl
      exact valueText_of_denotes .false (Tree.means_bool false) (plainly_of_lt (by decide +kernel))
  | number n =>
    obtain ⟨z, hz, rfl⟩ := hv
    refine written_of_put trivial (fun a => valueText_integer hz) fun w => ?_
    rw [← number_apply w hz]
    exact congrFun (run_singleton _) w
  | binary b =>
    obtain ⟨rfl, hb, hlen⟩ := hv
    refine written_of_put trivial (fun a => valueText_binary hb hlen) fun w => ?_
    have hrun : run (Value.binary b).tree.events = binary b := run_singleton _
    rw [hrun, binary_apply]
  | string str =>
    intro w hw
    have hrun : run (Value.string str).tree.events = string str := run_singleton _
    rw [hrun]
    refine (spells_string str w).mono fun t ht => ?_
    obtain ⟨u, rfl, hchars, ha⟩ := ht
    exact valueText_of_denotes (.string hchars) (Tree.means_string str) ha
  | array es c ih =>
    obtain ⟨⟨hlen, hx⟩, hes⟩ := Value.all_array.mp hv
    intro w hw
    have hbody (t : Bytes) : Spells (w.encoding = .ascii → ∀ e ∈ es, e.All Value.IsUtf8)
        (fun t => (es = [] ∧ t = []) ∨ ElementsText convert (w.encoding = .ascii) es t)
        (run (EventTree.elementEvents (es.map Value.tree))) (w.inner.wrote t) := by
      have h := spells_elements (fun e he => ih e he (hes e he)) (w.inner.wrote t) (inner_level hw)
      rwa [wrote_encoding, inner_encoding] at h
    have hrun : run (Value.array es c).tree.events = (do
        openBracket 0x5b
        run (EventTree.elementEvents (es.map Value.tree))
        closeBracket 0x5d : Exec JsonWriter Unit) := by
      rw [Value.tree_array, EventTree.events, run_cons, run_append, run_singleton]
      rfl
    rw [hrun]
    refine ((spells_container 0x5b 0x5d hw hbody).mono fun t ht => ?_).congr ?_
    · exact valueText_array hlen hx ht
    · rw [Value.all_array]
      exact imp_congr_right fun _ => (and_iff_right trivial).symm
  | map ms c ih =>
    obtain ⟨hlen, hms⟩ := Value.all_map.mp hv
    intro w hw
    have hbody (t : Bytes) :
        Spells (w.encoding = .ascii → ∀ m ∈ ms, WellFormed m.1 ∧ m.2.All Value.IsUtf8)
        (fun t => (ms = [] ∧ t = []) ∨ MembersText convert (w.encoding = .ascii) ms t)
        (run (EventTree.memberEvents (ms.map fun m => (some { bytes := m.1 }, m.2.tree))))
        (w.inner.wrote t) := by
      have h := spells_members (fun m hm => ih m hm (hms m hm)) (w.inner.wrote t) (inner_level hw)
      rwa [wrote_encoding, inner_encoding] at h
    have hrun : run (Value.map ms c).tree.events = (do
        openBracket 0x7b
        run (EventTree.memberEvents (ms.map fun m => (some { bytes := m.1 }, m.2.tree)))
        closeBracket 0x7d : Exec JsonWriter Unit) := by
      rw [Value.tree_map, EventTree.events, run_cons, run_append, run_singleton]
      rfl
    rw [hrun]
    refine ((spells_container 0x7b 0x7d hw hbody).mono fun t ht => ?_).congr ?_
    · exact valueText_map hlen ht
    · rw [Value.all_map, Value.IsUtf8, forall₂_and]

end JsonWriter

end AnyRpc
