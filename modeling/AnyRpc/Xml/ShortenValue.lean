import AnyRpc.Xml.ShortenText

/-! # The values of a document and its short form

Each value is read by both runs alike, up to the empty values: where they are written in the short
form, the second run makes their call by itself. -/

namespace AnyRpc.XmlReader

open Library Reader XmlTag

section

variable {root : XmlTagName} {P : Prop} {k : Context} {skip : Bool} {n : ℕ}
  {s s' : ReaderState XmlReader}

/-- An empty tag does not close an element that is open. -/
theorem Context.next_empty {depth : ℕ} {last : Last} (hlast : last ≠ .methodResponse)
    (element : XmlTagName) :
    (Context.body depth last).next root (.empty element) =
      .closed depth (Last.of (.empty element)) := by
  rw [Context.next, if_neg fun h => hlast h.1]

/-- Both runs read the tag of an empty element. -/
theorem Linked.inside {depth : ℕ} {last : Last} {element : XmlTagName}
    (h : Linked root P (.text ((Context.body (depth + 1) last).next root (.empty element))) false n
      s s') (hlast : last ≠ .methodResponse) : Inside root P (depth + 1) n s s' := by
  rw [Context.next_empty hlast] at h
  exact ⟨_, Last.of_empty_ne element, h⟩

/-! ## Empty values -/

/-- What reading an empty value in the long form does, from behind its first tag. -/
structure EmptyRead (t : Bytes) (s s₁ : ReaderState XmlReader) : Prop where
  rest : s₁.is.rest = t
  skip : s₁.sub.tagSkipFirstChar = false
  inSitu : s₁.is.inSitu = s.is.inSitu
  copy : s₁.is.copy = s.is.copy
  events : s₁.events = s.events ++ [.scalar (.string { bytes := [], copy := s.is.copy })]

/-- What the two runs have to do with a value. -/
structure ValuesFollow (root : XmlTagName) (P : Prop) (N : ℕ)
    (parseValue parseValue' : Bool → ReadM Unit) : Prop where
  /-- A value behind its first tag. -/
  body {depth n : ℕ} {s s' : ReaderState XmlReader} (hn : n ≤ N)
    (h : Linked root P (.text (.body (depth + 1) .other)) false n s s') :
    Mirrors (¬ P) (fun _ s _ s' => Linked root P (.text (.closed depth .value)) false n s s')
      (parseValue true s) (parseValue' true s')
  /-- A value with its first tag. -/
  value {depth n : ℕ} {s s' : ReaderState XmlReader} (hn : n ≤ N)
    (h : Linked root P (.text (.body depth .other)) false n s s') :
    Mirrors (¬ P) (fun _ s _ s' => Linked root P (.text (.closed depth .value)) false n s s')
      (parseValue false s) (parseValue' false s')
  /-- An empty value of the first document. -/
  empty {t : Bytes} {s s₁ : ReaderState XmlReader} (hskip : s.sub.tagSkipFirstChar = false)
    (hrest : s.is.rest = ascii "</value>" ++ t) (hrun : parseValue true s = .ok () s₁) :
    EmptyRead t s s₁

/-- An empty value of the second document, where it is harmless. -/
theorem Cut.mirrors {depth : ℕ} {last : Last} (h : Cut root P (.body depth last) .value n s s')
    (hlast : last ≠ .value) {p : ReadM Unit}
    (hp : ∀ {t s₁}, s.is.rest = ascii "</value>" ++ t → p s = .ok () s₁ → EmptyRead t s s₁) :
    Mirrors (¬ P) (fun _ s _ s' => Linked root P (.text (.closed depth .value)) false n s s')
      (p s) (parseEmptyString s') := by
  rintro _ s₁ hrun
  obtain ⟨t, l, ls, hrest, hl, hls, hagree⟩ := h.texts
  have hempty := hp hrest hrun
  refine .inl ⟨(), _, rfl, ?_⟩
  refine ⟨hempty.skip, h.skip_right, h.inSitu.trans hempty.inSitu.symm,
    h.copy.trans hempty.copy.symm, h.left, ls, ?_, ?_⟩
  · rw [hempty.rest]
    exact hls
  · rw [hempty.events]
    simpa [ReaderState.events, h.copy] using
      (hagree.tail (hl.mpr hlast)).append [.scalar (.string { bytes := [], copy := s.is.copy })]

/-- An empty value of the second document without the separator in front of it. -/
theorem Cut.diverges {depth : ℕ} (h : Cut root P (.body depth .value) .value n s s')
    {p : ReadM Unit} (hp : ∀ {t s₀ s₁}, s₀.sub.tagSkipFirstChar = false →
      s₀.is.rest = ascii "</value>" ++ t → p s₀ = .ok () s₁ → EmptyRead t s₀ s₁) :
    Mirrors (¬ P) (fun _ s _ s' => Linked root P (.text (.closed depth .value)) false n s s')
      ((do Reader.call .arraySeparator; p : ReadM Unit) s) (parseEmptyString s') := by
  rintro _ s₁ hrun
  obtain ⟨t, l, ls, hrest, hl, hls, hagree⟩ := h.texts
  let s₀ : ReaderState XmlReader := { s with calls := s.calls ++ [⟨.arraySeparator, s.is.tell⟩] }
  have hrun' : p s₀ = .ok () s₁ := hrun
  have hempty : EmptyRead t s₀ s₁ := hp h.skip_left hrest hrun'
  have hbehind : ¬ l.Harmless := fun h => hl.mp h rfl
  refine .inl ⟨(), _, rfl, ?_⟩
  refine ⟨hempty.skip, h.skip_right, h.inSitu.trans hempty.inSitu.symm,
    h.copy.trans hempty.copy.symm, h.left, ls, ?_, ?_⟩
  · rw [hempty.rest]
    exact hls
  · rw [hempty.events]
    simpa [s₀, ReaderState.events, h.copy] using
      hagree.diverge hbehind { bytes := [], copy := s.is.copy }

/-! ## Empty containers -/

/-- Both runs make the calls for an empty array. -/
theorem mirrors_parseEmptyArray {l : Lex} (h : Linked root P l skip n s s') :
    Mirrors (¬ P) (fun _ s _ s' => Linked root P l skip n s s') (parseEmptyArray s)
      (parseEmptyArray s') :=
  mirrors_ok ((h.call _).call _)

/-- Both runs make the calls for an empty map. -/
theorem mirrors_parseEmptyMap {l : Lex} (h : Linked root P l skip n s s') :
    Mirrors (¬ P) (fun _ s _ s' => Linked root P l skip n s s') (parseEmptyMap s) (parseEmptyMap s') :=
  mirrors_ok ((h.call _).call _)

/-! ## Containers in front of the end of a value -/

section

variable (pv : Bool → ReadM Unit)

/-- Among elements there is no end of a value. -/
theorem refuses_parseElements (fuel count : ℕ) : Refuses (parseElements pv fuel count) := by
  cases fuel with
  | zero => exact refuses_throw _
  | succ fuel => exact Refuses.getNextTag fun _ => ⟨_, _, rfl⟩

/-- Nor is there behind the start of an array. -/
theorem refuses_parseArray : Refuses (parseArray pv) := Refuses.getNextTag fun _ => ⟨_, _, rfl⟩

/-- Nor is there among members. -/
theorem refuses_parseMembers (fuel count : ℕ) : Refuses (parseMembers pv fuel count) := by
  cases fuel with
  | zero => exact refuses_throw _
  | succ fuel => exact Refuses.getNextTag fun _ => ⟨_, _, rfl⟩

/-- Nor is there behind the start of a map. -/
theorem refuses_parseMap : Refuses (parseMap pv) :=
  have hloop : Refuses (do parseMembers pv ((← get).is.rest.length + 1) 0) :=
    .get fun _ => refuses_parseMembers pv _ _
  hloop.call _

/-- No value with the start of an element. -/
theorem refuses_parseTag [Platform] (element : XmlTagName) :
    Refuses (parseTag pv (.start element)) := by
  cases element with
  | boolean => exact refuses_parseBoolean
  | int => exact refuses_parseNumber (by decide)
  | i4 => exact refuses_parseNumber (by decide)
  | i8 => exact refuses_parseNumber (by decide)
  | double => exact refuses_parseNumber (by decide)
  | string => exact refuses_parseString
  | array => exact refuses_parseArray pv
  | struct => exact refuses_parseMap pv
  | dateTime => exact refuses_parseDateTime
  | base64 => exact refuses_parseBase64
  | _ => exact refuses_throw _

end

/-! ## Containers -/

section

variable {N depth : ℕ} {pv pv' : Bool → ReadM Unit} (hv : ValuesFollow root P N pv pv')

include hv

/-- The loop over the elements: behind the first one every element is directly behind a value. -/
theorem mirrors_parseElements (hn : n ≤ N) (fuel : ℕ) {count : ℕ} {last : Last}
    (hlast : last ≠ .methodResponse) (hcount : last = .value ↔ count ≠ 0)
    (h : Linked root P (.text (.body (depth + 3) last)) false n s s') :
    Mirrors (¬ P) (fun _ s _ s' => Inside root P (depth + 1) n s s') (parseElements pv fuel count s)
      (parseElements pv' n count s') := by
  induction n generalizing s s' fuel count last with
  | zero => exact absurd h.left (Nat.not_lt_zero _)
  | succ n ih =>
    cases fuel with
    | zero => exact mirrors_error _ _ _
    | succ fuel =>
      have hn' : n ≤ N := (Nat.le_succ n).trans hn
      -- The elements behind this one.
      have hloop {s s' : ReaderState XmlReader}
          (h : Linked root P (.text (.body (depth + 3) .value)) false n s s') :
          Mirrors (¬ P) (fun _ s _ s' => Inside root P (depth + 1) (n + 1) s s')
            (parseElements pv fuel (count + 1) s) (parseElements pv' n (count + 1) s') :=
        (ih hn' fuel (by decide) (iff_of_true rfl (Nat.succ_ne_zero count)) h).mono
          fun _ _ _ _ h => h.mono (Nat.le_succ n)
      refine (mirrors_getNextTag h Context.body_ne_done).bind ?_
      rintro tag s₁ tag' s₁' (⟨rfl, h₁⟩ | ⟨element, rfl, rfl, h₁⟩)
      · by_cases hstart : tag' = .start .value
        · subst hstart
          simp only [if_true]
          by_cases hzero : count ≠ 0
          · simp only [if_pos hzero]
            refine (mirrors_call h₁ _).bind ?_
            rintro _ s₂ _ s₂' h₂
            refine (hv.body hn' h₂).bind ?_
            rintro _ s₃ _ s₃' h₃
            exact hloop h₃
          · simp only [if_neg hzero]
            refine (hv.body hn' h₁).bind ?_
            rintro _ s₃ _ s₃' h₃
            exact hloop h₃
        · by_cases hempty : tag' = .empty .value
          · subst hempty
            rw [Context.next_empty_value] at h₁
            simp only [hstart, if_true, if_false]
            refine (mirrors_parseEmptyString h₁).bind ?_
            rintro _ s₂ _ s₂' h₂
            exact hloop h₂
          · by_cases hclose : tag' = .close .data
            · subst hclose
              simp only [hstart, hempty, if_true, if_false]
              refine (mirrors_call h₁ _).bind ?_
              rintro _ s₂ _ s₂' h₂
              exact (mirrors_close (h₂.mono (Nat.le_succ n)) .array)
            · simp only [hstart, hempty, hclose, if_false]
              exact mirrors_error _ _ _
      · by_cases hvalue : element = .value
        · subst hvalue
          have hshort : shortTag .value = .empty .value := rfl
          have hne : XmlTag.empty .value ≠ .start .value := by decide
          rw [hshort]
          simp only [hne, if_true, if_false]
          by_cases hzero : count ≠ 0
          · -- The first run makes a separator here, and the second one does not.
            simp only [if_pos hzero]
            obtain rfl : last = .value := hcount.mpr hzero
            rw [← bind_assoc]
            refine (h₁.diverges (p := pv true) hv.empty).bind ?_
            rintro _ s₂ _ s₂' h₂
            exact hloop h₂
          · -- The first element has no separator in either run.
            simp only [if_neg hzero]
            have hother : last ≠ .value := fun h => hzero (hcount.mp h)
            refine (h₁.mirrors hother (p := pv true) fun hrest => hv.empty h₁.skip_left hrest).bind ?_
            rintro _ s₂ _ s₂' h₂
            exact hloop h₂
        · exact (Refuses.ite (fun h => absurd (XmlTag.start.inj h) hvalue) fun _ =>
            .ite (fun h => nomatch h) fun _ => .ite (fun h => nomatch h) fun _ =>
              refuses_throw _).mirrors h₁.atClose

/-- Both runs read the same array. -/
theorem mirrors_parseArray (hn : n ≤ N)
    (h : Linked root P (.text (.body (depth + 2) .other)) false n s s') :
    Mirrors (¬ P) (fun _ s _ s' => Inside root P (depth + 1) n s s') (parseArray pv s)
      (parseArray pv' s') := by
  cases n with
  | zero => exact absurd h.left (Nat.not_lt_zero _)
  | succ n =>
    refine (mirrors_getNextTag h Context.body_ne_done).bind ?_
    rintro tag s₁ tag' s₁' (⟨rfl, h₁⟩ | ⟨element, rfl, rfl, hcut⟩)
    · by_cases hempty : tag' = .empty .data
      · subst hempty
        obtain ⟨last, -, h₁⟩ := h₁.inside (by decide)
        simp only [if_true]
        refine (mirrors_parseEmptyArray h₁).bind ?_
        rintro _ s₂ _ s₂' h₂
        exact mirrors_close (h₂.mono (Nat.le_succ n)) .array
      · by_cases hstart : tag' = .start .data
        · subst hstart
          simp only [hempty, if_false, ne_eq, not_true_eq_false]
          refine (mirrors_call h₁ _).bind ?_
          rintro _ s₂ _ s₂' h₂
          have htight : Linked root P (.text (.body (depth + 3) .other)) false
              (s₂'.is.rest.length + 1) s₂ s₂' := h₂.tight
          have hcount : Last.other = .value ↔ 0 ≠ 0 := by decide
          have hloop := mirrors_parseElements hv (h₂.left.trans_le ((Nat.le_succ n).trans hn))
            (s₂.is.rest.length + 1) (by decide) hcount htight
          exact hloop.mono fun _ _ _ _ h => h.mono (h₂.left.trans_le (Nat.le_succ n))
        · simp only [hempty, hstart, if_false, ne_eq, not_false_eq_true, if_true]
          exact mirrors_error _ _ _
    · -- Behind the start of the elements there has to be one, or their end.
      have hloop : Refuses (do parseElements pv ((← get).is.rest.length + 1) 0) :=
        .get fun _ => refuses_parseElements pv _ _
      exact (Refuses.ite (fun h => nomatch h) fun _ =>
        .ite (fun _ => (refuses_throw _).bind _) fun _ => hloop.call _).mirrors hcut.atClose

/-- The loop over the members. -/
theorem mirrors_parseMembers (hn : n ≤ N) (fuel count : ℕ)
    (h : Inside root P (depth + 2) n s s') :
    Mirrors (¬ P) (fun _ s _ s' => Inside root P (depth + 1) n s s') (parseMembers pv fuel count s)
      (parseMembers pv' n count s') := by
  induction n generalizing s s' fuel count with
  | zero =>
    obtain ⟨last, -, h⟩ := h
    exact absurd h.left (Nat.not_lt_zero _)
  | succ n ih =>
    obtain ⟨last, -, h⟩ := h
    cases fuel with
    | zero => exact mirrors_error _ _ _
    | succ fuel =>
      have hn' : n ≤ N := (Nat.le_succ n).trans hn
      -- A member behind its tag, and those that come next.
      have hmember {s s' : ReaderState XmlReader}
          (h : Linked root P (.text (.body (depth + 3) .other)) false n s s') :
          Mirrors (¬ P) (fun _ s _ s' => Inside root P (depth + 1) (n + 1) s s')
            ((do
              parseKey
              pv false
              expectTag (.close .member)
              parseMembers pv fuel (count + 1) : ReadM Unit) s)
            ((do
              parseKey
              pv' false
              expectTag (.close .member)
              parseMembers pv' n (count + 1) : ReadM Unit) s') := by
        refine (mirrors_parseKey h).bind ?_
        rintro _ s₁ _ s₁' h₁
        refine (hv.value hn' h₁).bind ?_
        rintro _ s₂ _ s₂' h₂
        refine (mirrors_close h₂ .member).bind ?_
        rintro _ s₃ _ s₃' h₃
        exact (ih hn' fuel (count + 1) h₃).mono fun _ _ _ _ h => h.mono (Nat.le_succ n)
      refine (mirrors_getNextTag h Context.body_ne_done).bind ?_
      rintro tag s₁ tag' s₁' (⟨rfl, h₁⟩ | ⟨element, rfl, rfl, hcut⟩)
      · by_cases hstart : tag' = .start .member
        · subst hstart
          simp only [if_true]
          by_cases hzero : count ≠ 0
          · simp only [if_pos hzero]
            refine (mirrors_call h₁ _).bind ?_
            rintro _ s₂ _ s₂' h₂
            exact hmember h₂
          · simp only [if_neg hzero]
            exact hmember h₁
        · by_cases hclose : tag' = .close .struct
          · subst hclose
            simp only [hstart, if_true, if_false]
            have hinside : Inside root P (depth + 1) n s₁ s₁' := ⟨_, by decide, h₁⟩
            exact (hinside.call _).mono fun _ _ _ _ h => h.mono (Nat.le_succ n)
          · simp only [hstart, hclose, if_false]
            exact mirrors_error _ _ _
      · -- Behind the tag of a member there has to be a key.
        have hmember : Refuses (do
            parseKey
            pv false
            expectTag (.close .member)
            parseMembers pv fuel (count + 1)) := refuses_parseKey.bind _
        exact (Refuses.ite (fun _ => .ite (fun _ => hmember.call _) fun _ => hmember) fun _ =>
          .ite (fun h => nomatch h) fun _ => refuses_throw _).mirrors hcut.atClose

/-- Both runs read the same map. -/
theorem mirrors_parseMap (hn : n ≤ N)
    (h : Linked root P (.text (.body (depth + 2) .other)) false n s s') :
    Mirrors (¬ P) (fun _ s _ s' => Inside root P (depth + 1) n s s') (parseMap pv s)
      (parseMap pv' s') := by
  refine (mirrors_call h _).bind ?_
  rintro _ s₁ _ s₁' h₁
  have hloop := mirrors_parseMembers hv (h₁.left.trans_le hn) (s₁.is.rest.length + 1) 0
    ⟨_, by decide, h₁.tight⟩
  exact hloop.mono fun _ _ _ _ h => h.mono h₁.left

variable [Platform]

/-- The value for a tag behind `<value>`. -/
theorem mirrors_parseTag (hn : n ≤ N) {tag : XmlTag} (htag : tag ≠ .close .value)
    (h : Linked root P (.text ((Context.body (depth + 1) .other).next root tag)) false n s s') :
    Mirrors (¬ P) (fun _ s _ s' => Inside root P (depth + 1) n s s') (parseTag pv tag s)
      (parseTag pv' tag s') := by
  rw [parseTag, parseTag]
  -- The start of a text, and an empty element.
  have htext {element : XmlTagName} (hlast : Last.of (.start element) = .other)
      (ht : tag = .start element) :
      Linked root P (.text (.body (depth + 2) .other)) false n s s' := by
    rw [ht, Context.next_start, hlast] at h
    exact h
  have hempty {element : XmlTagName} (ht : tag = .empty element) :
      Inside root P (depth + 1) n s s' := by
    rw [ht] at h
    exact h.inside (by decide)
  refine .ite (fun ht => (hempty ht).call _) fun _ => ?_
  refine .ite (fun ht => mirrors_parseBoolean (htext rfl ht)) fun _ => ?_
  refine .ite (fun ht => mirrors_parseNumber (htext rfl ht) .int) fun _ => ?_
  refine .ite (fun ht => mirrors_parseNumber (htext rfl ht) .i4) fun _ => ?_
  refine .ite (fun ht => mirrors_parseNumber (htext rfl ht) .i8) fun _ => ?_
  refine .ite (fun ht => mirrors_parseNumber (htext rfl ht) .double) fun _ => ?_
  refine .ite (fun ht => mirrors_parseString (htext rfl ht)) fun _ => ?_
  refine .ite (fun ht => ?_) fun _ => ?_
  · obtain ⟨last, hlast, h₁⟩ := hempty ht
    exact (mirrors_parseEmptyString h₁).mono fun _ _ _ _ h => ⟨last, hlast, h⟩
  refine .ite (fun ht => mirrors_parseArray hv hn (htext rfl ht)) fun _ => ?_
  refine .ite (fun ht => ?_) fun _ => ?_
  · obtain ⟨last, hlast, h₁⟩ := hempty ht
    exact (mirrors_parseEmptyArray h₁).mono fun _ _ _ _ h => ⟨last, hlast, h⟩
  refine .ite (fun ht => mirrors_parseMap hv hn (htext rfl ht)) fun _ => ?_
  refine .ite (fun ht => ?_) fun _ => ?_
  · obtain ⟨last, hlast, h₁⟩ := hempty ht
    exact (mirrors_parseEmptyMap h₁).mono fun _ _ _ _ h => ⟨last, hlast, h⟩
  refine .ite (fun ht => mirrors_parseDateTime (htext rfl ht)) fun _ => ?_
  refine .ite (fun ht => ?_) fun _ => ?_
  · rw [ht] at h
    exact mirrors_parseBase64 h
  refine .ite (fun ht => ?_) fun _ => ?_
  · obtain ⟨last, hlast, h₁⟩ := hempty ht
    exact (mirrors_parseEmptyBase64 h₁).mono fun _ _ _ _ h => ⟨last, hlast, h⟩
  exact .ite (fun ht => absurd ht htag) fun _ => mirrors_error _ _ _

end

/-! ## Values -/

/-- With its `<` still to come a tag may be text. -/
theorem getNextTagOrString_eq (h : s.sub.tagSkipFirstChar = false) :
    getNextTagOrString s = parseValueString s := by
  simp [getNextTagOrString, h]

/-- The text behind `<value>` and the tag behind it. -/
theorem mirrors_parseValueString {depth : ℕ}
    (h : Linked root P (.text (.body (depth + 1) .other)) false (n + 1) s s') :
    Mirrors (¬ P) (fun tag s tag' s' => (∃ element, tag = .start element ∧ AtClose s) ∨ tag' = tag ∧
        Linked root P (.text ((Context.body (depth + 1) .other).next root tag)) false n s s')
      (parseValueString s) (parseValueString s') := by
  refine (mirrors_parseStringText (Context.hasReferences_other _) h).bind ?_
  rintro _ s₁ ⟨str, w⟩ s₁' ⟨rfl, h₁⟩
  refine (mirrors_getNextTag h₁ Context.body_ne_done).bind ?_
  rintro tag s₂ tag' s₂' (⟨rfl, h₂⟩ | ⟨element, rfl, rfl, hcut⟩)
  · by_cases hclose : tag' = .close .value
    · simp only [hclose, if_true] at h₂ ⊢
      refine (mirrors_call h₂ _).bind ?_
      rintro _ s₃ _ s₃' h₃
      exact mirrors_ok (.inr ⟨rfl, h₃⟩)
    · simp only [hclose, if_false]
      cases w with
      | true => exact mirrors_ok (.inr ⟨rfl, h₂⟩)
      | false => exact mirrors_error _ _ _
  · cases w with
    | true =>
      have hshort : shortTag element ≠ .close .value := by cases element <;> decide
      simp only [hshort, if_false]
      refine mirrors_ok ?_
      exact .inl ⟨element, rfl, hcut.atClose⟩
    | false => exact mirrors_error _ _ _

section

variable [Platform] {N depth : ℕ} {pv pv' : Bool → ReadM Unit}

/-- Both runs read the same value, from behind its first tag. -/
theorem mirrors_parseValueBody (hv : ValuesFollow root P N pv pv') (hn : n ≤ N + 1)
    (h : Linked root P (.text (.body (depth + 1) .other)) false n s s') :
    Mirrors (¬ P) (fun _ s _ s' => Linked root P (.text (.closed depth .value)) false n s s')
      (parseValueBody pv s) (parseValueBody pv' s') := by
  cases n with
  | zero => exact absurd h.left (Nat.not_lt_zero _)
  | succ n =>
    have hn' : n ≤ N := Nat.le_of_succ_le_succ hn
    have hstring := mirrors_parseValueString h
    rw [← getNextTagOrString_eq h.skip_left, ← getNextTagOrString_eq h.skip_right] at hstring
    refine hstring.bind ?_
    rintro tag s₁ tag' s₁' (⟨element, rfl, hclose⟩ | ⟨rfl, h₁⟩)
    · exact ((refuses_parseTag pv element).bind _).mirrors hclose
    · by_cases hclose : tag' = .close .value
      · subst hclose
        simp only [ne_eq, not_true_eq_false, if_false]
        exact mirrors_ok (h₁.mono (Nat.le_succ n))
      · simp only [ne_eq, hclose, not_false_eq_true, if_true]
        refine (mirrors_parseTag hv hn' hclose h₁).bind ?_
        rintro _ s₂ _ s₂' ⟨last, -, h₂⟩
        exact (mirrors_expectTag h₂ Context.body_ne_done .value).mono fun _ _ _ _ h => h.mono (Nat.le_succ n)

/-- An empty value in the long form is the empty string. -/
theorem parseValueBody_empty {t : Bytes} {s₁ : ReaderState XmlReader}
    (hskip : s.sub.tagSkipFirstChar = false) (hrest : s.is.rest = ascii "</value>" ++ t)
    (hrun : parseValueBody pv s = .ok () s₁) : EmptyRead t s s₁ := by
  have hsplit : s.is.rest = 0x3c :: (ascii "/value" ++ 0x3e :: t) := hrest
  obtain ⟨s₂, htext, hrest₂, hskip₂, hinSitu₂, hcopy₂, hcalls₂⟩ := parseStringText_empty hsplit
  have hunread : (unread s₂.sub.tagSkipFirstChar s₂.is.rest).dropWhile isSpace =
      0x3c :: (ascii "/value" ++ 0x3e :: t) := by
    rw [hskip₂, hrest₂, unread, if_pos rfl, List.dropWhile_cons_of_neg (by decide)]
  obtain ⟨j, hj, hget⟩ := getNextTag_of_read hunread read_close_value
  have hstring : parseValueString s = (do
      Reader.call (.scalar (.string { bytes := [], copy := s.is.copy }))
      return .close .value : ReadM XmlTag)
        { s₂ with is := s₂.is.advance j, sub := { s₂.sub with tagSkipFirstChar := false } } := by
    rw [parseValueString, bind_of_ok htext]
    exact bind_of_ok hget
  rw [← getNextTagOrString_eq hskip] at hstring
  have hbody := bind_of_ok (f := fun tag => do
    parseTag pv tag
    if tag ≠ .close .value then
      expectTag (.close .value)) hstring
  rw [show parseValueBody pv s = _ from hbody] at hrun
  cases hrun
  refine ⟨hj, rfl, hinSitu₂, hcopy₂, ?_⟩
  simp [ReaderState.events, hcalls₂]

/-- To any depth of nesting. -/
theorem parseValue_empty {depth : ℕ} {t : Bytes} {s s₁ : ReaderState XmlReader}
    (hskip : s.sub.tagSkipFirstChar = false) (hrest : s.is.rest = ascii "</value>" ++ t)
    (hrun : parseValue depth true s = .ok () s₁) : EmptyRead t s s₁ := by
  cases depth with
  | zero => cases hrun
  | succ depth => exact parseValueBody_empty hskip hrest hrun

/-- Values to any depth of nesting. -/
theorem valuesMirror (depth N : ℕ) :
    ValuesFollow root P N (parseValue depth) (parseValue N) := by
  induction N generalizing depth with
  | zero =>
    refine ⟨fun hn h => ?_, fun hn h => ?_, parseValue_empty⟩
    · exact absurd (h.left.trans_le hn) (Nat.not_lt_zero _)
    · exact absurd (h.left.trans_le hn) (Nat.not_lt_zero _)
  | succ N ih =>
    cases depth with
    | zero => exact ⟨fun _ _ => mirrors_error _ _ _, fun _ _ => mirrors_error _ _ _, parseValue_empty⟩
    | succ depth =>
      refine ⟨fun hn h => mirrors_parseValueBody (ih depth) hn h, fun {d n s s'} hn h => ?_,
        parseValue_empty⟩
      cases n with
      | zero => exact absurd h.left (Nat.not_lt_zero _)
      | succ n =>
        have hle := Nat.le_succ n
        refine (mirrors_getNextTag h Context.body_ne_done).bind ?_
        rintro tag s₁ tag' s₁' (⟨rfl, h₁⟩ | ⟨element, rfl, rfl, hcut⟩)
        · refine .ite (fun ht => ?_) fun hempty => .ite (fun ht => ?_) fun _ => mirrors_error _ _ _
          · subst ht
            rw [Context.next_empty_value] at h₁
            exact (mirrors_parseEmptyString h₁).mono fun _ _ _ _ h => h.mono hle
          · subst ht
            exact (mirrors_parseValueBody (ih depth) (hle.trans hn) h₁).mono
              fun _ _ _ _ h => h.mono hle
        · by_cases hvalue : element = .value
          · subst hvalue
            have hread := hcut.mirrors (by decide) (p := parseValueBody (parseValue depth))
              fun hrest => parseValueBody_empty hcut.skip_left hrest
            exact hread.mono fun _ _ _ _ h => h.mono hle
          · exact (Refuses.ite (fun h => nomatch h) fun _ =>
              .ite (fun h => absurd (XmlTag.start.inj h) hvalue) fun _ =>
                refuses_throw _).mirrors hcut.atClose

/-- A value behind its first tag, in the depth that each text has room for. -/
theorem mirrors_parseNested_true {depth : ℕ}
    (h : Linked root P (.text (.body (depth + 1) .other)) false n s s') :
    Mirrors (¬ P) (fun _ s _ s' => Linked root P (.text (.closed depth .value)) false n s s')
      (parseNested true s) (parseNested true s') :=
  ((valuesMirror (s.is.rest.length + 1) _).body le_rfl h.tight).mono
    fun _ _ _ _ h' => h'.mono h.left

/-- A value with its first tag, in the depth that each text has room for. -/
theorem mirrors_parseNested_false {depth : ℕ}
    (h : Linked root P (.text (.body depth .other)) false n s s') :
    Mirrors (¬ P) (fun _ s _ s' => Linked root P (.text (.closed depth .value)) false n s s')
      (parseNested false s) (parseNested false s') :=
  ((valuesMirror (s.is.rest.length + 1) _).value le_rfl h.tight).mono
    fun _ _ _ _ h' => h'.mono h.left

end

end

end AnyRpc.XmlReader
