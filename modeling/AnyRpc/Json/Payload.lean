import AnyRpc.Json.Sound

/-! # Payloads

What `ParseStream` makes of a whole text. It reads one value and does not look at what is behind it,
and it returns at once from a text of nothing but white space. -/

namespace AnyRpc.JsonReader

open Library Reader Json NumberText

variable [Platform]

/-- A text that is one value, with white space around it. -/
def IsDocument (text : Bytes) : Prop :=
  ∃ w p w', text = w ++ (p ++ w') ∧ Spaces w ∧ IsValue p ∧ Spaces w'

/-- Where a value is a number, it is all that is split off as a number before a rest. -/
def NumberEnds (p r : Bytes) : Prop :=
  IsNumber p → ∃ t : NumberText, t.Valid ∧ t.text = p ∧ split (p ++ r) = (t, r)

/-- Behind white space, a text starts with a value whose numbers can be read, before a rest. -/
def StartsWithValue (text r : Bytes) : Prop :=
  ∃ w p ns, text = w ++ (p ++ r) ∧ Spaces w ∧ Derives .value p ns ∧ NumberEnds p r ∧ NumbersRead ns

/-! ## What is read -/

omit [Platform] in
/-- A number is told by its text. -/
theorem text_injective {t t' : NumberText} (ht : t.Valid) (ht' : t'.Valid) (h : t.text = t'.text) :
    t = t' := by
  have hends : EndsNumber [] := by rintro _ ⟨⟩
  have hsplit := split_append ht hends
  rw [h, split_append ht' hends] at hsplit
  exact (Prod.mk.inj hsplit).1.symm

omit [Platform] in
/-- The only number in a number is itself. -/
theorem derives_number {t : NumberText} (ht : t.Valid) {ns : List NumberText}
    (h : Derives .value t.text ns) : ns = [t] := by
  obtain ⟨c, us, htext, hc⟩ := head_number ht
  rw [htext] at h
  have hne {d : UInt8} (hd : isDigit d = false ∧ d ≠ 0x2d) : c ≠ d := by
    rintro rfl
    rcases hc with hc | hc
    · exact Bool.noConfusion (hd.1.symm.trans hc)
    · exact hd.2 hc
  generalize hp : c :: us = p at h
  cases h with
  | number ht' => rw [text_injective ht ht' (htext.trans hp)]
  | null => exact absurd (List.cons.inj hp).1 (hne (by decide))
  | true => exact absurd (List.cons.inj hp).1 (hne (by decide))
  | false => exact absurd (List.cons.inj hp).1 (hne (by decide))
  | string _ => exact absurd (List.cons.inj hp).1 (hne (by decide))
  | emptyArray _ => exact absurd (List.cons.inj hp).1 (hne (by decide))
  | array _ _ => exact absurd (List.cons.inj hp).1 (hne (by decide))
  | emptyObject _ => exact absurd (List.cons.inj hp).1 (hne (by decide))
  | object _ _ => exact absurd (List.cons.inj hp).1 (hne (by decide))

/-- A value is consumed up to the rest that it ends before. -/
theorem consumes_value (hnonzero : Platform.DigitsNonzero) {p r : Bytes} {ns : List NumberText}
    (hp : Derives .value p ns) (hends : NumberEnds p r) {s : State} (hrest : s.is.rest = p ++ r) :
    Consumes (parseValue (s.is.rest.length + 1)) s r ns := by
  by_cases hnumber : IsNumber p
  · obtain ⟨t, ht, rfl, hsplit⟩ := hends hnumber
    rw [derives_number ht hp]
    exact consumes_number hnonzero ht (by rw [hrest, hsplit]) _
  · exact recognized hnonzero hp s r _ hrest (fun h => absurd h hnumber)
      (by rw [hrest, List.length_append]; omega)

/-- Where `ParseValue` returns, it has consumed a value whose numbers are read. -/
theorem parseValue_of_ok (hnonzero : Platform.DigitsNonzero) {s s' : State}
    (h : parseValue (s.is.rest.length + 1) s = .ok () s') :
    ∃ p ns, s.is.rest = p ++ s'.is.rest ∧ Derives .value p ns ∧ NumberEnds p s'.is.rest ∧
      NumbersRead ns := by
  obtain ⟨p, hrest, ns, hp⟩ := (parseValue_reads (Nat.lt_succ_self _)).wp.of_ok h
  by_cases hnumber : IsNumber p
  · obtain ⟨t, ht, rfl⟩ := hnumber
    have hrun := parseValue_number ht hrest s.is.rest.length
    rw [hrun] at h
    obtain ⟨hr, hcomplete, hrange, hbig⟩ := (wp_parseNumber hnonzero s).of_ok h
    obtain ⟨hvalid, htext⟩ := split_text hcomplete
    have hsame : t.text ++ s'.is.rest = (split s.is.rest).1.text ++ s'.is.rest := by
      rw [← hrest]
      nth_rewrite 1 [htext]
      rw [← hr]
    have heq := text_injective ht hvalid (List.append_cancel_right hsame)
    have hns := derives_number ht hp
    refine ⟨t.text, ns, hrest, hp, fun _ => ⟨t, ht, rfl, ?_⟩, ?_⟩
    · rw [← hrest, hr]
      exact Prod.ext heq.symm rfl
    · rw [hns, heq]
      exact List.forall_mem_singleton.mpr ⟨hrange, hbig⟩
  · have hends : NumberEnds p s'.is.rest := fun h => absurd h hnumber
    exact ⟨p, ns, hrest, hp, hends, ((consumes_value hnonzero hp hends hrest).of_ok h).2⟩

/-- Where the text starts with a value, the value is parsed. -/
theorem parse_of_value {s : State} {w p r : Bytes} {ns : List NumberText}
    (hrest : s.is.rest = w ++ (p ++ r)) (hw : Spaces w) (hp : Derives .value p ns) :
    ∃ s', s'.is.rest = p ++ r ∧ parse s = parseValue (s'.is.rest.length + 1) s' := by
  obtain ⟨hskip, hrest'⟩ := skipWhiteSpace_eq hw (head_append hp r) hrest
  refine ⟨_, hrest', ?_⟩
  have heof : (consumed s w.length).is.eof = false := by
    obtain ⟨c, us, rfl, -⟩ := head_value hp
    rw [ReadStream.eof, hrest']
    rfl
  rw [parse, bind_of_ok hskip, bind_of_ok (eof_apply _), heof]
  rfl

/-- `ParseStream()` returns before a rest exactly where there is nothing but white space, or a value
before the rest. -/
theorem parse_ok_iff (hnonzero : Platform.DigitsNonzero) (s : State) (r : Bytes) :
    (∃ s', parse s = .ok () s' ∧ s'.is.rest = r) ↔
      (Spaces s.is.rest ∧ r = []) ∨ StartsWithValue s.is.rest r := by
  obtain ⟨w, s₁, hw, hrest, hhead, -, hskip⟩ := skipWhiteSpace_split s
  have hparse : parse s = (do
      if !(← eof) then
        parseValue ((← get).is.rest.length + 1) : ReadM Unit) s₁ := bind_of_ok hskip
  cases hr₁ : s₁.is.rest with
  | nil =>
    have hrun : parse s = .ok () s₁ := by
      rw [hparse, bind_of_ok (eof_apply s₁), ReadStream.eof, hr₁]
      rfl
    have hspaces : Spaces s.is.rest := by
      rw [hrest, hr₁, List.append_nil]
      exact hw
    constructor
    · rintro ⟨s', hs', rfl⟩
      cases hrun.symm.trans hs'
      exact .inl ⟨hspaces, hr₁⟩
    · rintro (⟨-, rfl⟩ | ⟨w', p, ns, htext, -, hp, -⟩)
      · exact ⟨s₁, hrun, hr₁⟩
      · obtain ⟨c, us, rfl, hc, -⟩ := head_value hp
        have hmem : c ∈ s.is.rest := by simp [htext]
        exact absurd (hspaces c hmem) (by rw [hc]; exact Bool.false_ne_true)
  | cons c us =>
    have hc : isSpace c = false := hhead c (by rw [hr₁]; rfl)
    have hrun : parse s = parseValue (s₁.is.rest.length + 1) s₁ := by
      rw [hparse, bind_of_ok (eof_apply s₁), ReadStream.eof, hr₁]
      show parseValue (s₁.is.rest.length + 1) s₁ = _
      rw [hr₁]
    constructor
    · rintro ⟨s', hs', rfl⟩
      rw [hrun] at hs'
      obtain ⟨p, ns, hrest', hp, hends, hread⟩ := parseValue_of_ok hnonzero hs'
      exact .inr ⟨w, p, ns, by rw [hrest, hrest'], hw, hp, hends, hread⟩
    · rintro (⟨hspaces, -⟩ | ⟨w', p, ns, htext, hw', hp, hends, hread⟩)
      · have hmem : c ∈ s.is.rest := by simp [hrest, hr₁]
        exact absurd (hspaces c hmem) (by rw [hc]; exact Bool.false_ne_true)
      · obtain ⟨s₂, hrest₂, hrun₂⟩ := parse_of_value htext hw' hp
        rw [hrun₂]
        exact (consumes_value hnonzero hp hends hrest₂).exists_ok hread

omit [Platform] in
/-- A document is more than white space. -/
theorem IsDocument.not_spaces {text : Bytes} (h : IsDocument text) : ¬ Spaces text := by
  obtain ⟨w, p, w', rfl, -, ⟨ns, hp⟩, -⟩ := h
  obtain ⟨c, us, rfl, hc, -⟩ := head_value hp
  intro hspaces
  have hmem : c ∈ w ++ (c :: us ++ w') := by simp
  exact Bool.noConfusion ((hspaces c hmem).symm.trans hc)

omit [Platform] in
/-- A number is all that is split off before white space. -/
theorem numberEnds_of_spaces (p : Bytes) {w : Bytes} (hw : Spaces w) : NumberEnds p w := by
  rintro ⟨t, ht, rfl⟩
  have hnil : EndsNumber [] := by rintro _ ⟨⟩
  have hends := endsNumber_append hw hnil
  rw [List.append_nil] at hends
  exact ⟨t, ht, rfl, split_append ht hends⟩

/-- Behind the value that a document starts with there is white space. -/
theorem IsDocument.rest_spaces (hnonzero : Platform.DigitsNonzero) {text r : Bytes}
    (h : IsDocument text) (hstarts : StartsWithValue text r) : Spaces r := by
  obtain ⟨w, p, w', htext, hw, ⟨ns, hp⟩, hw'⟩ := h
  let s : State := JsonReader.new (.inSituString text true false 0)
  obtain ⟨s', hparse, rfl⟩ := (parse_ok_iff hnonzero s r).mpr (.inr hstarts)
  have hrest : s.is.rest = w ++ (p ++ w') := htext
  obtain ⟨s₁, hrest₁, hrun⟩ := parse_of_value hrest hw hp
  rw [hrun] at hparse
  have hconsumes := consumes_value hnonzero hp (numberEnds_of_spaces p hw') hrest₁
  rw [(hconsumes.of_ok hparse).1]
  exact hw'

/-! ## Parsing into a handler -/

/-- The calls are the beginning of those of a value. -/
theorem parse_calls (s : State) :
    Calls (prefixes (treeCalls anyTree)) (prefixes (treeCalls anyTree)) (fun _ _ => True) Faulty
      parse s := by
  obtain ⟨w, s₁, -, -, -, hstep, hskip⟩ := skipWhiteSpace_split s
  have hparse : parse s = (do
      if !(← eof) then
        parseValue ((← get).is.rest.length + 1) : ReadM Unit) s₁ := bind_of_ok hskip
  have hevents : s₁.events = s.events := hstep.events.trans (List.append_nil _)
  cases heof : s₁.is.eof with
  | true =>
    have hrun : parse s = .ok () s₁ := by
      rw [hparse, bind_of_ok (eof_apply s₁), heof]
      rfl
    have hnull : (EventTree.leaf .null).events ∈ treeCalls anyTree := mem_treeCalls trivial
    exact emits_of_ok hrun (nil_mem_prefixes ⟨_, hnull⟩) (hevents.trans (List.append_nil _).symm)
      trivial
  | false =>
    have hrun : parse s = parseValue (s₁.is.rest.length + 1) s₁ := by
      rw [hparse, bind_of_ok (eof_apply s₁), heof]
      rfl
    have hvalue := parseValue_reads (Nat.lt_succ_self s₁.is.rest.length)
    exact emits_of_eq hrun hevents
      (Emits.mono hvalue (le_prefixes _) le_rfl (fun _ _ _ => trivial) fun _ h => h)

end AnyRpc.JsonReader
