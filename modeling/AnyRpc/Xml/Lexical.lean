import AnyRpc.Xml.Reader

/-! # Short forms of empty values

Where the tags of a document stand is seen from its text alone: `Lex` runs over the bytes, and keeps
the number of elements that are open and the kind of the last tag. `Shortened` relates a document to
one in which some of its `<value></value>` are written as `<value/>`, wherever these are in its text:
between two tags, in a reference, or so that the first of the two tags is the end of another one. -/

namespace AnyRpc.XmlReader

open Library

/-- The kinds of tags that matter for what stands behind them. -/
inductive Last
  /-- The end of a value. -/
  | value
  /-- The start of base64 text, in which there are no references. -/
  | base64
  /-- The start of a response, which ends with empty parameters already. -/
  | methodResponse
  | other
  deriving DecidableEq, Repr

/-- The kind of a tag. -/
def Last.of : XmlTag → Last
  | .close .value => value
  | .empty .value => value
  | .start .base64 => base64
  | .start .methodResponse => methodResponse
  | _ => other

/-- Where in a document a text between two tags stands. -/
inductive Context
  /-- In front of the root. -/
  | prolog
  /-- In as many open elements. -/
  | body (depth : ℕ) (last : Last)
  /-- Behind the root. -/
  | done
  deriving DecidableEq, Repr

namespace Context

/-- Behind a tag that closes an element, in as many open elements. -/
def closed : ℕ → Last → Context
  | 0, _ => done
  | depth + 1, last => body (depth + 1) last

/-- The context behind a tag. -/
def next (root : XmlTagName) : Context → XmlTag → Context
  | prolog, tag => if tag = .start root then body 1 (Last.of tag) else prolog
  | body depth _, .start n => body (depth + 1) (Last.of (.start n))
  | body depth _, .close n => closed (depth - 1) (Last.of (.close n))
  | body depth last, .empty n =>
    if last = .methodResponse ∧ n = .params then done else closed depth (Last.of (.empty n))
  | done, _ => done

/-- Directly behind a value: where a value stands here, it is an element of an array, and not its
first one. -/
def BehindValue : Context → Prop
  | body _ last => last = .value
  | _ => False

instance : DecidablePred BehindValue
  | prolog => inferInstanceAs (Decidable False)
  | body _ last => inferInstanceAs (Decidable (last = .value))
  | done => inferInstanceAs (Decidable False)

/-- Whether an `&` begins a reference. -/
def HasReferences : Context → Prop
  | body _ last => last ≠ .base64
  | _ => True

instance : DecidablePred HasReferences
  | prolog => inferInstanceAs (Decidable True)
  | body _ last => inferInstanceAs (Decidable (last ≠ .base64))
  | done => inferInstanceAs (Decidable True)

/-- Text that is not base64. -/
theorem hasReferences_other (depth : ℕ) : (body depth .other).HasReferences :=
  fun h : Last.other = .base64 => nomatch h

section

variable {root : XmlTagName} {depth : ℕ} {last : Last}

/-- In an element nothing is done. -/
theorem body_ne_done : body depth last ≠ done := fun h => nomatch h

/-- A start tag opens an element. -/
@[simp] theorem next_start (n : XmlTagName) :
    (body depth last).next root (.start n) = body (depth + 1) (Last.of (.start n)) := rfl

/-- An end tag closes one. -/
@[simp] theorem next_close (n : XmlTagName) :
    (body (depth + 1) last).next root (.close n) = closed depth (Last.of (.close n)) := rfl

/-- Behind a value. -/
@[simp] theorem next_value :
    ((body depth last).next root (.start .value)).next root (.close .value) =
      closed depth .value := rfl

/-- An empty value leaves as many open. -/
@[simp] theorem next_empty_value :
    (body depth last).next root (.empty .value) = closed depth .value := by
  rw [next, if_neg (fun h => nomatch h.2)]
  rfl

end

end Context

/-- The tag of a text between `<` and `>`. -/
def tagOf (text : Bytes) : XmlTag :=
  match XmlTag.read (text ++ [0x3e]) with
  | .ok tag _ => tag
  | .error _ _ => XmlTag.invalidTag

/-- The state of the run over the bytes. -/
inductive Lex
  | text (k : Context)
  | reference (k : Context)
  /-- In a tag, of which a part is read. -/
  | tag (k : Context) (read : Bytes)
  deriving DecidableEq, Repr

/-- The step at a byte. -/
def Lex.step (root : XmlTagName) : Lex → UInt8 → Lex
  | text k, c =>
    if c = 0x3c then tag k [] else if c = 0x26 ∧ k.HasReferences then reference k else text k
  | reference k, c => if c = 0x3b then text k else reference k
  | tag k read, c => if c = 0x3e then text (k.next root (tagOf read)) else tag k (read ++ [c])

/-- The context of the text that the run is in, or of the last one before. -/
def Lex.context : Lex → Context
  | text k => k
  | reference k => k
  | tag k _ => k

/-- Behind the root is left with no byte. -/
theorem Lex.context_step {root : XmlTagName} {l : Lex} (c : UInt8) (hl : l.context = .done) :
    (l.step root c).context = .done := by
  cases l with
  | text k =>
    rw [step]
    split_ifs <;> exact hl
  | reference k =>
    rw [step]
    split_ifs <;> exact hl
  | tag k read =>
    have hk : k = .done := hl
    rw [step, hk]
    split_ifs <;> rfl

/-- Nor with any text. -/
theorem Lex.context_foldl {root : XmlTagName} {l : Lex} (t : Bytes) (hl : l.context = .done) :
    (t.foldl (Lex.step root) l).context = .done := by
  induction t generalizing l with
  | nil => exact hl
  | cons c t ih => exact ih (context_step c hl)

/-- A `<value></value>` that begins here may be written as `<value/>`: it is not directly behind a
value, and it is not in an end tag, unless it is behind the root. -/
def Lex.Harmless : Lex → Prop
  | text k => ¬ k.BehindValue
  | reference _ => True
  | tag k read => k = .done ∨ read.head? ≠ some 0x2f ∧ ¬ k.BehindValue

instance : DecidablePred Lex.Harmless
  | .text k => inferInstanceAs (Decidable (¬ k.BehindValue))
  | .reference _ => inferInstanceAs (Decidable True)
  | .tag k read => inferInstanceAs (Decidable (k = .done ∨ read.head? ≠ some 0x2f ∧ ¬ k.BehindValue))

/-- Behind the root every value is. -/
theorem Lex.harmless_of_done {l : Lex} (hl : l.context = .done) : l.Harmless := by
  cases l with
  | text k =>
    have hk : k = .done := hl
    subst hk
    exact id
  | reference k => trivial
  | tag k read => exact .inl hl

/-- The second text is the first one with some of its `<value></value>` written as `<value/>`. The list
has the states of the run over the first text where these begin. -/
inductive Shortened (root : XmlTagName) : Lex → Bytes → Bytes → List Lex → Prop
  | nil (l : Lex) : Shortened root l [] [] []
  | copy {l : Lex} {c : UInt8} {t t' : Bytes} {ls : List Lex} :
    Shortened root (l.step root c) t t' ls → Shortened root l (c :: t) (c :: t') ls
  | value {l : Lex} {t t' : Bytes} {ls : List Lex} :
    Shortened root ((ascii "<value></value>").foldl (Lex.step root) l) t t' ls →
    Shortened root l (ascii "<value></value>" ++ t) (ascii "<value/>" ++ t') (l :: ls)

/-! ## An empty value, by where it begins -/

/-- Between two tags. -/
theorem foldl_value_text (root : XmlTagName) (k : Context) :
    (ascii "<value></value>").foldl (Lex.step root) (.text k) =
      .text ((k.next root (.start .value)).next root (.close .value)) := rfl

/-- In a reference. -/
theorem foldl_value_reference (root : XmlTagName) (k : Context) :
    (ascii "<value></value>").foldl (Lex.step root) (.reference k) = .reference k := rfl

/-- In a tag, which it ends. -/
theorem foldl_value_tag (root : XmlTagName) (k : Context) (read : Bytes) :
    (ascii "<value></value>").foldl (Lex.step root) (.tag k read) =
      .text ((k.next root (tagOf (read ++ ascii "<value"))).next root (.close .value)) := by
  have htext (k : Context) : (ascii "</value>").foldl (Lex.step root) (.text k) =
      .text (k.next root (.close .value)) := rfl
  have hsplit : ascii "<value></value>" = ascii "<value" ++ 0x3e :: ascii "</value>" := rfl
  have hname : (ascii "<value").foldl (Lex.step root) (.tag k read) =
      .tag k (read ++ ascii "<value") := by
    simp [ascii, Lex.step]
  rw [hsplit, List.foldl_append, List.foldl_cons, hname, Lex.step, if_pos rfl, htext]

/-- Where a text is cut at the first byte of a kind. -/
theorem append_cons_cut {c : UInt8} {a b s t : Bytes} (ha : c ∉ a) (hb : c ∉ b)
    (h : a ++ c :: s = b ++ c :: t) : a = b ∧ s = t := by
  induction a generalizing b with
  | nil =>
    cases b with
    | nil => exact ⟨rfl, (List.cons.inj h).2⟩
    | cons d b => exact absurd (List.mem_cons.mpr (.inl (List.cons.inj h).1)) hb
  | cons d a ih =>
    cases b with
    | nil => exact absurd (List.mem_cons.mpr (.inl (List.cons.inj h).1.symm)) ha
    | cons e b =>
      obtain ⟨rfl, htail⟩ := List.cons.inj h
      obtain ⟨rfl, rfl⟩ := ih (fun hmem => ha (List.mem_cons_of_mem d hmem))
        (fun hmem => hb (List.mem_cons_of_mem d hmem)) htail
      exact ⟨rfl, rfl⟩

namespace Shortened

variable {root : XmlTagName} {k : Context} {l : Lex} {t t' : Bytes} {ls : List Lex}

/-! ## What follows from the first text -/

/-- Nothing is left of nothing. -/
theorem of_nil (h : Shortened root l [] t' ls) : t' = [] ∧ ls = [] := by
  cases h
  exact ⟨rfl, rfl⟩

/-- A byte that does not begin an empty value is copied. -/
theorem of_cons {c : UInt8} (h : Shortened root l (c :: t) t' ls) (hc : c ≠ 0x3c) :
    ∃ u, t' = c :: u ∧ Shortened root (l.step root c) t u ls := by
  generalize ht : c :: t = v at h
  cases h with
  | nil => cases ht
  | copy h =>
    cases ht
    exact ⟨_, rfl, h⟩
  | value _ => exact absurd (List.cons.inj ht).1 hc

/-- A `<` is copied, or it begins an empty value that is written in the short form. -/
theorem of_lt (h : Shortened root l (0x3c :: t) t' ls) :
    (∃ u, t' = 0x3c :: u ∧ Shortened root (l.step root 0x3c) t u ls) ∨
      ∃ u u' ls', t = ascii "value></value>" ++ u ∧ t' = ascii "<value/>" ++ u' ∧ ls = l :: ls' ∧
        Shortened root ((ascii "<value></value>").foldl (Lex.step root) l) u u' ls' := by
  generalize ht : (0x3c : UInt8) :: t = v at h
  cases h with
  | nil => cases ht
  | copy h =>
    cases ht
    exact .inl ⟨_, rfl, h⟩
  | value h => exact .inr ⟨_, _, _, (List.cons.inj ht).2, rfl, rfl, h⟩

/-- Both texts begin alike. -/
theorem head?_eq (h : Shortened root l t t' ls) : t'.head? = t.head? := by
  cases h <;> rfl

/-- Text without tags and references is copied. -/
theorem of_append {a : Bytes} (h : Shortened root (.text k) (a ++ t) t' ls)
    (ha : ∀ c ∈ a, c ≠ 0x3c ∧ c ≠ 0x26) :
    ∃ u, t' = a ++ u ∧ Shortened root (.text k) t u ls := by
  induction a generalizing t' with
  | nil => exact ⟨t', rfl, h⟩
  | cons c a ih =>
    obtain ⟨hlt, hamp⟩ := ha c List.mem_cons_self
    obtain ⟨u, rfl, hu⟩ := of_cons h hlt
    rw [Lex.step, if_neg hlt, if_neg fun h => hamp h.1] at hu
    obtain ⟨v, rfl, hv⟩ := ih hu fun d hd => ha d (List.mem_cons_of_mem c hd)
    exact ⟨v, rfl, hv⟩

/-- What is left of a tag is copied, or it ends with the first tag of an empty value that is written in
the short form. -/
theorem of_tag {read a : Bytes} (h : Shortened root (.tag k read) (a ++ 0x3e :: t) t' ls)
    (ha : (0x3e : UInt8) ∉ a) :
    (∃ u, t' = a ++ 0x3e :: u ∧
      Shortened root (.text (k.next root (tagOf (read ++ a)))) t u ls) ∨
    ∃ b u u' ls', a = b ++ ascii "<value" ∧ t = ascii "</value>" ++ u ∧
      t' = b ++ (ascii "<value/>" ++ u') ∧ ls = .tag k (read ++ b) :: ls' ∧
      Shortened root (.text ((k.next root (tagOf (read ++ a))).next root (.close .value))) u u' ls' := by
  induction a generalizing t' read with
  | nil =>
    obtain ⟨u, rfl, hu⟩ := of_cons h (by decide)
    rw [Lex.step, if_pos rfl] at hu
    rw [List.append_nil]
    exact .inl ⟨u, rfl, hu⟩
  | cons c a ih =>
    rw [List.mem_cons, not_or] at ha
    -- A byte that is copied.
    have hcopy {u : Bytes} (hu : Shortened root ((Lex.tag k read).step root c) (a ++ 0x3e :: t) u ls) :
        (∃ v, c :: u = c :: a ++ 0x3e :: v ∧
          Shortened root (.text (k.next root (tagOf (read ++ c :: a)))) t v ls) ∨
        ∃ b v v' ls', c :: a = b ++ ascii "<value" ∧ t = ascii "</value>" ++ v ∧
          c :: u = b ++ (ascii "<value/>" ++ v') ∧ ls = .tag k (read ++ b) :: ls' ∧
          Shortened root (.text ((k.next root (tagOf (read ++ c :: a))).next root (.close .value))) v
            v' ls' := by
      rw [Lex.step, if_neg (Ne.symm ha.1)] at hu
      have hrest := ih hu ha.2
      simp only [List.append_assoc, List.singleton_append] at hrest
      rcases hrest with ⟨v, rfl, hv⟩ | ⟨b, v, v', ls', rfl, rfl, rfl, rfl, hv⟩
      · exact .inl ⟨v, rfl, hv⟩
      · exact .inr ⟨c :: b, v, v', ls', rfl, rfl, rfl, rfl, hv⟩
    by_cases hlt : c = 0x3c
    · subst hlt
      obtain ⟨u, rfl, hu⟩ | ⟨u, u', ls', ht, rfl, rfl, hvalue⟩ := of_lt h
      · exact hcopy hu
      · -- The tag ends where the first tag of the empty value does.
        obtain ⟨rfl, rfl⟩ : a = ascii "value" ∧ t = ascii "</value>" ++ u := by
          have hvalue : (0x3e : UInt8) ∉ ascii "value" := by decide
          exact append_cons_cut ha.2 hvalue ht
        rw [foldl_value_tag] at hvalue
        exact .inr ⟨[], u, u', ls', rfl, rfl, rfl, by rw [List.append_nil], hvalue⟩
    · obtain ⟨u, rfl, hu⟩ := of_cons h hlt
      exact hcopy hu

/-- Behind the root every value is harmless. -/
theorem harmless (h : Shortened root l t t' ls) (hl : l.context = .done) :
    ∀ l ∈ ls, l.Harmless := by
  induction h with
  | nil => exact List.forall_mem_nil _
  | copy _ ih => exact ih (Lex.context_step _ hl)
  | value _ ih =>
    exact List.forall_mem_cons.mpr ⟨Lex.harmless_of_done hl, ih (Lex.context_foldl _ hl)⟩

end Shortened

/-- Any part of a text may be copied. -/
theorem Shortened.copy_append {root : XmlTagName} {l : Lex} {t t' : Bytes} {ls : List Lex}
    (a : Bytes) (h : Shortened root (a.foldl (Lex.step root) l) t t' ls) :
    Shortened root l (a ++ t) (a ++ t') ls := by
  induction a generalizing l with
  | nil => exact h
  | cons c a ih => exact .copy (ih h)

/-- Nothing has to be shortened. -/
theorem Shortened.refl (root : XmlTagName) (l : Lex) (t : Bytes) : Shortened root l t t [] := by
  simpa using Shortened.copy_append t (.nil (t.foldl (Lex.step root) l))

/-- One empty value of a text. -/
theorem Shortened.one (root : XmlTagName) (l : Lex) (a t : Bytes) :
    Shortened root l (a ++ (ascii "<value></value>" ++ t)) (a ++ (ascii "<value/>" ++ t))
      [a.foldl (Lex.step root) l] :=
  .copy_append a (.value (.refl root _ t))

/-! ## Reading a tag -/

/-- A tag ends at the first `>`, and what stands behind it does not matter. -/
theorem scan_ok {endTagMarkFound tagEndFound : Bool} {tagStr t r : Bytes} {x : Bytes × Bool}
    (h : XmlTag.scan endTagMarkFound tagStr tagEndFound t = .ok x r) :
    ∃ a, (0x3e : UInt8) ∉ a ∧ t = a ++ 0x3e :: r ∧
      ∀ r', XmlTag.scan endTagMarkFound tagStr tagEndFound (a ++ 0x3e :: r') = .ok x r' := by
  induction t generalizing tagStr tagEndFound with
  | nil => cases h
  | cons c t ih =>
    -- The character is taken, and the run goes on.
    have hmore {tagStr' : Bytes} {tagEndFound' : Bool} (hc : (0x3e : UInt8) ≠ c)
        (hrun : ∀ s, XmlTag.scan endTagMarkFound tagStr tagEndFound (c :: s) =
          XmlTag.scan endTagMarkFound tagStr' tagEndFound' s)  :
        ∃ a, (0x3e : UInt8) ∉ a ∧ c :: t = a ++ 0x3e :: r ∧
          ∀ r', XmlTag.scan endTagMarkFound tagStr tagEndFound (a ++ 0x3e :: r') = .ok x r' := by
      rw [hrun] at h
      obtain ⟨a, ha, rfl, hscan⟩ := ih h
      refine ⟨c :: a, ?_, rfl, fun r' => ?_⟩
      · rw [List.mem_cons, not_or]
        exact ⟨hc, ha⟩
      · rw [List.cons_append, hrun]
        exact hscan r'
    by_cases hgt : c = 0x3e
    · subst hgt
      cases h
      exact ⟨[], List.not_mem_nil, rfl, fun _ => rfl⟩
    · by_cases hslash : c = 0x2f
      · subst hslash
        rw [XmlTag.scan, if_neg hgt, if_pos rfl] at h
        by_cases hmark : endTagMarkFound = true
        · rw [if_pos hmark] at h
          cases h
        · rw [if_neg hmark] at h
          by_cases hhead : t.headD 0 ≠ 0x3e
          · rw [if_pos hhead] at h
            cases h
          · rw [if_neg hhead] at h
            cases h
            obtain ⟨s, rfl⟩ : ∃ s, t = 0x3e :: s := by
              cases t with
              | nil => exact absurd (by decide) hhead
              | cons d s => exact ⟨s, by rw [← of_not_not hhead]; rfl⟩
            refine ⟨[0x2f], by decide, rfl, fun r' => ?_⟩
            simp [XmlTag.scan, hmark]
      · by_cases hspace : isSpace c = true
        · by_cases hempty : tagStr = []
          · rw [XmlTag.scan, if_neg hgt, if_neg hslash, if_pos hspace, if_pos hempty] at h
            cases h
          · exact hmore (Ne.symm hgt) fun s => by
              rw [XmlTag.scan, if_neg hgt, if_neg hslash, if_pos hspace, if_neg hempty]
        · by_cases hend : tagEndFound = true
          · exact hmore (Ne.symm hgt) fun s => by
              rw [XmlTag.scan, if_neg hgt, if_neg hslash, if_neg hspace, if_pos hend]
          · by_cases hlong : XmlTag.maxLength ≤ tagStr.length + 1
            · rw [XmlTag.scan, if_neg hgt, if_neg hslash, if_neg hspace, if_neg hend,
                if_pos hlong] at h
              cases h
            · exact hmore (Ne.symm hgt) fun s => by
                rw [XmlTag.scan, if_neg hgt, if_neg hslash, if_neg hspace, if_neg hend,
                  if_neg hlong]

/-- A tag is all that stands in front of a `>`. -/
theorem read_ok {t r : Bytes} {tag : XmlTag} (h : XmlTag.read t = .ok tag r) :
    ∃ a, (0x3e : UInt8) ∉ a ∧ t = a ++ 0x3e :: r ∧
      ∀ r', XmlTag.read (a ++ 0x3e :: r') = .ok tag r' := by
  by_cases hslash : t.head? = some 0x2f
  · obtain ⟨u, rfl⟩ : ∃ u, t = 0x2f :: u := by
      cases t with
      | nil => cases hslash
      | cons c u =>
        cases hslash
        exact ⟨u, rfl⟩
    rw [XmlTag.read_slash, bind_eq_ok] at h
    obtain ⟨x, s, hscan, hx⟩ := h
    cases hx
    obtain ⟨a, ha, rfl, hrun⟩ := scan_ok hscan
    refine ⟨0x2f :: a, ?_, rfl, fun r' => ?_⟩
    · rw [List.mem_cons, not_or]
      exact ⟨by decide, ha⟩
    · rw [List.cons_append, XmlTag.read_slash, bind_of_ok (hrun r')]
      rfl
  · rw [XmlTag.read_of_ne hslash, bind_eq_ok] at h
    obtain ⟨x, s, hscan, hx⟩ := h
    cases hx
    obtain ⟨a, ha, rfl, hrun⟩ := scan_ok hscan
    refine ⟨a, ha, rfl, fun r' => ?_⟩
    have hhead : (a ++ 0x3e :: r').head? ≠ some 0x2f := by
      cases a with
      | nil => exact fun h => absurd (Option.some.inj h) (by decide)
      | cons c a => exact hslash
    rw [XmlTag.read_of_ne hhead, bind_of_ok (hrun r')]
    rfl

/-- The tag that is read from a text. -/
theorem tagOf_eq {a : Bytes} {tag : XmlTag} (h : ∀ r', XmlTag.read (a ++ 0x3e :: r') = .ok tag r') :
    tagOf a = tag := by
  rw [tagOf, h []]

/-- The characters of a tag that ends behind them are taken, and none of them ends it. -/
theorem scan_append {endTagMarkFound tagEndFound : Bool} {tagStr a r : Bytes} {x : Bytes × Bool}
    (h : XmlTag.scan endTagMarkFound tagStr tagEndFound (a ++ 0x3e :: r) = .ok x r)
    (ha : (0x3e : UInt8) ∉ a) (hlast : a.getLast? ≠ some 0x2f) :
    ∃ tagStr' tagEndFound', x = (tagStr', false) ∧
      ∀ w, XmlTag.scan endTagMarkFound tagStr tagEndFound (a ++ w) =
        XmlTag.scan endTagMarkFound tagStr' tagEndFound' w := by
  induction a generalizing tagStr tagEndFound with
  | nil =>
    cases h
    exact ⟨tagStr, tagEndFound, rfl, fun _ => rfl⟩
  | cons c a ih =>
    rw [List.mem_cons, not_or] at ha
    have hgt : c ≠ 0x3e := Ne.symm ha.1
    have hlast' : a.getLast? ≠ some 0x2f := by
      cases a with
      | nil => exact fun h => nomatch h
      | cons d a => rwa [List.getLast?_cons_cons] at hlast
    -- The character is taken, and the run goes on.
    have hmore {tagStr' : Bytes} {tagEndFound' : Bool}
        (hrun : ∀ s, XmlTag.scan endTagMarkFound tagStr tagEndFound (c :: s) =
          XmlTag.scan endTagMarkFound tagStr' tagEndFound' s) :
        ∃ tagStr' tagEndFound', x = (tagStr', false) ∧
          ∀ w, XmlTag.scan endTagMarkFound tagStr tagEndFound (c :: a ++ w) =
            XmlTag.scan endTagMarkFound tagStr' tagEndFound' w := by
      rw [List.cons_append, hrun] at h
      obtain ⟨tagStr', tagEndFound', hx, hscan⟩ := ih h ha.2 hlast'
      exact ⟨tagStr', tagEndFound', hx, fun w => by rw [List.cons_append, hrun, hscan]⟩
    by_cases hslash : c = 0x2f
    · -- Behind a `/` comes the end, so there is none.
      subst hslash
      rw [List.cons_append, XmlTag.scan, if_neg hgt, if_pos rfl] at h
      cases a with
      | nil => exact absurd rfl hlast
      | cons d a =>
        have hhead : ((d :: a) ++ 0x3e :: r).headD 0 ≠ 0x3e := fun hd =>
          ha.2 (List.mem_cons.mpr (.inl hd.symm))
        rw [if_pos hhead] at h
        split at h <;> cases h
    · by_cases hspace : isSpace c = true
      · by_cases hempty : tagStr = []
        · rw [List.cons_append, XmlTag.scan, if_neg hgt, if_neg hslash, if_pos hspace,
            if_pos hempty] at h
          cases h
        · exact hmore fun s => by
            rw [XmlTag.scan, if_neg hgt, if_neg hslash, if_pos hspace, if_neg hempty]
      · by_cases hend : tagEndFound = true
        · exact hmore fun s => by
            rw [XmlTag.scan, if_neg hgt, if_neg hslash, if_neg hspace, if_pos hend]
        · by_cases hlong : XmlTag.maxLength ≤ tagStr.length + 1
          · rw [List.cons_append, XmlTag.scan, if_neg hgt, if_neg hslash, if_neg hspace, if_neg hend,
              if_pos hlong] at h
            cases h
          · exact hmore fun s => by
              rw [XmlTag.scan, if_neg hgt, if_neg hslash, if_neg hspace, if_neg hend, if_neg hlong]

/-- The tag of an empty element with the name of a start tag, which is the same tag if there is none of
this name. -/
def shortTag : XmlTagName → XmlTag
  | .invalid => .start .invalid
  | e => .empty e

/-- A name of the table. -/
theorem shortTag_of_ne {e : XmlTagName} (h : e ≠ .invalid) : shortTag e = .empty e := by
  cases e with
  | invalid => exact absurd rfl h
  | _ => rfl

/-- It is not the start of another element. -/
theorem shortTag_ne_start {e n : XmlTagName} (h : e ≠ n) : shortTag e ≠ .start n := by
  by_cases hinvalid : e = .invalid
  · subst hinvalid
    exact fun heq => h (XmlTag.start.inj heq)
  · rw [shortTag_of_ne hinvalid]
    exact fun heq => nomatch heq

/-- The name of a tag is found in both forms. -/
theorem lookup_shortened (tagStr : Bytes) : ∃ e, XmlTag.lookup false false tagStr = .start e ∧
    XmlTag.lookup false true tagStr = shortTag e := by
  unfold XmlTag.lookup
  cases hfind : XmlTagName.table.find? fun n => n.text = tagStr with
  | none => exact ⟨.invalid, rfl, rfl⟩
  | some e =>
    have hmem := List.mem_of_find?_eq_some hfind
    have hne : e ≠ .invalid := by
      rintro rfl
      revert hmem
      decide
    exact ⟨e, rfl, (shortTag_of_ne hne).symm⟩

/-- A tag that ends with the first tag of an empty value. -/
theorem getLast?_append_value (b : Bytes) : (b ++ ascii "<value").getLast? ≠ some 0x2f := by
  rw [List.getLast?_append]
  have hlast : (ascii "<value").getLast? = some 0x65 := rfl
  rw [hlast]
  exact fun h => absurd (Option.some.inj h) (by decide)

/-- Where a start tag ends with the first tag of an empty value, the short form makes it an empty
one. -/
theorem read_shortened {b r : Bytes} {tag : XmlTag} (hb : (0x3e : UInt8) ∉ b)
    (hslash : b.head? ≠ some 0x2f)
    (h : XmlTag.read ((b ++ ascii "<value") ++ 0x3e :: r) = .ok tag r) :
    ∃ e, tag = .start e ∧
      ∀ r', XmlTag.read ((b ++ ascii "<value/") ++ 0x3e :: r') = .ok (shortTag e) r' := by
  have hhead (w : Bytes) : (b ++ ascii "<value" ++ w).head? ≠ some 0x2f := by
    cases b with
    | nil => exact fun h => absurd (Option.some.inj h) (by decide)
    | cons c b => exact hslash
  have ha : (0x3e : UInt8) ∉ b ++ ascii "<value" := by
    rw [List.mem_append, not_or]
    exact ⟨hb, by decide⟩
  rw [XmlTag.read_of_ne (hhead _), bind_eq_ok] at h
  obtain ⟨⟨tagStr, emptyTagMarkFound⟩, s, hscan, hx⟩ := h
  cases hx
  obtain ⟨tagStr', tagEndFound, hx, hrun⟩ := scan_append hscan ha (getLast?_append_value b)
  cases hx
  obtain ⟨e, he, hshort⟩ := lookup_shortened tagStr
  refine ⟨e, he, fun r' => ?_⟩
  have hsplit : (b ++ ascii "<value/") ++ 0x3e :: r' =
      (b ++ ascii "<value") ++ 0x2f :: 0x3e :: r' := by
    simp [ascii]
  have hempty : XmlTag.scan false tagStr tagEndFound (0x2f :: 0x3e :: r') = .ok (tagStr, true) r' := by
    rw [XmlTag.scan, if_neg (by decide), if_pos rfl, if_neg Bool.false_ne_true]
    exact if_neg (not_not_intro rfl)
  rw [hsplit, XmlTag.read_of_ne (hhead _), bind_of_ok ((hrun _).trans hempty), ← hshort]
  rfl

/-- Where an end tag ends with the first tag of an empty value, the short form is not a tag. -/
theorem read_shortened_slash {b r : Bytes} {tag : XmlTag} (hb : (0x3e : UInt8) ∉ b)
    (hslash : b.head? = some 0x2f)
    (h : XmlTag.read ((b ++ ascii "<value") ++ 0x3e :: r) = .ok tag r) (r' : Bytes) :
    ∃ f s, XmlTag.read ((b ++ ascii "<value/") ++ 0x3e :: r') = .error f s := by
  obtain ⟨b, rfl⟩ := List.head?_eq_some_iff.mp hslash
  rw [List.mem_cons, not_or] at hb
  have ha : (0x3e : UInt8) ∉ b ++ ascii "<value" := by
    rw [List.mem_append, not_or]
    exact ⟨hb.2, by decide⟩
  rw [List.cons_append, List.cons_append, XmlTag.read_slash, bind_eq_ok] at h
  obtain ⟨⟨tagStr, emptyTagMarkFound⟩, s, hscan, hx⟩ := h
  cases hx
  obtain ⟨tagStr', tagEndFound, -, hrun⟩ := scan_append hscan ha (getLast?_append_value b)
  have hsplit : (0x2f :: b ++ ascii "<value/") ++ 0x3e :: r' =
      0x2f :: ((b ++ ascii "<value") ++ 0x2f :: 0x3e :: r') := by
    simp [ascii]
  have hmark : XmlTag.scan true tagStr' tagEndFound (0x2f :: 0x3e :: r') =
      .error (XmlTag.fault (ascii "Parse error with xml tag: missing >")) (0x3e :: r') := by
    rw [XmlTag.scan, if_neg (by decide), if_pos rfl, if_pos rfl]
  rw [hsplit, XmlTag.read_slash, bind_of_error ((hrun _).trans hmark)]
  exact ⟨_, _, rfl⟩

end AnyRpc.XmlReader
