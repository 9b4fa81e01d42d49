import AnyRpc.Library.Simulation
import AnyRpc.Xml.Lexical

/-! # Reading a document and its short form

Two runs of the reader, on a document and on one in which some of its empty values are written in the
short form, are side by side: `Linked` relates their states, and each part of the second run mirrors
the first. The calls are the same up to the first empty value that is an element of an array and not
its first one: there the second run has no separator. Where an empty value begins in an end tag the
second run throws; where it begins in a start tag the first one does (`Refuses`), unless this is a start
tag of a value or the tag is skipped. -/

namespace AnyRpc.XmlReader

open Library Reader XmlTag

/-- In front of a string the second sequence of calls lacks a separator. -/
def Diverged (es es' : List Event) : Prop :=
  ∃ fs arg, fs ++ [.arraySeparator] <+: es ∧ fs ++ [.scalar (.string arg)] <+: es'

/-- The calls of the two runs, where the empty values of `ls` are still to come and `P` tells whether all
of them are harmless. -/
inductive Agree (P : Prop) (ls : List Lex) : List Event → List Event → Prop
  | same (es : List Event) : (P ↔ ∀ l ∈ ls, l.Harmless) → Agree P ls es es
  | diverged {es es' : List Event} : ¬ P → Diverged es es' → Agree P ls es es'

namespace Agree

variable {P : Prop} {l : Lex} {ls ls' : List Lex} {es es' : List Event}

/-- A call of both runs. -/
theorem append (h : Agree P ls es es') (fs : List Event) : Agree P ls (es ++ fs) (es' ++ fs) := by
  cases h with
  | same hls => exact .same _ hls
  | diverged hP h =>
    obtain ⟨gs, arg, hes, hes'⟩ := h
    exact .diverged hP ⟨gs, arg, hes.trans (List.prefix_append _ _),
      hes'.trans (List.prefix_append _ _)⟩

/-- Empty values that are harmless. -/
theorem drop (h : Agree P (ls ++ ls') es es') (hls : ∀ l ∈ ls, l.Harmless) :
    Agree P ls' es es' := by
  cases h with
  | same hall => exact .same _ (hall.trans (List.forall_mem_append.trans (and_iff_right hls)))
  | diverged hP h => exact .diverged hP h

/-- One of them. -/
theorem tail (h : Agree P (l :: ls) es es') (hl : l.Harmless) : Agree P ls es es' :=
  have hsplit : Agree P ([l] ++ ls) es es' := h
  hsplit.drop (List.forall_mem_singleton.mpr hl)

/-- An empty value that is not. -/
theorem not_of_not_harmless (h : Agree P (l :: ls) es es') (hl : ¬ l.Harmless) : ¬ P := by
  cases h with
  | same hall => exact fun hP => hl (hall.mp hP l List.mem_cons_self)
  | diverged hP h => exact hP

/-- An empty value without the separator in front of it. -/
theorem diverge (h : Agree P (l :: ls) es es') (hl : ¬ l.Harmless) (arg : StrArg) :
    Agree P ls (es ++ [.arraySeparator, .scalar (.string arg)]) (es' ++ [.scalar (.string arg)]) := by
  have hP := h.not_of_not_harmless hl
  cases h with
  | same hall =>
    refine .diverged hP ⟨es, arg, ?_, List.prefix_rfl⟩
    exact ⟨[.scalar (.string arg)], by simp⟩
  | diverged _ h =>
    obtain ⟨gs, arg', hes, hes'⟩ := h
    exact .diverged hP ⟨gs, arg', hes.trans (List.prefix_append _ _),
      hes'.trans (List.prefix_append _ _)⟩

end Agree

/-- What is still to be read, with the `<` that is taken already. -/
def unread (skip : Bool) (t : Bytes) : Bytes := if skip then 0x3c :: t else t

/-- The states of two runs at a place that `l` describes. The second run has fewer than `n` bytes
left. -/
structure Linked (root : XmlTagName) (P : Prop) (l : Lex) (skip : Bool) (n : ℕ)
    (s s' : ReaderState XmlReader) : Prop where
  skip_left : s.sub.tagSkipFirstChar = skip
  skip_right : s'.sub.tagSkipFirstChar = skip
  inSitu : s'.is.inSitu = s.is.inSitu
  copy : s'.is.copy = s.is.copy
  left : s'.is.rest.length < n
  texts : ∃ ls, Shortened root l (unread skip s.is.rest) (unread skip s'.is.rest) ls ∧
    Agree P ls s.events s'.events

/-- Between the tags of an empty value, where the first one is, or ends, the start of an element: the
second run is behind the short form. -/
structure Cut (root : XmlTagName) (P : Prop) (k : Context) (element : XmlTagName) (n : ℕ)
    (s s' : ReaderState XmlReader) : Prop where
  skip_left : s.sub.tagSkipFirstChar = false
  skip_right : s'.sub.tagSkipFirstChar = false
  inSitu : s'.is.inSitu = s.is.inSitu
  copy : s'.is.copy = s.is.copy
  left : s'.is.rest.length < n
  texts : ∃ t l ls, s.is.rest = ascii "</value>" ++ t ∧ (l.Harmless ↔ ¬ k.BehindValue) ∧
    Shortened root (.text ((k.next root (.start element)).next root (.close .value))) t s'.is.rest
      ls ∧
    Agree P (l :: ls) s.events s'.events

section

variable {root : XmlTagName} {P : Prop} {l : Lex} {k : Context} {skip : Bool} {m n : ℕ}
  {s s' : ReaderState XmlReader}

/-- A larger bound on what is left. -/
theorem Linked.mono (h : Linked root P l skip m s s') (hmn : m ≤ n) :
    Linked root P l skip n s s' :=
  { h with left := h.left.trans_le hmn }

/-- As much is left as there is. -/
theorem Linked.tight (h : Linked root P l skip n s s') :
    Linked root P l skip (s'.is.rest.length + 1) s s' :=
  { h with left := Nat.lt_succ_self _ }

/-- Both runs make a call. -/
theorem Linked.call (h : Linked root P l skip n s s') (e : Event) :
    Linked root P l skip n { s with calls := s.calls ++ [⟨e, s.is.tell⟩] }
      { s' with calls := s'.calls ++ [⟨e, s'.is.tell⟩] } := by
  obtain ⟨ls, hls, hagree⟩ := h.texts
  refine { h with texts := ⟨ls, hls, ?_⟩ }
  simpa [ReaderState.events] using hagree.append [e]

/-- A call of both runs. -/
theorem mirrors_call (h : Linked root P l skip n s s') (e : Event) :
    Mirrors (¬ P) (fun _ s _ s' => Linked root P l skip n s s') (Reader.call e s)
      (Reader.call e s') :=
  mirrors_ok (h.call e)

/-! ## Tags -/

/-- White space in front of a tag is the same. -/
theorem Shortened.dropWhile {t t' : Bytes} {ls : List Lex}
    (h : Shortened root (.text k) t t' ls) :
    Shortened root (.text k) (t.dropWhile isSpace) (t'.dropWhile isSpace) ls := by
  induction t generalizing t' with
  | nil =>
    obtain ⟨rfl, rfl⟩ := h.of_nil
    exact h
  | cons c t ih =>
    have hhead := h.head?_eq
    by_cases hc : isSpace c = true
    · have hcopy : c ≠ 0x3c ∧ c ≠ 0x26 := by
        constructor
        · rintro rfl
          cases hc
        · rintro rfl
          cases hc
      obtain ⟨u, rfl, hu⟩ := Shortened.of_append (a := [c]) h fun d hd =>
        List.mem_singleton.mp hd ▸ hcopy
      rw [List.dropWhile_cons_of_pos hc, List.singleton_append, List.dropWhile_cons_of_pos hc]
      exact ih hu
    · cases t' with
      | nil => cases hhead
      | cons d t' =>
        cases hhead
        rwa [List.dropWhile_cons_of_neg hc, List.dropWhile_cons_of_neg hc]

/-- A tag is read behind its `<`, in front of which there is only white space. -/
theorem getNextTag_of_lt {t : Bytes}
    (ht : (unread s.sub.tagSkipFirstChar s.is.rest).dropWhile isSpace = 0x3c :: t) :
    ∃ j, (s.is.advance j).rest = t ∧ getNextTag s = onText XmlTag.read
      { s with is := s.is.advance j, sub := { s.sub with tagSkipFirstChar := false } } := by
  cases hskip : s.sub.tagSkipFirstChar with
  | true =>
    rw [hskip, unread, if_pos rfl, List.dropWhile_cons_of_neg (by decide)] at ht
    refine ⟨0, ?_, ?_⟩
    · rw [ReadStream.advance_zero]
      exact (List.cons.inj ht).2
    · simp [getNextTag, hskip]
  | false =>
    rw [hskip, unread, if_neg Bool.false_ne_true] at ht
    have hsplit : s.is.rest = s.is.rest.takeWhile isSpace ++ 0x3c :: t := by
      rw [← ht, List.takeWhile_append_dropWhile]
    have hrest := s.is.rest_advance_of_append hsplit
    refine ⟨(s.is.rest.takeWhile isSpace).length + 1, ?_, ?_⟩
    · rw [← ReadStream.advance_advance, ReadStream.rest_advance, hrest]
      rfl
    · rw [ReadStream.rest_advance] at hrest
      simp [getNextTag, hskip, ReadStream.eof, ReadStream.peek, hrest]

/-- Without a `<` there is no tag. -/
theorem getNextTag_of_ne
    (ht : ∀ t, (unread s.sub.tagSkipFirstChar s.is.rest).dropWhile isSpace ≠ 0x3c :: t) :
    ∃ f s₁, getNextTag s = .error f s₁ := by
  cases hskip : s.sub.tagSkipFirstChar with
  | true =>
    rw [hskip, unread, if_pos rfl, List.dropWhile_cons_of_neg (by decide)] at ht
    exact absurd rfl (ht s.is.rest)
  | false =>
    rw [hskip, unread, if_neg Bool.false_ne_true] at ht
    have hrest := s.is.rest_advance_of_append
      (List.takeWhile_append_dropWhile (p := isSpace) (l := s.is.rest)).symm
    rw [ReadStream.rest_advance] at hrest
    cases hw : s.is.rest.dropWhile isSpace with
    | nil => simp [getNextTag, hskip, ReadStream.eof, hrest, hw]
    | cons c t =>
      have hc : c ≠ 0x3c := by
        rintro rfl
        exact ht t hw
      simp [getNextTag, hskip, ReadStream.eof, ReadStream.peek, hrest, hw, hc, throwTag]

/-- A tag whose text is at hand. -/
theorem getNextTag_of_read {a r : Bytes} {tag : XmlTag}
    (ht : (unread s.sub.tagSkipFirstChar s.is.rest).dropWhile isSpace = 0x3c :: (a ++ 0x3e :: r))
    (hread : ∀ r', XmlTag.read (a ++ 0x3e :: r') = .ok tag r') :
    ∃ j, (s.is.advance j).rest = r ∧ getNextTag s =
      .ok tag { s with is := s.is.advance j, sub := { s.sub with tagSkipFirstChar := false } } := by
  obtain ⟨i, hi, hget⟩ := getNextTag_of_lt ht
  have hsplit : (s.is.advance i).rest = (a ++ [0x3e]) ++ r := by rw [hi]; simp
  have hrest := ReadStream.rest_advance_sub _ hsplit
  have hread' : XmlTag.read (s.is.advance i).rest = .ok tag r := by rw [hi, hread r]
  rw [ReadStream.advance_advance] at hrest
  refine ⟨_, hrest, ?_⟩
  rw [hget, onText_of_ok hread', ReadStream.advance_advance]

/-- The text of a tag that is read. -/
theorem getNextTag_eq_ok {tag : XmlTag} {s₁ : ReaderState XmlReader}
    (h : getNextTag s = .ok tag s₁) :
    ∃ a j, (0x3e : UInt8) ∉ a ∧
      (unread s.sub.tagSkipFirstChar s.is.rest).dropWhile isSpace =
        0x3c :: (a ++ 0x3e :: s₁.is.rest) ∧
      (∀ r', XmlTag.read (a ++ 0x3e :: r') = .ok tag r') ∧
      s₁ = { s with is := s.is.advance j, sub := { s.sub with tagSkipFirstChar := false } } := by
  by_cases hlt : ∃ t, (unread s.sub.tagSkipFirstChar s.is.rest).dropWhile isSpace = 0x3c :: t
  · obtain ⟨t, ht⟩ := hlt
    obtain ⟨i, hi, hget⟩ := getNextTag_of_lt ht
    cases hread : XmlTag.read t with
    | error f r =>
      rw [hget, onText_of_error (by rw [hi, hread])] at h
      cases h
    | ok tag' r =>
      obtain ⟨a, ha, rfl, hrun⟩ := read_ok hread
      obtain ⟨j, hj, hget'⟩ := getNextTag_of_read ht hrun
      rw [hget'] at h
      cases h
      exact ⟨a, j, ha, by rw [ht, hj], hrun, rfl⟩
  · obtain ⟨f, s₂, hget⟩ := getNextTag_of_ne (s := s) fun t ht => hlt ⟨t, ht⟩
    rw [hget] at h
    cases h

/-- A tag takes bytes. -/
theorem length_of_dropWhile {t a r : Bytes}
    (h : (unread skip t).dropWhile isSpace = 0x3c :: (a ++ 0x3e :: r)) : r.length < t.length := by
  have hle := List.length_dropWhile_le isSpace (unread skip t)
  have hskip : (unread skip t).length ≤ t.length + 1 := by
    cases skip
    · exact Nat.le_succ _
    · exact le_rfl
  rw [h, List.length_cons, List.length_append, List.length_cons] at hle
  omega

/-- The first tag of a value. -/
theorem read_value (r : Bytes) :
    XmlTag.read (ascii "value" ++ 0x3e :: r) = .ok (.start .value) r := rfl

/-- The short form of an empty value. -/
theorem read_empty_value (r : Bytes) :
    XmlTag.read (ascii "value/" ++ 0x3e :: r) = .ok (.empty .value) r := rfl

/-- The last tag of a value. -/
theorem read_close_value (r : Bytes) :
    XmlTag.read (ascii "/value" ++ 0x3e :: r) = .ok (.close .value) r := rfl

/-- What is not a tag is not read. -/
theorem getNextTag_of_read_error {t r : Bytes} {f : Fault}
    (ht : (unread s.sub.tagSkipFirstChar s.is.rest).dropWhile isSpace = 0x3c :: t)
    (hread : XmlTag.read t = .error f r) : ∃ s₁, getNextTag s = .error f s₁ := by
  obtain ⟨i, hi, hget⟩ := getNextTag_of_lt ht
  rw [hget, onText_of_error (by rw [hi, hread])]
  exact ⟨_, rfl⟩

/-- Both runs read a tag: the same one, or the start of an element, which the short form of an empty
value behind it makes an empty one, or the end of one, in which it cannot be. -/
theorem mirrors_getNextTag (h : Linked root P (.text k) skip (n + 1) s s') (hk : k ≠ .done) :
    Mirrors (¬ P) (fun tag s tag' s' =>
      tag' = tag ∧ Linked root P (.text (k.next root tag)) false n s s' ∨
        ∃ element, tag = .start element ∧ tag' = shortTag element ∧ Cut root P k element n s s')
      (getNextTag s) (getNextTag s') := by
  intro tag s₁ hrun
  obtain ⟨ls, hls, hagree⟩ := h.texts
  obtain ⟨a, j, ha, ht, hread, rfl⟩ := getNextTag_eq_ok hrun
  have hdrop := hls.dropWhile
  have hleft := h.left
  rw [h.skip_left] at ht
  rw [ht] at hdrop
  -- An empty value in the short form, from behind the start of an element.
  have hcut {b u u' : Bytes} {l : Lex} {ls' : List Lex} {element : XmlTagName}
      (hl : l.Harmless ↔ ¬ k.BehindValue) (hls : ls = l :: ls')
      (ht' : (unread skip s'.is.rest).dropWhile isSpace = 0x3c :: (b ++ 0x3e :: u'))
      (hread' : ∀ r', XmlTag.read (b ++ 0x3e :: r') = .ok (shortTag element) r')
      (hrest : (s.is.advance j).rest = ascii "</value>" ++ u)
      (hvalue : Shortened root
        (.text ((k.next root (.start element)).next root (.close .value))) u u' ls') :
      ∃ s₁', getNextTag s' = .ok (shortTag element) s₁' ∧ Cut root P k element n
        { s with is := s.is.advance j, sub := { s.sub with tagSkipFirstChar := false } } s₁' := by
    obtain ⟨j', hj', hget'⟩ := getNextTag_of_read (h.skip_right.symm ▸ ht') hread'
    have hlength := length_of_dropWhile ht'
    refine ⟨_, hget', ?_⟩
    exact { skip_left := rfl, skip_right := rfl, inSitu := h.inSitu, copy := h.copy
            left := by rw [hj']; omega
            texts := ⟨u, l, ls', hrest, hl, by rw [hj']; exact hvalue, hls ▸ hagree⟩ }
  obtain ⟨t, hu, htag⟩ | ⟨u, u', ls', ht', hu, hls', hvalue⟩ := hdrop.of_lt
  · rw [Lex.step, if_pos rfl] at htag
    obtain ⟨r, rfl, hr⟩ | ⟨b, u, u', ls', rfl, hrest, rfl, hls', hvalue⟩ := htag.of_tag ha
    · rw [List.nil_append, tagOf_eq hread] at hr
      obtain ⟨j', hj', hget'⟩ := getNextTag_of_read (h.skip_right.symm ▸ hu) hread
      have hlength := length_of_dropWhile hu
      refine .inl ⟨tag, _, hget', .inl ⟨rfl, ?_⟩⟩
      exact { skip_left := rfl, skip_right := rfl, inSitu := h.inSitu, copy := h.copy
              left := by rw [hj']; omega
              texts := ⟨ls, by rw [hj']; exact hr, hagree⟩ }
    · have hb : (0x3e : UInt8) ∉ b := fun hmem => ha (List.mem_append_left _ hmem)
      have hu' : (unread skip s'.is.rest).dropWhile isSpace =
          0x3c :: ((b ++ ascii "<value/") ++ 0x3e :: u') := by
        rw [hu]
        simp [ascii]
      rw [List.nil_append, tagOf_eq hread] at hvalue
      rw [List.nil_append] at hls'
      -- An end tag takes no `/`, so the short form is an error there.
      by_cases hslash : b.head? = some 0x2f
      · obtain ⟨f, r, herror⟩ := read_shortened_slash hb hslash (hread []) u'
        obtain ⟨s₁', hget'⟩ := getNextTag_of_read_error (h.skip_right.symm ▸ hu') herror
        have hl : ¬ (Lex.tag k b).Harmless := by
          rintro (hdone | ⟨hnot, -⟩)
          · exact hk hdone
          · exact hnot hslash
        exact .inr ⟨(hls' ▸ hagree).not_of_not_harmless hl, f, s₁', hget'⟩
      · obtain ⟨element, rfl, hread'⟩ := read_shortened hb hslash (hread [])
        have hl : (Lex.tag k b).Harmless ↔ ¬ k.BehindValue := by
          rw [Lex.Harmless, or_iff_right hk, and_iff_right hslash]
        obtain ⟨s₁', hget', hcut⟩ := hcut hl hls' hu' hread' hrest hvalue
        exact .inl ⟨_, s₁', hget', .inr ⟨element, rfl, rfl, hcut⟩⟩
  · -- The empty value begins here, so the first run reads its first tag.
    have htag : XmlTag.read (a ++ 0x3e :: (s.is.advance j).rest) =
        .ok (.start .value) (ascii "</value>" ++ u) := by
      rw [ht']
      exact read_value _
    rw [hread] at htag
    obtain ⟨rfl, hrest⟩ := EStateM.Result.ok.inj htag
    rw [foldl_value_text] at hvalue
    have hu' : (unread skip s'.is.rest).dropWhile isSpace = 0x3c :: (ascii "value/" ++ 0x3e :: u') := hu
    have hread' : ∀ r', XmlTag.read (ascii "value/" ++ 0x3e :: r') = .ok (shortTag .value) r' :=
      read_empty_value
    obtain ⟨s₁', hget', hcut⟩ := hcut Iff.rfl hls' hu' hread' hrest hvalue
    exact .inl ⟨_, s₁', hget', .inr ⟨.value, rfl, rfl, hcut⟩⟩

/-! ## In front of the end of a value -/

/-- The tag that comes next is the end of a value. -/
theorem getNextTag_bind_close {α : Type} {t : Bytes} {f : XmlTag → ReadM α}
    (hrest : unread s.sub.tagSkipFirstChar s.is.rest = ascii "</value>" ++ t)
    (hf : ∀ s, ∃ e s₁, f (.close .value) s = .error e s₁) :
    ∃ e s₁, (getNextTag >>= f) s = .error e s₁ := by
  have hunread : (unread s.sub.tagSkipFirstChar s.is.rest).dropWhile isSpace =
      0x3c :: (ascii "/value" ++ 0x3e :: t) := by
    rw [hrest]
    rfl
  obtain ⟨j, -, hget⟩ := getNextTag_of_read hunread read_close_value
  obtain ⟨e, s₁, hrun⟩ := hf { s with is := s.is.advance j
                                      sub := { s.sub with tagSkipFirstChar := false } }
  exact ⟨e, s₁, (bind_of_ok hget).trans hrun⟩

/-- It is not the tag that is expected. -/
theorem expectTag_bind_close {α : Type} {t : Bytes} {expected : XmlTag} (f : Unit → ReadM α)
    (hrest : unread s.sub.tagSkipFirstChar s.is.rest = ascii "</value>" ++ t)
    (hne : expected ≠ .close .value) : ∃ e s₁, (expectTag expected >>= f) s = .error e s₁ := by
  rw [expectTag, bind_assoc]
  refine getNextTag_bind_close hrest fun s => ?_
  rw [if_pos (Ne.symm hne)]
  exact ⟨_, _, rfl⟩

/-- The end of a value comes next. -/
def AtClose (s : ReaderState XmlReader) : Prop :=
  s.sub.tagSkipFirstChar = false ∧ ∃ t, s.is.rest = ascii "</value>" ++ t

/-- Behind the first tag of an empty value comes the second one. -/
theorem Cut.atClose {element : XmlTagName} (h : Cut root P k element n s s') : AtClose s := by
  obtain ⟨t, -, -, hrest, -⟩ := h.texts
  exact ⟨h.skip_left, t, hrest⟩

/-- It is not begun yet. -/
theorem AtClose.unread_eq (h : AtClose s) :
    ∃ t, unread s.sub.tagSkipFirstChar s.is.rest = ascii "</value>" ++ t := by
  obtain ⟨hskip, t, hrest⟩ := h
  exact ⟨t, by rw [hskip, unread, if_neg Bool.false_ne_true, hrest]⟩

/-- A part of a document does not begin with the end of a value. -/
def Refuses {α : Type} (p : ReadM α) : Prop := ∀ s, AtClose s → ∃ f s₁, p s = .error f s₁

namespace Refuses

variable {α β : Type} {p q : ReadM α}

/-- Nothing has to follow. -/
theorem mirrors {F : Prop} {Q : α → ReaderState XmlReader → β → ReaderState XmlReader → Prop}
    {r' : EStateM.Result Fault (ReaderState XmlReader) β} (hp : Refuses p) (hs : AtClose s) :
    Mirrors F Q (p s) r' := by
  obtain ⟨f, s₁, hrun⟩ := hp s hs
  rw [hrun]
  exact mirrors_error _ _ _

/-- What follows does not matter. -/
theorem bind (hp : Refuses p) (f : α → ReadM β) : Refuses (p >>= f) := by
  intro s hs
  obtain ⟨e, s₁, hrun⟩ := hp s hs
  exact ⟨e, s₁, bind_of_error hrun⟩

/-- Both branches. -/
theorem ite {c : Prop} [Decidable c] (hp : c → Refuses p) (hq : ¬ c → Refuses q) :
    Refuses (if c then p else q) := by
  by_cases h : c
  · rw [if_pos h]
    exact hp h
  · rw [if_neg h]
    exact hq h

/-- A call takes nothing. -/
theorem call {p : Unit → ReadM α} (hp : Refuses (p ())) (e : Event) :
    Refuses (Reader.call e >>= p) :=
  fun s hs => hp { s with calls := s.calls ++ [⟨e, s.is.tell⟩] } hs

/-- The state is only read. -/
theorem get {f : ReaderState XmlReader → ReadM α} (hf : ∀ t, Refuses (f t)) :
    Refuses (MonadState.get >>= f) :=
  fun s hs => hf s s hs

/-- The tag is the end of a value. -/
theorem getNextTag {f : XmlTag → ReadM α}
    (hf : ∀ s, ∃ e s₁, f (.close .value) s = .error e s₁) : Refuses (XmlReader.getNextTag >>= f) := by
  intro s hs
  obtain ⟨t, hrest⟩ := hs.unread_eq
  exact getNextTag_bind_close hrest hf

/-- It is not the tag that is expected. -/
theorem expectTag {expected : XmlTag} (hne : expected ≠ .close .value) (f : Unit → ReadM α) :
    Refuses (XmlReader.expectTag expected >>= f) := by
  intro s hs
  obtain ⟨t, hrest⟩ := hs.unread_eq
  exact expectTag_bind_close f hrest hne

end Refuses

/-- An exception. -/
theorem refuses_throw {α : Type} (f : Fault) : Refuses (throw f : ReadM α) :=
  fun s _ => ⟨f, s, rfl⟩

/-! ## Tags that are expected -/

/-- Both runs read a tag that is expected, behind which the end of a value is not. -/
theorem mirrors_expectTag_bind {α β : Type} {p : Unit → ReadM α} {p' : Unit → ReadM β}
    {Q : α → ReaderState XmlReader → β → ReaderState XmlReader → Prop}
    (h : Linked root P (.text k) skip n s s') (hk : k ≠ .done) {expected : XmlTag}
    (hrefuses : ∀ element, expected = .start element → Refuses (p ()))
    (hp : ∀ s s', Linked root P (.text (k.next root expected)) false n s s' →
      Mirrors (¬ P) Q (p () s) (p' () s')) :
    Mirrors (¬ P) Q ((expectTag expected >>= p) s) ((expectTag expected >>= p') s') := by
  cases n with
  | zero => exact absurd h.left (Nat.not_lt_zero _)
  | succ n =>
    rw [expectTag, bind_assoc, bind_assoc]
    refine (mirrors_getNextTag h hk).bind ?_
    rintro tag s₁ tag' s₁' (⟨rfl, hlinked⟩ | ⟨element, rfl, rfl, hcut⟩)
    · by_cases htag : tag' = expected
      · rw [if_neg (not_not_intro htag)]
        exact hp _ _ (htag ▸ hlinked.mono (Nat.le_succ n))
      · rw [if_pos htag]
        exact mirrors_error _ _ _
    · by_cases htag : XmlTag.start element = expected
      · rw [if_neg (not_not_intro htag)]
        exact (hrefuses element htag.symm).mirrors hcut.atClose
      · rw [if_pos htag]
        exact mirrors_error _ _ _

/-- Both runs read the end of an element that is expected. -/
theorem mirrors_expectTag (h : Linked root P (.text k) skip n s s') (hk : k ≠ .done)
    (element : XmlTagName) :
    Mirrors (¬ P) (fun _ s _ s' => Linked root P (.text (k.next root (.close element))) false n s s')
      (expectTag (.close element) s) (expectTag (.close element) s') := by
  have hbind : Mirrors (¬ P)
      (fun _ s _ s' => Linked root P (.text (k.next root (.close element))) false n s s')
      ((expectTag (.close element) >>= pure) s) ((expectTag (.close element) >>= pure) s') :=
    mirrors_expectTag_bind h hk (fun _ h => nomatch h) fun _ _ h => mirrors_ok h
  rwa [bind_pure] at hbind

/-- Both runs are in as many open elements, not directly behind the start of a response. -/
def Inside (root : XmlTagName) (P : Prop) (depth n : ℕ) (s s' : ReaderState XmlReader) : Prop :=
  ∃ last, last ≠ .methodResponse ∧ Linked root P (.text (.body depth last)) false n s s'

/-- A larger bound on what is left. -/
theorem Inside.mono {depth : ℕ} (h : Inside root P depth m s s') (hmn : m ≤ n) :
    Inside root P depth n s s' := by
  obtain ⟨last, hlast, h⟩ := h
  exact ⟨last, hlast, h.mono hmn⟩

/-- A call behind a part. -/
theorem Inside.call {depth : ℕ} (h : Inside root P depth n s s') (e : Event) :
    Mirrors (¬ P) (fun _ s _ s' => Inside root P depth n s s') (Reader.call e s)
      (Reader.call e s') := by
  obtain ⟨last, hlast, h⟩ := h
  exact (mirrors_call h e).mono fun _ _ _ _ h => ⟨last, hlast, h⟩

/-- An end tag is not the start of a response. -/
theorem Last.of_close_ne (element : XmlTagName) : Last.of (.close element) ≠ .methodResponse := by
  cases element <;> decide

/-- Nor is an empty tag. -/
theorem Last.of_empty_ne (element : XmlTagName) : Last.of (.empty element) ≠ .methodResponse := by
  cases element <;> decide

/-- Both runs read the end of an element. -/
theorem mirrors_close {depth : ℕ} {last : Last}
    (h : Linked root P (.text (.body (depth + 2) last)) skip n s s') (element : XmlTagName) :
    Mirrors (¬ P) (fun _ s _ s' => Inside root P (depth + 1) n s s')
      (expectTag (.close element) s) (expectTag (.close element) s') :=
  (mirrors_expectTag h Context.body_ne_done element).mono
    fun _ _ _ _ h => ⟨_, Last.of_close_ne element, h⟩

end

end AnyRpc.XmlReader
