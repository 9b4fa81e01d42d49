import AnyRpc.Xml.Faults
import AnyRpc.Xml.ShortenValue

/-! # Documents with empty values in the short form

Whether a document is still accepted, with the same value, when some of its `<value></value>` are
written as `<value/>`. -/

namespace AnyRpc.XmlReader

open Library Reader XmlTag Handler

section

variable {root : XmlTagName} {P : Prop} {n : ℕ} {s s' : ReaderState XmlReader}

/-! ## The parts of a document -/

/-- The end of a parameter. -/
theorem mirrors_closeParam {depth : ℕ} {α β : Type} {Q : α → ReaderState XmlReader → β →
    ReaderState XmlReader → Prop} {p : ReadM α} {p' : ReadM β}
    (h : Linked root P (.text (.body (depth + 2) .value)) false n s s')
    (hp : ∀ s s', Inside root P (depth + 1) n s s' → Mirrors (¬ P) Q (p s) (p' s')) :
    Mirrors (¬ P) Q
      ((do
        let tag ← getNextTag
        if tag ≠ .close .param then
          throwFoundExpected tag (.close .params)
        p : ReadM α) s)
      ((do
        let tag ← getNextTag
        if tag ≠ .close .param then
          throwFoundExpected tag (.close .params)
        p' : ReadM β) s') := by
  cases n with
  | zero => exact absurd h.left (Nat.not_lt_zero _)
  | succ n =>
    refine (mirrors_getNextTag h Context.body_ne_done).bind ?_
    rintro tag s₁ tag' s₁' (⟨rfl, h₁⟩ | ⟨element, rfl, rfl, -⟩)
    · by_cases htag : tag' = .close .param
      · subst htag
        simp only [ne_eq, not_true_eq_false, if_false]
        exact hp _ _ ⟨_, by decide, h₁.mono (Nat.le_succ n)⟩
      · simp only [ne_eq, htag, not_false_eq_true, if_true]
        exact mirrors_error _ _ _
    · exact mirrors_error _ _ _

/-- The tags of an empty value in the prolog are skipped in both forms. -/
theorem skipTo_cut {element : XmlTagName} (helement : element ≠ root)
    (h : Cut root P .prolog element n s s') (fuel : ℕ) :
    (∃ f s₁, skipTo (.start root) fuel s = .error f s₁) ∨ ∃ fuel₁ s₁,
      skipTo (.start root) fuel s = skipTo (.start root) fuel₁ s₁ ∧
        Linked root P (.text .prolog) false n s₁ s' := by
  cases fuel with
  | zero => exact .inl ⟨_, _, rfl⟩
  | succ fuel =>
    obtain ⟨t, l, ls, hrest, hl, hls, hagree⟩ := h.texts
    have hunread : (unread s.sub.tagSkipFirstChar s.is.rest).dropWhile isSpace =
        0x3c :: (ascii "/value" ++ 0x3e :: t) := by
      rw [h.skip_left, hrest]
      rfl
    obtain ⟨j, hj, hget⟩ := getNextTag_of_read hunread read_close_value
    have hstart : XmlTag.start element ≠ .start root := fun h => helement (XmlTag.start.inj h)
    have hclose : XmlTag.close .value ≠ .start root := fun h => nomatch h
    rw [Context.next, if_neg hstart, Context.next, if_neg hclose] at hls
    refine .inr ⟨fuel, { s with is := s.is.advance j
                                sub := { s.sub with tagSkipFirstChar := false } }, ?_, ?_⟩
    · rw [skipTo, bind_of_ok hget, if_pos hclose]
    · exact { skip_left := rfl, skip_right := h.skip_right, inSitu := h.inSitu, copy := h.copy
              left := h.left
              texts := ⟨ls, by rw [hj]; exact hls, hagree.tail (hl.mpr fun h => h.elim)⟩ }

/-- The loop over the prolog, and what is read behind it. -/
theorem mirrors_skipTo_bind {α β : Type} {Q : α → ReaderState XmlReader → β →
    ReaderState XmlReader → Prop} {p : Unit → ReadM α} {p' : Unit → ReadM β} (fuel : ℕ)
    (h : Linked root P (.text .prolog) false n s s')
    (hrefuses : Refuses (p ()))
    (hp : ∀ s s', Linked root P (.text (.body 1 (Last.of (.start root)))) false n s s' →
      Mirrors (¬ P) Q (p () s) (p' () s')) :
    Mirrors (¬ P) Q ((skipTo (.start root) fuel >>= p) s)
      ((skipTo (.start root) n >>= p') s') := by
  induction n generalizing s s' fuel with
  | zero => exact absurd h.left (Nat.not_lt_zero _)
  | succ n ih =>
    cases fuel with
    | zero => exact mirrors_error _ _ _
    | succ fuel =>
      have hle := Nat.le_succ n
      have hloop (fuel : ℕ) {s s' : ReaderState XmlReader}
          (h : Linked root P (.text .prolog) false n s s') :=
        ih fuel h fun s s' h => hp s s' (h.mono hle)
      rw [skipTo, skipTo, bind_assoc, bind_assoc]
      refine (mirrors_getNextTag h (by decide)).bind ?_
      rintro tag s₁ tag' s₁' (⟨rfl, h₁⟩ | ⟨element, rfl, rfl, hcut⟩)
      · by_cases ht : tag' = .start root
        · rw [Context.next, if_pos ht, ht] at h₁
          rw [if_neg (not_not_intro ht), if_neg (not_not_intro ht)]
          exact hp _ _ (h₁.mono hle)
        · rw [Context.next, if_neg ht] at h₁
          rw [if_pos ht, if_pos ht]
          exact hloop fuel h₁
      · by_cases helement : element = root
        · -- The root begins in the empty value.
          subst helement
          rw [if_neg (not_not_intro rfl)]
          exact hrefuses.mirrors hcut.atClose
        · -- Any other start is skipped, and so is the end of the value behind it.
          have hstart : XmlTag.start element ≠ .start root :=
            fun h => helement (XmlTag.start.inj h)
          rw [if_pos hstart, if_pos (shortTag_ne_start helement)]
          obtain ⟨f, s₂, hrun⟩ | ⟨fuel₁, s₂, hrun, h₂⟩ := skipTo_cut helement hcut fuel
          · rw [bind_of_error hrun]
            exact mirrors_error _ _ _
          · rw [bind_apply, hrun, ← bind_apply]
            exact hloop fuel₁ h₂

/-- White space in front of a document. -/
theorem Linked.skipWhiteSpace {k : Context} (h : Linked root P (.text k) false n s s') :
    Linked root P (.text k) false n
      { s with is := s.is.advance (s.is.rest.takeWhile isSpace).length }
      { s' with is := s'.is.advance (s'.is.rest.takeWhile isSpace).length } := by
  have hrest (s : ReaderState XmlReader) :
      (s.is.advance (s.is.rest.takeWhile isSpace).length).rest = s.is.rest.dropWhile isSpace :=
    s.is.rest_advance_of_append List.takeWhile_append_dropWhile.symm
  obtain ⟨ls, hls, hagree⟩ := h.texts
  refine ⟨h.skip_left, h.skip_right, h.inSitu, h.copy, ?_, ls, ?_, hagree⟩
  · rw [hrest]
    exact (List.length_dropWhile_le _ _).trans_lt h.left
  · rw [hrest, hrest]
    exact hls.dropWhile

/-- What is left of the relation at the end. -/
def Finished (P : Prop) (s s' : ReaderState XmlReader) : Prop :=
  P ∧ s'.events = s.events ∨ ¬ P ∧ Diverged s.events s'.events

/-- With harmless values left, the calls decide. -/
theorem Agree.finished {ls : List Lex} (h : Agree P ls s.events s'.events)
    (hls : ∀ l ∈ ls, l.Harmless) : Finished P s s' := by
  rw [Finished]
  generalize s.events = es, s'.events = es' at h ⊢
  cases h with
  | same hall => exact .inl ⟨hall.mpr hls, rfl⟩
  | diverged hP hdiverged => exact .inr ⟨hP, hdiverged⟩

/-- Behind the root nothing is to come that matters. -/
theorem Linked.finished (h : Linked root P (.text .done) false n s s') : Finished P s s' := by
  obtain ⟨ls, hls, hagree⟩ := h.texts
  exact hagree.finished (hls.harmless rfl)

/-! ## The parts in front of the end of a value -/

/-- Among parameters there is no end of a value. -/
theorem refuses_parseParamsLoop [Platform] (fuel count : ℕ) :
    Refuses (parseParamsLoop fuel count) := by
  cases fuel with
  | zero => exact refuses_throw _
  | succ fuel => exact Refuses.getNextTag fun _ => ⟨_, _, rfl⟩

/-- Nor is there behind their start. -/
theorem refuses_parseParams [Platform] : Refuses parseParams :=
  have hloop : Refuses (do parseParamsLoop ((← get).is.rest.length + 1) 0) :=
    .get fun _ => refuses_parseParamsLoop _ _
  hloop.call _

/-- A value with its first tag does not begin with its last one. -/
theorem refuses_parseNested [Platform] : Refuses (parseNested false) :=
  .get fun _ => Refuses.getNextTag fun _ => ⟨_, _, rfl⟩

/-- Among the tags of a call there is no end of a value. -/
theorem refuses_parseCall [Platform] (fuel : ℕ) (methodName : Option Bytes) (paramsFound : Bool) :
    Refuses (parseCall fuel methodName paramsFound) := by
  cases fuel with
  | zero => exact refuses_throw _
  | succ fuel => exact Refuses.getNextTag fun _ => ⟨_, _, rfl⟩

/-! ## Parameters and calls -/

variable [Platform]

/-- The value of a parameter: the short form is read by itself. -/
theorem mirrors_paramValue {depth : ℕ} {α β : Type} {Q : α → ReaderState XmlReader → β →
    ReaderState XmlReader → Prop} {p : ReadM α} {p' : ReadM β}
    (h : Linked root P (.text (.body (depth + 1) .other)) false (n + 1) s s')
    (hp : ∀ s s', Linked root P (.text (.body (depth + 1) .value)) false n s s' →
      Mirrors (¬ P) Q (p s) (p' s')) :
    Mirrors (¬ P) Q
      ((do
        let tag ← getNextTag
        if tag = .start .value then
          parseNested true
        else if tag = .empty .value then
          parseEmptyString
        else
          throwFoundExpected tag (.start .value)
        p : ReadM α) s)
      ((do
        let tag ← getNextTag
        if tag = .start .value then
          parseNested true
        else if tag = .empty .value then
          parseEmptyString
        else
          throwFoundExpected tag (.start .value)
        p' : ReadM β) s') := by
  refine (mirrors_getNextTag h Context.body_ne_done).bind ?_
  rintro tag s₁ tag' s₁' (⟨rfl, h₁⟩ | ⟨element, rfl, rfl, hcut⟩)
  · by_cases hstart : tag' = .start .value
    · subst hstart
      simp only [if_true]
      refine (mirrors_parseNested_true h₁).bind ?_
      rintro _ s₂ _ s₂' h₂
      exact hp _ _ h₂
    · by_cases hempty : tag' = .empty .value
      · subst hempty
        rw [Context.next_empty_value] at h₁
        simp only [hstart, if_true, if_false]
        refine (mirrors_parseEmptyString h₁).bind ?_
        rintro _ s₂ _ s₂' h₂
        exact hp _ _ h₂
      · simp only [hstart, hempty, if_false]
        exact mirrors_error _ _ _
  · by_cases hvalue : element = .value
    · subst hvalue
      have hshort : shortTag .value = .empty .value := rfl
      have hne : XmlTag.empty .value ≠ .start .value := by decide
      have hread := hcut.mirrors (by decide) (p := parseNested true)
        fun hrest hrun => parseValue_empty hcut.skip_left hrest hrun
      rw [hshort]
      simp only [hne, if_true, if_false]
      refine hread.bind ?_
      rintro _ s₂ _ s₂' h₂
      exact hp _ _ h₂
    · exact (Refuses.ite (fun h => absurd (XmlTag.start.inj h) hvalue) fun _ =>
        .ite (fun h => nomatch h) fun _ => (refuses_throw _).bind _).mirrors hcut.atClose

/-- The loop over the parameters. -/
theorem mirrors_parseParamsLoop {depth : ℕ} (fuel count : ℕ)
    (h : Inside root P (depth + 2) n s s') :
    Mirrors (¬ P) (fun _ s _ s' => Inside root P (depth + 1) n s s') (parseParamsLoop fuel count s)
      (parseParamsLoop n count s') := by
  induction n generalizing s s' fuel count with
  | zero =>
    obtain ⟨last, -, h⟩ := h
    exact absurd h.left (Nat.not_lt_zero _)
  | succ n ih =>
    obtain ⟨last, hlast, h⟩ := h
    cases fuel with
    | zero => exact mirrors_error _ _ _
    | succ fuel =>
      have hle := Nat.le_succ n
      have hloop (count : ℕ) {s s' : ReaderState XmlReader} (h : Inside root P (depth + 2) n s s') :
          Mirrors (¬ P) (fun _ s _ s' => Inside root P (depth + 1) (n + 1) s s')
            (parseParamsLoop fuel count s) (parseParamsLoop n count s') :=
        (ih fuel count h).mono fun _ _ _ _ h => h.mono hle
      refine (mirrors_getNextTag h Context.body_ne_done).bind ?_
      rintro tag s₁ tag' s₁' (⟨rfl, h₁⟩ | ⟨element, rfl, rfl, hcut⟩)
      · refine .ite (fun ht => ?_) fun _ => .ite (fun ht => ?_) fun _ =>
          .ite (fun ht => ?_) fun _ => mirrors_error _ _ _
        · subst ht
          have hinside : Inside root P (depth + 1) n s₁ s₁' := ⟨_, by decide, h₁⟩
          exact (hinside.call _).mono fun _ _ _ _ h => h.mono hle
        · subst ht
          exact hloop _ (h₁.inside hlast)
        · subst ht
          have hparam {s s' : ReaderState XmlReader}
              (h : Linked root P (.text (.body (depth + 3) .other)) false n s s') :=
            mirrors_paramValue (h.mono hle) fun _ _ h => mirrors_closeParam h
              fun _ _ h => hloop (count + 1) h
          by_cases hzero : count ≠ 0
          · simp only [if_pos hzero]
            refine (mirrors_call h₁ _).bind ?_
            rintro _ s₂ _ s₂' h₂
            exact hparam h₂
          · simp only [if_neg hzero]
            exact hparam h₁
      · exact (Refuses.ite (fun h => nomatch h) fun _ => .ite (fun h => nomatch h) fun _ =>
          .ite (fun _ => .ite (fun _ => .call (.getNextTag fun _ => ⟨_, _, rfl⟩) _) fun _ =>
            .getNextTag fun _ => ⟨_, _, rfl⟩) fun _ => refuses_throw _).mirrors hcut.atClose

/-- Both runs read the same parameters. -/
theorem mirrors_parseParams {depth : ℕ} (h : Inside root P (depth + 2) n s s') :
    Mirrors (¬ P) (fun _ s _ s' => Inside root P (depth + 1) n s s') (parseParams s)
      (parseParams s') := by
  refine (h.call _).bind ?_
  rintro _ s₁ _ s₁' ⟨last, hlast, h₁⟩
  have hloop := mirrors_parseParamsLoop (s₁.is.rest.length + 1) 0 ⟨last, hlast, h₁.tight⟩
  exact hloop.mono fun _ _ _ _ h => h.mono h₁.left

/-- The loop over the tags of a call. -/
theorem mirrors_parseCall (fuel : ℕ) (methodName : Option Bytes) (paramsFound : Bool)
    (h : Inside root P 1 n s s') :
    Mirrors (¬ P) (fun x s x' s' => x' = x ∧ Linked root P (.text .done) false n s s')
      (parseCall fuel methodName paramsFound s) (parseCall n methodName paramsFound s') := by
  induction n generalizing s s' fuel methodName paramsFound with
  | zero =>
    obtain ⟨last, -, h⟩ := h
    exact absurd h.left (Nat.not_lt_zero _)
  | succ n ih =>
    obtain ⟨last, hlast, h⟩ := h
    cases fuel with
    | zero => exact mirrors_error _ _ _
    | succ fuel =>
      have hle := Nat.le_succ n
      have hloop {methodName : Option Bytes} {paramsFound : Bool} {s s' : ReaderState XmlReader}
          (h : Inside root P 1 n s s') :
          Mirrors (¬ P) (fun x s x' s' => x' = x ∧ Linked root P (.text .done) false (n + 1) s s')
            (parseCall fuel methodName paramsFound s) (parseCall n methodName paramsFound s') :=
        (ih fuel methodName paramsFound h).mono fun _ _ _ _ h => ⟨h.1, h.2.mono hle⟩
      refine (mirrors_getNextTag h Context.body_ne_done).bind ?_
      rintro tag s₁ tag' s₁' (⟨rfl, h₁⟩ | ⟨element, rfl, rfl, hcut⟩)
      · refine .ite (fun ht => ?_) fun _ => .ite (fun ht => ?_) fun _ =>
          .ite (fun ht => ?_) fun _ => .ite (fun ht => ?_) fun _ => mirrors_error _ _ _
        · subst ht
          exact mirrors_ok ⟨rfl, h₁.mono hle⟩
        · subst ht
          cases hname : methodName.isSome with
          | true =>
            simp only [if_true]
            exact mirrors_error _ _ _
          | false =>
            simp only [Bool.false_eq_true, if_false]
            refine (mirrors_parseMethodName h₁).bind ?_
            rintro _ s₂ name s₂' ⟨rfl, h₂⟩
            exact hloop h₂
        · subst ht
          refine (mirrors_parseParams ⟨_, by decide, h₁⟩).bind ?_
          rintro _ s₂ _ s₂' h₂
          exact hloop h₂
        · subst ht
          cases paramsFound with
          | true =>
            simp only [if_true]
            exact mirrors_error _ _ _
          | false =>
            obtain ⟨last', hlast', h₂⟩ := h₁.inside hlast
            simp only [Bool.false_eq_true, if_false]
            refine (mirrors_parseEmptyArray h₂).bind ?_
            rintro _ s₃ _ s₃' h₃
            exact hloop ⟨last', hlast', h₃⟩
      · exact (Refuses.ite (fun h => nomatch h) fun _ =>
          .ite (fun _ => .ite (fun _ => (refuses_throw _).bind _) fun _ =>
            refuses_parseMethodName.bind _) fun _ =>
          .ite (fun _ => refuses_parseParams.bind _) fun _ =>
          .ite (fun h => nomatch h) fun _ => refuses_throw _).mirrors hcut.atClose

/-! ## Documents -/

/-- Both runs read the same request. -/
theorem mirrors_request (h : Linked .methodCall P (.text .prolog) false n s s') :
    Mirrors (¬ P) (fun x s x' s' => x' = x ∧ Finished P s s') (request s) (request s') := by
  refine mirrors_skipTo_bind (s.is.rest.length + 1) h.tight ?_ fun s₁ s₁' h₁ => ?_
  · exact .get fun _ => (refuses_parseCall _ _ _).bind _
  · refine (mirrors_parseCall (s₁.is.rest.length + 1) none false ⟨_, by decide, h₁.tight⟩).bind ?_
    rintro _ s₂ ⟨methodName, paramsFound⟩ s₂' ⟨rfl, h₂⟩
    cases methodName with
    | none => exact mirrors_error _ _ _
    | some methodName =>
      cases paramsFound with
      | true => exact mirrors_ok ⟨rfl, h₂.finished⟩
      | false =>
        refine (mirrors_parseEmptyArray h₂).bind ?_
        rintro _ s₃ _ s₃' h₃
        exact mirrors_ok ⟨rfl, h₃.finished⟩

/-- Both runs read the same response. -/
theorem mirrors_response (h : Linked .methodResponse P (.text .prolog) false n s s') :
    Mirrors (¬ P) (fun _ s _ s' => Finished P s s') (response s) (response s') := by
  refine mirrors_skipTo_bind (s.is.rest.length + 1) h.tight ?_ fun s₁ s₁' h₁ => ?_
  · exact Refuses.getNextTag fun _ => ⟨_, _, rfl⟩
  · have hle := Nat.le_succ s'.is.rest.length
    refine (mirrors_getNextTag h₁ Context.body_ne_done).bind ?_
    rintro tag s₂ tag' s₂' (⟨rfl, h₂⟩ | ⟨element, rfl, rfl, hcut⟩)
    · refine .ite (fun ht => ?_) fun _ => .ite (fun ht => ?_) fun _ =>
        .ite (fun ht => ?_) fun _ => mirrors_error _ _ _
      · subst ht
        refine (mirrors_parseParams ⟨_, by decide, h₂⟩).bind ?_
        rintro _ s₃ _ s₃' ⟨last, -, h₃⟩
        refine (mirrors_getNextTag (h₃.mono hle) Context.body_ne_done).bind ?_
        rintro tag s₄ tag' s₄' (⟨rfl, h₄⟩ | ⟨element, rfl, rfl, -⟩)
        · refine .ite (fun _ => mirrors_error _ _ _) fun ht => ?_
          rw [not_not.mp ht] at h₄
          exact mirrors_ok h₄.finished
        · exact mirrors_error _ _ _
      · subst ht
        refine (mirrors_call h₂ _).mono fun _ _ _ _ h => ?_
        exact Linked.finished h
      · subst ht
        refine (mirrors_parseNested_false h₂).bind ?_
        rintro _ s₃ _ s₃' h₃
        refine (mirrors_close h₃ .fault).bind ?_
        rintro _ s₄ _ s₄' ⟨last, -, h₄⟩
        exact (mirrors_expectTag h₄ Context.body_ne_done .methodResponse).mono
          fun _ _ _ _ h => Linked.finished h
    · exact (Refuses.ite (fun _ => refuses_parseParams.bind _) fun _ =>
        .ite (fun h => nomatch h) fun _ =>
        .ite (fun _ => refuses_parseNested.bind _) fun _ => refuses_throw _).mirrors hcut.atClose

/-- Both runs read the same value, or a blank text. -/
theorem mirrors_stream (h : Linked root P (.text (.body 0 .other)) false n s s') :
    Mirrors (¬ P) (fun _ s _ s' => Finished P s s') (stream s) (stream s') := by
  have h₁ := h.skipWhiteSpace
  have heof := h₁.eof_eq
  have hrun (s : ReaderState XmlReader) : stream s =
      (if !(s.is.advance (s.is.rest.takeWhile isSpace).length).eof then parseNested false
        else pure () : ReadM Unit)
        { s with is := s.is.advance (s.is.rest.takeWhile isSpace).length } := rfl
  rw [hrun, hrun, heof]
  refine .ite (fun _ => ?_) fun hblank => ?_
  · exact (mirrors_parseNested_false h₁).mono fun _ _ _ _ h => Linked.finished h
  · rw [Bool.not_eq_true, Bool.not_eq_false', ReadStream.eof, List.isEmpty_iff] at hblank
    obtain ⟨ls, hls, hagree⟩ := h₁.texts
    rw [unread, if_neg Bool.false_ne_true, hblank] at hls
    obtain ⟨-, rfl⟩ := hls.of_nil
    exact mirrors_ok (hagree.finished (List.forall_mem_nil _))

end

/-! ## The value of a document -/

/-- The parsing ends without a parse error, with the value. -/
def Accepted (r : Except Fault (Parsed Document XmlReader)) (v : Value) : Prop :=
  ∃ p, r = .ok p ∧ p.hasParseError = false ∧ p.handler.value = v

/-- The parsing of a request ends without a parse error, with the method name and the value. -/
def AcceptedRequest (r : Except Fault (Parsed Document XmlReader × Bytes)) (methodName : Bytes)
    (v : Value) : Prop :=
  ∃ p, r = .ok (p, methodName) ∧ p.hasParseError = false ∧ p.handler.value = v

/-- An operation on the last pointer returns where it leads to a value on which it does. -/
theorem onBack_eq_ok {α : Type} {op : Exec Value α} {a : α} {d d' : Document}
    (h : Document.onBack op d = .ok a d') :
    ∃ p l v w, d.stack = p :: l ∧ Nested.get? p d.value = some v ∧ op v = .ok a w := by
  rw [Document.onBack] at h
  split at h
  · cases h
  · next p l hstack =>
    split at h
    · cases h
    · next v hv =>
      split at h
      · next b w hop =>
        cases h
        exact ⟨p, l, v, w, hstack, hv, hop⟩
      · cases h

/-- In front of a separator there is a value, in front of a string there is none. -/
theorem not_string_of_separator {d d₁ d₂ : Document} {arg : StrArg}
    (hsep : Document.arraySeparator d = .ok () d₁) (hstr : Document.string arg d = .ok () d₂) :
    False := by
  rw [Document.arraySeparator, bind_eq_ok] at hsep
  obtain ⟨_, d', hback, -⟩ := hsep
  obtain ⟨p, l, v, w, hstack, hv, hvalid⟩ := onBack_eq_ok hback
  obtain ⟨p', l', v', w', hstack', hv', hinvalid⟩ := onBack_eq_ok hstr
  rw [hstack] at hstack'
  cases hstack'
  rw [hv] at hv'
  cases hv'
  cases hcase : v.isInvalid with
  | true =>
    rw [bind_apply, get_apply] at hvalid
    simp [anyrpcAssert, Value.isValid, hcase] at hvalid
  | false =>
    rw [Document.assertInvalid, bind_assoc, bind_apply, get_apply] at hinvalid
    simp [anyrpcAssert, hcase] at hinvalid

/-- So the two sequences of calls are not both delivered. -/
theorem not_deliver_of_diverged [Platform] {es es' : List Event} (h : Diverged es es')
    {d d₁ d₂ : Document} (hes : deliver es d = .ok d₁) (hes' : deliver es' d = .ok d₂) : False := by
  obtain ⟨fs, arg, ⟨gs, rfl⟩, ⟨gs', rfl⟩⟩ := h
  rw [List.append_assoc, deliver_append] at hes hes'
  cases hfs : deliver fs d with
  | error f =>
    rw [hfs] at hes
    cases hes
  | ok d' =>
    rw [hfs] at hes hes'
    have hes : deliver (.arraySeparator :: gs) d' = .ok d₁ := hes
    have hes' : deliver (.scalar (.string arg) :: gs') d' = .ok d₂ := hes'
    rw [deliver_cons] at hes hes'
    have hsep : (outcome Document.arraySeparator d').bind (deliver gs) = .ok d₁ := hes
    have hstr : (outcome (Document.string arg) d').bind (deliver gs') = .ok d₂ := hes'
    cases hd₁ : Document.arraySeparator d' with
    | error f d₃ =>
      rw [outcome_of_error hd₁] at hsep
      cases hsep
    | ok _ d₃ =>
      cases hd₂ : Document.string arg d' with
      | error f d₄ =>
        rw [outcome_of_error hd₂] at hstr
        cases hstr
      | ok _ d₄ => exact not_string_of_separator hd₁ hd₂

section

variable [Platform] {P : Prop} {parse : ReadM Unit} {is is' : ReadStream} {h : Document} {v : Value}

/-- Where the runs agree to the end, the second parsing ends as the first one, and else with a parse
error. -/
theorem accepted_iff (hreported : FailsWith Fault.Reported parse)
    (hmirrors : Mirrors (¬ P) (fun _ s _ s' => Finished P s s') (parse (new is)) (parse (new is')))
    (haccepted : Accepted (Reader.parseStream parse (new is) h) v) :
    Accepted (Reader.parseStream parse (new is') h) v ↔ P := by
  obtain ⟨p, hp, hok, hv⟩ := haccepted
  obtain ⟨s₁, h₁, hrun, hdeliver, rfl⟩ :=
    returns_of_parseStream Document.reported_handle hreported hp hok
  -- The second run returns, with the same calls or with others, or it throws.
  obtain ⟨_, s₁', hrun', hfinished⟩ | ⟨hP, f, s₁', hthrow⟩ := hmirrors () s₁ hrun
  · obtain ⟨hP, hevents⟩ | ⟨hP, hdiverged⟩ := hfinished
    · refine iff_of_true ⟨_, parseStream_of_ok hrun' (hevents ▸ hdeliver), rfl, hv⟩ hP
    · refine iff_of_false ?_ hP
      rintro ⟨p', hp', hok', -⟩
      obtain ⟨s₂, h₂, hrun₂, hdeliver₂, rfl⟩ :=
        returns_of_parseStream Document.reported_handle hreported hp' hok'
      have hs₂ : (.ok () s₁' : EStateM.Result Fault (ReaderState XmlReader) Unit) = .ok () s₂ :=
        hrun'.symm.trans hrun₂
      cases hs₂
      exact not_deliver_of_diverged hdiverged hdeliver hdeliver₂
  · refine iff_of_false ?_ hP
    rintro ⟨p', hp', hok', -⟩
    obtain ⟨s₂, h₂, hrun₂, -⟩ :=
      returns_of_parseStream Document.reported_handle hreported hp' hok'
    cases hthrow.symm.trans hrun₂

/-- The faults of a request are reported. -/
theorem reported_runRequest : FailsWith Fault.Reported (do let _ ← request : ReadM Unit) :=
  .bind reported_request fun _ => .of_ok fun _ => ⟨_, _, rfl⟩

/-- A request is accepted where its calls are and the reader returns the method name. -/
theorem acceptedRequest_iff {methodName : Bytes} :
    AcceptedRequest (parseRequest is h) methodName v ↔
      Accepted (Reader.parseStream (do let _ ← request) (new is) h) v ∧
        ∃ s, request (new is) = .ok methodName s := by
  constructor
  · rintro ⟨p, hp, hok, hv⟩
    rw [parseRequest] at hp
    cases hparsed : Reader.parseStream (do let _ ← request) (new is) h with
    | error f =>
      rw [hparsed] at hp
      cases hp
    | ok p' =>
      rw [hparsed] at hp
      cases hrequest : request (new is) with
      | ok name s =>
        have heq : (p', name) = (p, methodName) := by
          rw [hrequest] at hp
          exact Except.ok.inj hp
        cases heq
        exact ⟨⟨p, rfl, hok, hv⟩, s, rfl⟩
      | error f s =>
        have heq : (p', []) = (p, methodName) := by
          rw [hrequest] at hp
          exact Except.ok.inj hp
        cases heq
        obtain ⟨s', h', hrun, -⟩ :=
          returns_of_parseStream Document.reported_handle reported_runRequest hparsed hok
        obtain ⟨name, s'', hname, -⟩ := bind_eq_ok.mp hrun
        cases hrequest.symm.trans hname
  · rintro ⟨⟨p, hp, hok, hv⟩, s, hrequest⟩
    refine ⟨p, ?_, hok, hv⟩
    rw [parseRequest, hp, hrequest]
    rfl

omit [Platform] in
/-- The states in front of a document. -/
theorem linked_new {root : XmlTagName} {k : Context} {t' : Bytes} {ls : List Lex}
    (hls : Shortened root (.text k) is.rest t' ls) :
    Linked root (∀ l ∈ ls, l.Harmless) (.text k) false (t'.length + 1) (new is)
      (new { is with rest := t' }) :=
  ⟨rfl, rfl, rfl, rfl, Nat.lt_succ_self _, ls, hls, .same [] Iff.rfl⟩

/-- A document that is accepted is still accepted, with the same value, when some of its
`<value></value>` are written as `<value/>`, wherever these are in its text, exactly if all of these are
harmless: none is directly behind another value, which is where it is an element of an array and not the
first one, and none is in an end tag, unless it is behind the root. -/
theorem emptyValues_shortened_iff (is : ReadStream) (t' : Bytes) (ls : List Lex) (h : Document)
    (v : Value) :
    (Shortened .value (.text (.body 0 .other)) is.rest t' ls → Accepted (parseStream is h) v →
      (Accepted (parseStream { is with rest := t' } h) v ↔ ∀ l ∈ ls, l.Harmless)) ∧
    (Shortened .methodCall (.text .prolog) is.rest t' ls →
      ∀ methodName, AcceptedRequest (parseRequest is h) methodName v →
        (AcceptedRequest (parseRequest { is with rest := t' } h) methodName v ↔
          ∀ l ∈ ls, l.Harmless)) ∧
    (Shortened .methodResponse (.text .prolog) is.rest t' ls → Accepted (parseResponse is h) v →
      (Accepted (parseResponse { is with rest := t' } h) v ↔ ∀ l ∈ ls, l.Harmless)) := by
  refine ⟨fun hls haccepted => ?_, fun hls methodName haccepted => ?_, fun hls haccepted => ?_⟩
  · exact accepted_iff reported_stream (mirrors_stream (linked_new hls)) haccepted
  · have hmirrors := mirrors_request (linked_new hls)
    obtain ⟨hparsed, s, hrequest⟩ := acceptedRequest_iff.mp haccepted
    obtain ⟨_, s', hrequest', rfl, -⟩ | ⟨hnot, f, s', hthrow⟩ := hmirrors methodName s hrequest
    · have hrun : Mirrors (¬ ∀ l ∈ ls, l.Harmless)
          (fun _ s _ s' => Finished (∀ l ∈ ls, l.Harmless) s s')
          ((do let _ ← request : ReadM Unit) (new is))
          ((do let _ ← request : ReadM Unit) (new { is with rest := t' })) := by
        refine hmirrors.bind ?_
        rintro _ s₁ _ s₁' ⟨-, hfinished⟩
        exact mirrors_ok hfinished
      rw [← accepted_iff reported_runRequest hrun hparsed, acceptedRequest_iff]
      exact and_iff_left ⟨s', hrequest'⟩
    · refine iff_of_false (fun h => ?_) hnot
      obtain ⟨-, s₁, hrequest'⟩ := acceptedRequest_iff.mp h
      cases hthrow.symm.trans hrequest'
  · exact accepted_iff reported_response (mirrors_response (linked_new hls)) haccepted

end

/-- A stream of a text. -/
def textStream (t : Bytes) : ReadStream := { ReadStream.readString [] with rest := t }

/-- A document is accepted where its calls are those of a tree that builds a value. -/
theorem accepted_of_build [Platform] (parse : ReadM Unit) (is : ReadStream) {t : EventTree}
    {v : Value}
    (hcalls : threw (parse (new is)) = false ∧ (reached (parse (new is))).events = t.events)
    (hbuild : t.build true = .ok v) : Accepted (Reader.parseStream parse (new is) {}) v := by
  obtain ⟨hreturns, hevents⟩ := hcalls
  cases hrun : parse (new is) with
  | error f s =>
    rw [hrun] at hreturns
    cases hreturns
  | ok _ s =>
    rw [hrun, reached_ok] at hevents
    exact ⟨_, parseStream_of_build hrun hevents hbuild, rfl, rfl⟩

/-- So is a request, with the method name that the reader returns. -/
theorem acceptedRequest_of_build [Platform] (is : ReadStream) {t : EventTree} {v : Value}
    (hcalls : threw (request (new is)) = false ∧ (reached (request (new is))).events = t.events)
    (hbuild : t.build true = .ok v) :
    ∃ methodName, AcceptedRequest (parseRequest is {}) methodName v := by
  obtain ⟨hreturns, hevents⟩ := hcalls
  cases hrun : request (new is) with
  | error f s =>
    rw [hrun] at hreturns
    cases hreturns
  | ok methodName s =>
    rw [hrun, reached_ok] at hevents
    have hparse : (do let _ ← request : ReadM Unit) (new is) = .ok () s := by
      rw [bind_of_ok hrun]
      rfl
    refine ⟨methodName, acceptedRequest_iff.mpr ⟨?_, s, hrun⟩⟩
    exact ⟨_, parseStream_of_build hparse hevents hbuild, rfl, rfl⟩

/-- An array of a string and an empty one. -/
theorem build_strings [Platform] : (EventTree.array none
    [.leaf (.string { bytes := [0x61] }), .leaf (.string { bytes := [] })]).build true =
      .ok (.array [.string [0x61], .string []] 16) := by
  simp only [EventTree.build, EventTree.buildElements, Scalar.build, bind, Except.bind]
  rfl

/-- An array of an array of an empty string and a string. -/
theorem build_nested [Platform] : (EventTree.array none
    [.array none [.leaf (.string { bytes := [] })], .leaf (.string { bytes := [0x61] })]).build true =
      .ok (.array [.array [.string []] 16, .string [0x61]] 16) := by
  simp only [EventTree.build, EventTree.buildElements, Scalar.build, bind, Except.bind]
  rfl

/-- An array of an empty string. -/
theorem build_string [Platform] : (EventTree.array none [.leaf (.string { bytes := [] })]).build true =
    .ok (.array [.string []] 16) := by
  simp only [EventTree.build, EventTree.buildElements, Scalar.build, bind, Except.bind]
  rfl

/-- The first element of a nested array, an empty value that a tag in front of a call ends with, and a
result. -/
theorem emptyValues_shortened_first :
    letI := Platform.blank
    (∃ v, Accepted (parseStream (textStream (ascii
        "<value><array><data><value><array><data>" ++ (ascii "<value></value>" ++
          ascii "</data></array></value><value>a</value></data></array></value>"))) {}) v ∧
      Accepted (parseStream (textStream (ascii
        "<value><array><data><value><array><data>" ++ (ascii "<value/>" ++
          ascii "</data></array></value><value>a</value></data></array></value>"))) {}) v) ∧
    (∃ methodName v, AcceptedRequest (parseRequest (textStream (ascii "<foo" ++
        (ascii "<value></value>" ++ ascii ("<methodCall><methodName>f</methodName><params><param>" ++
          "<value></value></param></params></methodCall>")))) {}) methodName v ∧
      AcceptedRequest (parseRequest (textStream (ascii "<foo" ++
        (ascii "<value/>" ++ ascii ("<methodCall><methodName>f</methodName><params><param>" ++
          "<value></value></param></params></methodCall>")))) {}) methodName v) ∧
    ∃ v, Accepted (parseResponse (textStream (ascii "<methodResponse><params><param>" ++
        (ascii "<value></value>" ++ ascii "</param></params></methodResponse>"))) {}) v ∧
      Accepted (parseResponse (textStream (ascii "<methodResponse><params><param>" ++
        (ascii "<value/>" ++ ascii "</param></params></methodResponse>"))) {}) v := by
  let _ := Platform.blank
  refine ⟨?_, ?_, ?_⟩
  · have haccepted := accepted_of_build stream (textStream
      (ascii "<value><array><data><value><array><data>" ++ (ascii "<value></value>" ++
        ascii "</data></array></value><value>a</value></data></array></value>")))
      (by decide +kernel) build_nested
    exact ⟨_, haccepted, ((emptyValues_shortened_iff _ _ _ {} _).1
      (.one .value (.text (.body 0 .other)) _ _) haccepted).mpr (by decide +kernel)⟩
  · obtain ⟨methodName, haccepted⟩ := acceptedRequest_of_build (textStream (ascii "<foo" ++
      (ascii "<value></value>" ++ ascii ("<methodCall><methodName>f</methodName><params><param>" ++
        "<value></value></param></params></methodCall>")))) (by decide +kernel) build_string
    exact ⟨methodName, _, haccepted, ((emptyValues_shortened_iff _ _ _ {} _).2.1
      (.one .methodCall (.text .prolog) _ _) methodName haccepted).mpr (by decide +kernel)⟩
  · have haccepted := accepted_of_build response (textStream
      (ascii "<methodResponse><params><param>" ++ (ascii "<value></value>" ++
        ascii "</param></params></methodResponse>"))) (by decide +kernel) build_string
    exact ⟨_, haccepted, ((emptyValues_shortened_iff _ _ _ {} _).2.2
      (.one .methodResponse (.text .prolog) _ _) haccepted).mpr (by decide +kernel)⟩

/-- The second element of an array cannot be written in the short form, nor can an empty value that an
end tag ends with. -/
theorem not_emptyValues_shortened :
    letI := Platform.blank
    (¬ ∀ (is : ReadStream) (t' : Bytes) (ls : List Lex) (h : Document) (v : Value),
      Shortened .value (.text (.body 0 .other)) is.rest t' ls → Accepted (parseStream is h) v →
        Accepted (parseStream { is with rest := t' } h) v) ∧
    ¬ ∀ (is : ReadStream) (t' : Bytes) (ls : List Lex) (h : Document) (methodName : Bytes)
      (v : Value), Shortened .methodCall (.text .prolog) is.rest t' ls →
        AcceptedRequest (parseRequest is h) methodName v →
          AcceptedRequest (parseRequest { is with rest := t' } h) methodName v := by
  let _ := Platform.blank
  refine ⟨fun hall => ?_, fun hall => ?_⟩
  · have haccepted := accepted_of_build stream (textStream
      (ascii "<value><array><data><value>a</value>" ++ (ascii "<value></value>" ++
        ascii "</data></array></value>"))) (by decide +kernel) build_strings
    have hshortened := Shortened.one .value (.text (.body 0 .other))
      (ascii "<value><array><data><value>a</value>") (ascii "</data></array></value>")
    have hharmless := (accepted_iff reported_stream (mirrors_stream (linked_new hshortened))
      haccepted).mp (hall _ _ _ _ _ hshortened haccepted)
    exact absurd (hharmless _ List.mem_cons_self) (by decide +kernel)
  · obtain ⟨methodName, haccepted⟩ := acceptedRequest_of_build (t := .array none []) (textStream
      (ascii "</foo" ++ (ascii "<value></value>" ++
        ascii "<methodCall><methodName>f</methodName></methodCall>"))) (by decide +kernel) rfl
    have hrequest := hall _ _ _ _ methodName _
      (.one .methodCall (.text .prolog) (ascii "</foo") _) haccepted
    obtain ⟨-, s, hrun⟩ := acceptedRequest_iff.mp hrequest
    have hthrew : threw (request (new (textStream (ascii "</foo" ++ (ascii "<value/>" ++
        ascii "<methodCall><methodName>f</methodName></methodCall>"))))) = true := by decide +kernel
    have hreturned := congrArg threw hrun
    cases hthrew.symm.trans hreturned

end AnyRpc.XmlReader
