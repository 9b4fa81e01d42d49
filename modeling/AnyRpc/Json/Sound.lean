import AnyRpc.Json.Complete
import AnyRpc.Reader.Faults

/-! # The JSON reader on any text

From any text the reader makes the calls of a tree, or throws within such calls; where it returns,
what it consumed is a value of the grammar. It never runs out of depth, because every level of
nesting takes a byte. -/

namespace AnyRpc.JsonReader

open Library Reader Json NumberText ParseNumber

/-- An exception with an error code, or what is undefined. -/
def Faulty (f : Fault) : Prop := f.IsError ∨ f = .undefined

/-- A part of the reader consumes a text with a property and makes the calls of a word, or it throws
within the calls of one. -/
abbrev Reads {α : Type} (L : Language Event) (P : Bytes → Prop) (p : ReadM α) (s : State) : Prop :=
  Calls L (prefixes L) (fun _ s' => ∃ t, s.is.rest = t ++ s'.is.rest ∧ P t) Faulty p s

variable {L M : Language Event} {P K R : Bytes → Prop} {s : State}

theorem reads_of_step {α : Type} {p : ReadM α} {a : α} {s' : State} {es : List Event} {t : Bytes}
    (hp : p s = .ok a s') (hstep : Step s s' es) (hes : es ∈ L)
    (hrest : s.is.rest = t ++ s'.is.rest) (ht : P t) : Reads L P p s :=
  emits_of_ok hp hes hstep.events ⟨t, hrest, ht⟩

theorem reads_of_throws {α : Type} {p : ReadM α} (h : Throws p s) (hL : ∃ es, es ∈ L) :
    Reads L P p s := by
  obtain ⟨f, s', hp, hf, hevents⟩ := h
  exact emits_of_error hp (nil_mem_prefixes hL) (by rw [hevents, List.append_nil]) (.inl hf)

/-- What is read one part after the other. -/
theorem Reads.seq {α β : Type} {p : ReadM α} {f : α → ReadM β} (hp : Reads L P p s)
    (hM : ∃ es, es ∈ M)
    (hf : ∀ a s' t, s.is.rest = t ++ s'.is.rest → P t → Reads M K (f a) s')
    (hR : ∀ t u, P t → K u → R (t ++ u)) : Reads (L * M) R (p >>= f) s := by
  refine Emits.seq hp hM ?_
  rintro a s' ⟨t, hrest, ht⟩
  refine (hf a s' t hrest ht).mono le_rfl le_rfl ?_ fun _ h => h
  rintro b s'' ⟨u, hrest', hu⟩
  exact ⟨t ++ u, by rw [hrest, hrest', List.append_assoc], hR t u ht hu⟩

/-- A weaker property of the text, and more words. -/
theorem Reads.mono {α : Type} {p : ReadM α} (h : Reads L P p s) (hL : L ≤ M)
    (hP : ∀ t, P t → K t) : Reads M K p s := by
  refine Emits.mono h hL (prefixes_mono hL) ?_ fun _ h => h
  rintro a s' ⟨t, hrest, ht⟩
  exact ⟨t, hrest, hP t ht⟩

/-- A part that returns without a call. -/
theorem reads_bind_of_ok {α β : Type} {p : ReadM α} {f : α → ReadM β} {a : α} {s' : State}
    {t : Bytes} (hp : p s = .ok a s') (hevents : s'.events = s.events)
    (hrest : s.is.rest = t ++ s'.is.rest) (hf : Reads M P (f a) s') (hR : ∀ u, P u → R (t ++ u)) :
    Reads M R (p >>= f) s := by
  refine emits_bind_of_ok hp hevents (Emits.mono hf le_rfl le_rfl ?_ fun _ h => h)
  rintro b s'' ⟨u, hrest', hu⟩
  exact ⟨t ++ u, by rw [hrest, hrest', List.append_assoc], hR u hu⟩

/-- A computation that goes on from a state with more calls. -/
theorem reads_of_eq {α : Type} {p q : ReadM α} {s' : State} {es : List Event} {t : Bytes}
    (hp : p s = q s') (hstep : Step s s' es) (hrest : s.is.rest = t ++ s'.is.rest)
    (hq : Reads M P q s') (hR : ∀ u, P u → R (t ++ u)) :
    Reads (({es} : Language Event) * M) R p s := by
  refine emits_of_eq_append hp hstep.events (Emits.mono hq le_rfl le_rfl ?_ fun _ h => h)
  rintro b s'' ⟨u, hrest', hu⟩
  exact ⟨t ++ u, by rw [hrest, hrest', List.append_assoc], hR u hu⟩

/-- The next byte, where there is one. -/
theorem exists_of_peek {c : UInt8} (hc : c ≠ 0) (h : s.is.peek = c) : ∃ r, s.is.rest = c :: r := by
  rw [ReadStream.peek] at h
  cases hr : s.is.rest with
  | nil =>
    rw [hr] at h
    exact absurd h.symm hc
  | cons d r =>
    rw [hr] at h
    exact ⟨r, congrArg (· :: r) h⟩

/-- A call. -/
theorem reads_call (e : Event) (s : State) : Reads {[e]} (· = []) (call e) s :=
  calls_call ⟨[], rfl, rfl⟩

/-- There is a tree. -/
theorem exists_mem_treeCalls : ∃ es, es ∈ treeCalls anyTree :=
  ⟨_, mem_treeCalls (t := .leaf .null) trivial⟩

/-! ## Scalars -/

/-- The bytes of a literal, or a byte that is none of it. -/
theorem expect_cases {text : Bytes} (htext : (0 : UInt8) ∉ text) (s : Bytes) :
    (∃ r, s = text ++ r) ∨ ∃ f r, expect text s = .error f r ∧ f.IsError := by
  induction text generalizing s with
  | nil => exact .inl ⟨s, rfl⟩
  | cons c text ih =>
    rw [List.mem_cons, not_or] at htext
    obtain ⟨hc, htext⟩ := htext
    by_cases hhead : s.headD 0 = c
    · obtain ⟨s, rfl⟩ : ∃ s', s = c :: s' := by
        cases s with
        | nil => exact absurd hhead hc
        | cons d s => exact ⟨s, congrArg (· :: s) hhead⟩
      have hrun : expect (c :: text) (c :: s) = expect text s := by
        rw [expect, bind_of_ok (Text.get_apply _)]
        simp
      rw [hrun]
      rcases ih htext s with ⟨r, rfl⟩ | herror
      · exact .inl ⟨r, rfl⟩
      · exact .inr herror
    · have hrun : expect (c :: text) s =
          (anyrpcThrow ErrorCode.valueInvalid (ascii "Invalid value") : Exec Bytes Unit) s.tail := by
        rw [expect, bind_of_ok (Text.get_apply _), if_pos hhead]
        rfl
      exact .inr ⟨_, _, hrun, _, rfl, show ErrorCode.valueInvalid ≠ 0 by decide⟩

/-- A literal is read. -/
theorem literal_reads {text : Bytes} (htext : (0 : UInt8) ∉ text) (hvalue : IsValue text)
    (sc : Scalar) (s : State) :
    Reads (treeCalls anyTree) IsValue (do onText (expect text); call (.scalar sc)) s := by
  rcases expect_cases htext s.is.rest with ⟨r, hrest⟩ | ⟨f, r, hrun, hf⟩
  · obtain ⟨s', hrun, hstep, hr⟩ := literal_eq hrest (.scalar sc)
    exact reads_of_step hrun hstep (scalar_mem_treeCalls trivial) (hrest.trans (by rw [hr])) hvalue
  · exact reads_of_throws ((throws_onText hrun hf).bind _) exists_mem_treeCalls

theorem string_reads (s : State) : Reads (treeCalls anyTree) IsValue parseString s := by
  rcases parseStringFor_cases (fun str => .scalar (.string str)) s with
    ⟨ts, bs, r, hts, hrest⟩ | hthrows
  · obtain ⟨arg, s', hrun, hstep, hr, -⟩ :=
      parseStringFor_of_chars (fun str => .scalar (.string str)) hts hrest
    exact reads_of_step hrun hstep (scalar_mem_treeCalls trivial) (hrest.trans (by rw [hr]))
      ⟨[], .string hts⟩
  · exact reads_of_throws hthrows exists_mem_treeCalls

variable [Platform]

/-- A number is read. -/
theorem number_reads (s : State) : Reads (treeCalls anyTree) IsValue parseNumber s := by
  have hparse := wp_parse_any s.is.rest
  have htext : Calls {[]} {[]} (fun _ s' => ∃ t, s.is.rest = t ++ s'.is.rest ∧ IsValue t) Faulty
      (onText ParseNumber.parse : ReadM ParseNumber) s := by
    refine calls_onText (wp_mono hparse ?_ ?_)
    · rintro n r ⟨hcomplete, rfl⟩
      obtain ⟨hvalid, hsplit⟩ := split_text hcomplete
      exact ⟨_, by rw [s.is.rest_advance_sub hsplit, ← hsplit], _, .number hvalid⟩
    · rintro f r (rfl | rfl | hf)
      · exact .inr rfl
      · exact .inl ⟨_, rfl, show ErrorCode.numberTooBig ≠ 0 by decide⟩
      · exact .inl (syntaxFault_isError hf)
  refine htext.silent (nil_mem_prefixes exists_mem_treeCalls) ?_
  rintro n s' ⟨t, hrest, ht⟩
  cases hevent : numberEvent n with
  | ok sc =>
    have hcall : [Event.scalar sc] ∈ treeCalls anyTree := scalar_mem_treeCalls trivial
    refine emits_of_ok (call_apply s' _) hcall
      (by simp [ReaderState.events]) ⟨t, hrest, ht⟩
  | error f =>
    refine emits_of_error rfl (nil_mem_prefixes exists_mem_treeCalls) (List.append_nil _).symm
      (.inr ?_)
    unfold numberEvent at hevent
    by_cases huse : n.useDouble = true
    swap
    · rw [if_neg huse] at hevent
      split_ifs at hevent
    rw [if_pos huse] at hevent
    cases hdouble : n.double with
    | ok d =>
      rw [hdouble] at hevent
      cases hevent
    | error f' =>
      rw [hdouble] at hevent
      cases hevent
      exact double_fault hdouble

/-! ## Containers -/

omit [Platform] in
/-- White space is skipped, up to something else. -/
theorem skipWhiteSpace_split (s : State) :
    ∃ w s', Spaces w ∧ s.is.rest = w ++ s'.is.rest ∧
      (∀ c ∈ s'.is.rest.head?, isSpace c = false) ∧ Step s s' [] ∧
      (skipWhiteSpace : ReadM Unit) s = .ok () s' := by
  obtain ⟨w, r, hsplit, hw, hhead⟩ := exists_spaces s.is.rest
  obtain ⟨hrun, hrest⟩ := skipWhiteSpace_eq hw hhead hsplit
  refine ⟨w, consumed s w.length, hw, ?_, ?_, ⟨rfl, rfl, rfl, (List.append_nil _).symm⟩, hrun⟩
  · rw [hrest]
    exact hsplit
  · rw [hrest]
    exact hhead

omit [Platform] in
/-- White space and the byte behind it, or the end of the text. -/
theorem skip_getChar_cases (s : State) :
    (∃ w c s', Spaces w ∧ s.is.rest = w ++ c :: s'.is.rest ∧ Step s s' [] ∧
        (do skipWhiteSpace; getChar : ReadM UInt8) s = .ok c s') ∨
      ∃ s', Step s s' [] ∧ (do skipWhiteSpace; getChar : ReadM UInt8) s = .ok 0 s' := by
  obtain ⟨w, s', hw, hrest, hhead, hstep, hrun⟩ := skipWhiteSpace_split s
  cases hr : s'.is.rest with
  | nil =>
    refine .inr ⟨{ s' with is := s'.is.advance 1 }, ⟨hstep.inSitu, hstep.copy, hstep.beyond,
      hstep.events⟩, ?_⟩
    rw [bind_of_ok hrun, getChar_apply, ReadStream.peek, hr]
    rfl
  | cons c r =>
    have hc : isSpace c = false := hhead c (by rw [hr]; rfl)
    obtain ⟨s'', hs'', hstep', hrun'⟩ := skip_getChar_eq hw hc (by rw [hrest, hr])
    exact .inl ⟨w, c, s'', hw, by rw [hs'', hrest, hr], hstep', hrun'⟩

/-! ### Arrays -/

/-- The calls for the elements that are left and for the end of their array, behind a number of
elements. -/
def elementsEnd (count : ℕ) : Language Event :=
  {es | ∃ ts, ts ≠ [] ∧ es = EventTree.elementEvents ts ++ [.endArray (count + ts.length)]}

/-- The text that is left of an array. -/
def ElementsEnd (t : Bytes) : Prop := ∃ es ns, t = es ++ [0x5d] ∧ Derives .elements es ns

/-- The text behind an element of an array. -/
def ElementEnd (t : Bytes) : Prop :=
  ∃ w, Spaces w ∧ (t = w ++ [0x5d] ∨ ∃ w' u, Spaces w' ∧ t = w ++ 0x2c :: (w' ++ u) ∧ ElementsEnd u)

omit [Platform] in
theorem exists_mem_elementsEnd (count : ℕ) : ∃ es, es ∈ elementsEnd count :=
  ⟨_, [.leaf .null], List.cons_ne_nil _ _, rfl⟩

omit [Platform] in
/-- One element more. -/
theorem elementsEnd_cons {p t : Bytes} (hp : IsValue p) (ht : ElementEnd t) :
    ElementsEnd (p ++ t) := by
  obtain ⟨ns, hp⟩ := hp
  obtain ⟨w, hw, rfl | ⟨w', u, hw', rfl, es, ns', rfl, hes⟩⟩ := ht
  · exact ⟨_, _, (List.append_assoc _ _ _).symm, .lastElement hp hw⟩
  · refine ⟨_, _, ?_, .element hp hw hw' hes⟩
    simp only [List.append_assoc, List.cons_append]

omit [Platform] in
theorem mul_elementsEnd_le (count : ℕ) :
    treeCalls anyTree * (({[.arraySeparator]} : Language Event) * elementsEnd (count + 1) +
      {[.endArray (count + 1)]}) ≤ elementsEnd count := by
  intro es hes
  obtain ⟨_, ⟨t, -, rfl⟩, _, hrest | rfl, rfl⟩ := Language.mem_mul.mp hes
  · obtain ⟨_, rfl, _, ⟨ts, hts, rfl⟩, rfl⟩ := Language.mem_mul.mp hrest
    refine ⟨t :: ts, List.cons_ne_nil _ _, ?_⟩
    rw [EventTree.elementEvents_cons, if_pos (List.length_pos_iff.mpr hts).ne', List.length_cons,
      Nat.add_right_comm, Nat.add_assoc]
    simp
  · refine ⟨[t], List.cons_ne_nil _ _, ?_⟩
    simp [EventTree.elementEvents, EventTree.moreElementEvents]

section

variable {parseValue : ReadM Unit} {n : ℕ}
variable (hvalue : ∀ s : State, s.is.rest.length ≤ n →
  Reads (treeCalls anyTree) IsValue parseValue s)

include hvalue

omit [Platform] in
/-- The loop over the elements. -/
theorem parseElements_reads {fuel : ℕ} (count : ℕ) {s : State} (hn : s.is.rest.length ≤ n)
    (hfuel : s.is.rest.length < fuel) :
    Reads (elementsEnd count) ElementsEnd (parseElements parseValue fuel count) s := by
  induction fuel generalizing count s with
  | zero => exact absurd hfuel (Nat.not_lt_zero _)
  | succ fuel ih =>
    have hexists : ∃ es, es ∈ ({[.arraySeparator]} : Language Event) * elementsEnd (count + 1) +
        {[.endArray (count + 1)]} := ⟨_, .inr rfl⟩
    rw [parseElements_succ]
    refine (Reads.seq (K := ElementEnd) (hvalue s hn) hexists (fun _ s₁ p hrest hp => ?_)
      fun p t => elementsEnd_cons).mono (mul_elementsEnd_le count) fun _ h => h
    have hlt : s₁.is.rest.length < s.is.rest.length := by
      obtain ⟨ns, hp⟩ := hp
      obtain ⟨c, us, rfl, -⟩ := head_value hp
      rw [hrest, List.length_append, List.length_cons]
      omega
    rcases skip_getChar_cases s₁ with ⟨w, c, s₂, hw, hrest₂, hstep, hrun⟩ | ⟨s₂, hstep, hrun⟩
    · have hlt₂ : s₂.is.rest.length < s₁.is.rest.length := by
        rw [hrest₂, List.length_append, List.length_cons]
        omega
      refine reads_bind_of_ok (t := w ++ [c]) (P := fun t => ElementEnd (w ++ c :: t)) hrun
        (hstep.events.trans (List.append_nil _)) (by rw [hrest₂, List.append_assoc]; rfl) ?_
        fun u hu => by rw [List.append_assoc]; exact hu
      by_cases hcomma : c = 0x2c
      · rw [if_pos hcomma]
        obtain ⟨w', s₃, hw', hrest₃, -, hstep₃, hspaces⟩ := skipWhiteSpace_split s₂
        have hle₃ : s₃.is.rest.length ≤ s₂.is.rest.length := by
          rw [hrest₃, List.length_append]
          omega
        refine reads_bind_of_ok (P := ElementsEnd) hspaces
          (hstep₃.events.trans (List.append_nil _)) hrest₃ ?_ fun u hu =>
          ⟨w, hw, .inr ⟨w', u, hw', by rw [hcomma], hu⟩⟩
        refine (Reads.seq (K := ElementsEnd) (reads_call .arraySeparator s₃) (exists_mem_elementsEnd (count + 1))
          (fun _ s₄ t hrest₄ ht => ?_) fun t u ht hu => ?_).mono (fun _ h => .inl h) fun _ h => h
        · rw [ht, List.nil_append] at hrest₄
          exact ih (count + 1) (by rw [← hrest₄]; omega) (by rw [← hrest₄]; omega)
        · rw [ht]
          exact hu
      · rw [if_neg hcomma]
        by_cases hbracket : c = 0x5d
        · rw [if_pos hbracket]
          refine (reads_call (.endArray (count + 1)) s₂).mono (fun _ h => .inr h) ?_
          rintro _ rfl
          exact ⟨w, hw, .inl (by rw [hbracket])⟩
        · rw [if_neg hbracket]
          exact reads_of_throws (throws_anyrpcThrow (by decide) _ s₂) hexists
    · refine reads_of_throws (throws_bind_of_ok hrun (hstep.events.trans (List.append_nil _)) ?_)
        hexists
      rw [if_neg (by decide), if_neg (by decide)]
      exact throws_anyrpcThrow (by decide) _ s₂

end

/-! ### Maps -/

/-- The calls for the members that are left and for the end of their map, behind a number of
members. -/
def membersEnd (count : ℕ) : Language Event :=
  {es | ∃ ms, ms ≠ [] ∧ es = EventTree.memberEvents ms ++ [.endMap (count + ms.length)]}

/-- The text that is left of an object. -/
def MembersEnd (t : Bytes) : Prop := ∃ ms ns, t = ms ++ [0x7d] ∧ Derives .members ms ns

/-- The text behind a member of an object. -/
def MemberEnd (t : Bytes) : Prop :=
  ∃ w, Spaces w ∧ (t = w ++ [0x7d] ∨ ∃ w' u, Spaces w' ∧ t = w ++ 0x2c :: (w' ++ u) ∧ MembersEnd u)

/-- The text of a key, up to the value. -/
def KeyText (t : Bytes) : Prop :=
  ∃ key bs w₁ w₂, Chars key bs ∧ Spaces w₁ ∧ Spaces w₂ ∧ t = quoted key ++ (w₁ ++ 0x3a :: w₂)

omit [Platform] in
theorem exists_mem_membersEnd (count : ℕ) : ∃ es, es ∈ membersEnd count :=
  ⟨_, [(none, .leaf .null)], List.cons_ne_nil _ _, rfl⟩

omit [Platform] in
/-- One member more. -/
theorem membersEnd_cons {k p t : Bytes} (hk : KeyText k) (hp : IsValue p) (ht : MemberEnd t) :
    MembersEnd (k ++ (p ++ t)) := by
  obtain ⟨key, bs, w₁, w₂, hkey, hw₁, hw₂, rfl⟩ := hk
  obtain ⟨ns, hp⟩ := hp
  obtain ⟨w, hw, rfl | ⟨w', u, hw', rfl, ms, ns', rfl, hms⟩⟩ := ht
  · refine ⟨_, _, ?_, .lastMember hkey hw₁ hw₂ hp hw⟩
    simp only [List.append_assoc, List.cons_append]
  · refine ⟨_, _, ?_, .member hkey hw₁ hw₂ hp hw hw' hms⟩
    simp only [List.append_assoc, List.cons_append]

omit [Platform] in
theorem mul_membersEnd_le (arg : StrArg) (count : ℕ) :
    ({[.key arg]} : Language Event) * (treeCalls anyTree *
      (({[.mapSeparator]} : Language Event) * membersEnd (count + 1) + {[.endMap (count + 1)]})) ≤
      membersEnd count := by
  intro es hes
  obtain ⟨_, rfl, _, htree, rfl⟩ := Language.mem_mul.mp hes
  obtain ⟨_, ⟨t, -, rfl⟩, _, hrest | rfl, rfl⟩ := Language.mem_mul.mp htree
  · obtain ⟨_, rfl, _, ⟨ms, hms, rfl⟩, rfl⟩ := Language.mem_mul.mp hrest
    refine ⟨(some arg, t) :: ms, List.cons_ne_nil _ _, ?_⟩
    rw [EventTree.memberEvents_cons, if_pos (List.length_pos_iff.mpr hms).ne', List.length_cons,
      Nat.add_right_comm, Nat.add_assoc, EventTree.keyEvents]
    simp
  · refine ⟨[(some arg, t)], List.cons_ne_nil _ _, ?_⟩
    simp [EventTree.memberEvents, EventTree.moreMemberEvents, EventTree.keyEvents]

omit [Platform] in
/-- The key of a member is read with what stands between it and the value, or the reader throws,
possibly behind the call for the key. -/
theorem parseMembers_cases (parseValue : ReadM Unit) (fuel count : ℕ) (s : State) :
    (∃ t arg s', KeyText t ∧ s.is.rest = t ++ s'.is.rest ∧ Step s s' [.key arg] ∧
      parseMembers parseValue (fuel + 1) count s = (do
        parseValue
        let c ← (do skipWhiteSpace; getChar : ReadM UInt8)
        if c = 0x2c then
          skipWhiteSpace
          call .mapSeparator
          parseMembers parseValue fuel (count + 1)
        else if c = 0x7d then
          call (.endMap (count + 1))
        else
          anyrpcThrow ErrorCode.objectMissCommaOrCurlyBracket
            (ascii "Missing a comma or '\x7d' after an object member") : ReadM Unit) s') ∨
      ∃ arg f s' es, parseMembers parseValue (fuel + 1) count s = .error f s' ∧ f.IsError ∧
        es <+: [.key arg] ∧ s'.events = s.events ++ es := by
  have hthrows (h : Throws (parseMembers parseValue (fuel + 1) count) s) :
      ∃ arg f s' es, parseMembers parseValue (fuel + 1) count s = .error f s' ∧ f.IsError ∧
        es <+: [.key arg] ∧ s'.events = s.events ++ es := by
    obtain ⟨f, s', hrun, hf, hevents⟩ := h
    exact ⟨{ bytes := [] }, f, s', [], hrun, hf, List.nil_prefix, by rw [hevents, List.append_nil]⟩
  rcases parseStringFor_cases .key s with ⟨key, bs, r, hkey, hrest⟩ | hkey
  · obtain ⟨arg, s₁, hrun, hstep, hs₁, -⟩ := parseStringFor_of_chars .key hkey hrest
    have hparse : parseKey s = .ok () s₁ := hrun
    -- Where the colon is missing, the key has been called.
    have hcolon {c : UInt8} {s₂ : State} (hstep₂ : Step s₁ s₂ [])
        (hrun₂ : (do skipWhiteSpace; getChar : ReadM UInt8) s₁ = .ok c s₂) (hc : c ≠ 0x3a) :
        ∃ arg f s' es, parseMembers parseValue (fuel + 1) count s = .error f s' ∧ f.IsError ∧
          es <+: [.key arg] ∧ s'.events = s.events ++ es := by
      refine ⟨arg, .exception { code := ErrorCode.objectMissColon,
                                message := ascii "Missing a colon after a name of object member" },
        s₂, [.key arg], ?_, ⟨_, rfl, show ErrorCode.objectMissColon ≠ 0 by decide⟩,
        List.prefix_rfl, (hstep.trans hstep₂).events⟩
      rw [parseMembers_succ, bind_of_ok (peek_apply s), peek_of_rest hrest,
        if_neg (by decide : ¬ (0x22 : UInt8) ≠ 0x22)]
      beta_reduce
      rw [bind_of_ok hparse, bind_of_ok hrun₂, if_pos hc]
      rfl
    rcases skip_getChar_cases s₁ with ⟨w₁, c, s₂, hw₁, hrest₂, hstep₂, hrun₂⟩ |
      ⟨s₂, hstep₂, hrun₂⟩
    · by_cases hc : c = 0x3a
      · obtain ⟨w₂, s₃, hw₂, hrest₃, hhead, -, -⟩ := skipWhiteSpace_split s₂
        have hall : s.is.rest = quoted key ++ (w₁ ++ 0x3a :: (w₂ ++ s₃.is.rest)) := by
          rw [hrest, ← hs₁, hrest₂, hrest₃, hc]
        obtain ⟨s', hs', hstep', hrun'⟩ :=
          parseMembers_key parseValue fuel count hkey hw₁ hw₂ hhead hall
        refine .inl ⟨_, _, s', ⟨key, bs, w₁, w₂, hkey, hw₁, hw₂, rfl⟩, ?_, hstep', hrun'⟩
        rw [hs', hall]
        simp only [List.append_assoc, List.cons_append]
      · exact .inr (hcolon hstep₂ hrun₂ hc)
    · exact .inr (hcolon hstep₂ hrun₂ (by decide))
  · refine .inr (hthrows ?_)
    rw [parseMembers_succ]
    refine throws_bind_of_ok (peek_apply s) rfl ?_
    by_cases hpeek : s.is.peek ≠ 0x22
    · rw [if_pos hpeek]
      exact (throws_anyrpcThrow (by decide) _ s).bind _
    · rw [if_neg hpeek]
      exact Throws.bind hkey _

section

variable {parseValue : ReadM Unit} {n : ℕ}
variable (hvalue : ∀ s : State, s.is.rest.length ≤ n →
  Reads (treeCalls anyTree) IsValue parseValue s)

include hvalue

omit [Platform] in
/-- The loop over the members. -/
theorem parseMembers_reads {fuel : ℕ} (count : ℕ) {s : State} (hn : s.is.rest.length ≤ n)
    (hfuel : s.is.rest.length < fuel) :
    Reads (membersEnd count) MembersEnd (parseMembers parseValue fuel count) s := by
  induction fuel generalizing count s with
  | zero => exact absurd hfuel (Nat.not_lt_zero _)
  | succ fuel ih =>
    have hexists : ∃ es, es ∈ ({[.mapSeparator]} : Language Event) * membersEnd (count + 1) +
        {[.endMap (count + 1)]} := ⟨_, .inr rfl⟩
    rcases parseMembers_cases parseValue fuel count s with
      ⟨t₀, arg, s₀, ht₀, hrest₀, hstep₀, hrun₀⟩ | ⟨arg, f, s', es, hrun, hf, hes, hevents⟩
    swap
    · refine emits_of_error hrun ?_ hevents (.inl hf)
      refine ⟨_, ⟨[(some arg, .leaf .null)], List.cons_ne_nil _ _, rfl⟩, hes.trans ?_⟩
      exact ⟨_, rfl⟩
    have hle₀ : s₀.is.rest.length ≤ s.is.rest.length := by
      rw [hrest₀, List.length_append]
      omega
    refine (reads_of_eq (P := fun t => ∃ p u, t = p ++ u ∧ IsValue p ∧ MemberEnd u) hrun₀ hstep₀
      hrest₀ ?_ ?_).mono (mul_membersEnd_le arg count) fun _ h => h
    swap
    · rintro _ ⟨p, u, rfl, hp, hu⟩
      exact membersEnd_cons ht₀ hp hu
    refine Reads.seq (K := MemberEnd) (hvalue s₀ (hle₀.trans hn)) hexists
      (fun _ s₁ p hrest hp => ?_) fun p t hp ht => ⟨p, t, rfl, hp, ht⟩
    have hlt : s₁.is.rest.length < s₀.is.rest.length := by
      obtain ⟨ns, hp⟩ := hp
      obtain ⟨c, us, rfl, -⟩ := head_value hp
      rw [hrest, List.length_append, List.length_cons]
      omega
    rcases skip_getChar_cases s₁ with ⟨w, c, s₂, hw, hrest₂, hstep, hrun⟩ | ⟨s₂, hstep, hrun⟩
    · have hlt₂ : s₂.is.rest.length < s₁.is.rest.length := by
        rw [hrest₂, List.length_append, List.length_cons]
        omega
      refine reads_bind_of_ok (t := w ++ [c]) (P := fun t => MemberEnd (w ++ c :: t)) hrun
        (hstep.events.trans (List.append_nil _)) (by rw [hrest₂, List.append_assoc]; rfl) ?_
        fun u hu => by rw [List.append_assoc]; exact hu
      by_cases hcomma : c = 0x2c
      · rw [if_pos hcomma]
        obtain ⟨w', s₃, hw', hrest₃, -, hstep₃, hspaces⟩ := skipWhiteSpace_split s₂
        have hle₃ : s₃.is.rest.length ≤ s₂.is.rest.length := by
          rw [hrest₃, List.length_append]
          omega
        refine reads_bind_of_ok (P := MembersEnd) hspaces
          (hstep₃.events.trans (List.append_nil _)) hrest₃ ?_ fun u hu =>
          ⟨w, hw, .inr ⟨w', u, hw', by rw [hcomma], hu⟩⟩
        refine (Reads.seq (K := MembersEnd) (reads_call .mapSeparator s₃)
          (exists_mem_membersEnd (count + 1)) (fun _ s₄ t hrest₄ ht => ?_) fun t u ht hu => ?_).mono
          (fun _ h => .inl h) fun _ h => h
        · rw [ht, List.nil_append] at hrest₄
          exact ih (count + 1) (by rw [← hrest₄]; omega) (by rw [← hrest₄]; omega)
        · rw [ht]
          exact hu
      · rw [if_neg hcomma]
        by_cases hbracket : c = 0x7d
        · rw [if_pos hbracket]
          refine (reads_call (.endMap (count + 1)) s₂).mono (fun _ h => .inr h) ?_
          rintro _ rfl
          exact ⟨w, hw, .inl (by rw [hbracket])⟩
        · rw [if_neg hbracket]
          exact reads_of_throws (throws_anyrpcThrow (by decide) _ s₂) hexists
    · refine reads_of_throws (throws_bind_of_ok hrun (hstep.events.trans (List.append_nil _)) ?_)
        hexists
      rw [if_neg (by decide), if_neg (by decide)]
      exact throws_anyrpcThrow (by decide) _ s₂

omit [Platform] in
/-- An array, with or without elements. -/
theorem parseArray_reads {s : State} {r : Bytes} (hrest : s.is.rest = 0x5b :: r)
    (hn : r.length ≤ n) :
    Reads (treeCalls anyTree) IsValue (parseArray parseValue) s := by
  obtain ⟨w, r, rfl, hw, hhead⟩ := exists_spaces r
  obtain ⟨s', rfl, hstep, hrun⟩ := parseArray_start parseValue hw hhead hrest
  rw [List.length_append] at hn
  by_cases hpeek : s'.is.peek = 0x5d
  · obtain ⟨r, hr⟩ := exists_of_peek (by decide) hpeek
    have hempty : Reads {[.endArray 0]} (· = [0x5d]) (do
        let _ ← getChar
        call (.endArray 0) : ReadM Unit) s' :=
      emits_of_ok rfl rfl (by simp [ReaderState.events]) ⟨[0x5d], by simp [hr], rfl⟩
    refine (reads_of_eq (R := IsValue) (t := 0x5b :: w) ?_ hstep ?_ hempty ?_).mono ?_
      fun _ h => h
    · rw [hrun, bind_of_ok (peek_apply s'), if_pos hpeek]
    · rw [hrest, List.cons_append]
    · rintro _ rfl
      exact ⟨[], .emptyArray hw⟩
    · rintro _ ⟨_, rfl, _, rfl, rfl⟩
      exact mem_treeCalls (t := .array none []) trivial
  · refine (reads_of_eq (R := IsValue) (t := 0x5b :: w) (q := parseElements parseValue
      (s'.is.rest.length + 1) 0) ?_ hstep ?_ (parseElements_reads hvalue 0 (by omega)
        (Nat.lt_succ_self _)) ?_).mono ?_ fun _ h => h
    · rw [hrun, bind_of_ok (peek_apply s'), if_neg hpeek, bind_of_ok (get_apply s')]
    · rw [hrest, List.cons_append]
    · rintro _ ⟨es, ns, rfl, hes⟩
      refine ⟨ns, ?_⟩
      rw [List.cons_append]
      exact .array hw hes
    · rintro _ ⟨_, rfl, _, ⟨ts, -, rfl⟩, rfl⟩
      refine ⟨.array none ts, trivial, ?_⟩
      rw [Nat.zero_add]
      rfl

omit [Platform] in
/-- A map, with or without members. -/
theorem parseMap_reads {s : State} {r : Bytes} (hrest : s.is.rest = 0x7b :: r)
    (hn : r.length ≤ n) :
    Reads (treeCalls anyTree) IsValue (parseMap parseValue) s := by
  obtain ⟨w, r, rfl, hw, hhead⟩ := exists_spaces r
  obtain ⟨s', rfl, hstep, hrun⟩ := parseMap_start parseValue hw hhead hrest
  rw [List.length_append] at hn
  by_cases hpeek : s'.is.peek = 0x7d
  · obtain ⟨r, hr⟩ := exists_of_peek (by decide) hpeek
    have hempty : Reads {[.endMap 0]} (· = [0x7d]) (do
        let _ ← getChar
        call (.endMap 0) : ReadM Unit) s' :=
      emits_of_ok rfl rfl (by simp [ReaderState.events]) ⟨[0x7d], by simp [hr], rfl⟩
    refine (reads_of_eq (R := IsValue) (t := 0x7b :: w) ?_ hstep ?_ hempty ?_).mono ?_
      fun _ h => h
    · rw [hrun, bind_of_ok (peek_apply s'), if_pos hpeek]
    · rw [hrest, List.cons_append]
    · rintro _ rfl
      exact ⟨[], .emptyObject hw⟩
    · rintro _ ⟨_, rfl, _, rfl, rfl⟩
      exact mem_treeCalls (t := .map none []) trivial
  · refine (reads_of_eq (R := IsValue) (t := 0x7b :: w) (q := parseMembers parseValue
      (s'.is.rest.length + 1) 0) ?_ hstep ?_ (parseMembers_reads hvalue 0 (by omega)
        (Nat.lt_succ_self _)) ?_).mono ?_ fun _ h => h
    · rw [hrun, bind_of_ok (peek_apply s'), if_neg hpeek, bind_of_ok (get_apply s')]
    · rw [hrest, List.cons_append]
    · rintro _ ⟨ms, ns, rfl, hms⟩
      refine ⟨ns, ?_⟩
      rw [List.cons_append]
      exact .object hw hms
    · rintro _ ⟨_, rfl, _, ⟨ms, -, rfl⟩, rfl⟩
      refine ⟨.map none ms, trivial, ?_⟩
      rw [Nat.zero_add]
      rfl

end

/-! ## Values -/

/-- From any text, `ParseValue` reads a value, or throws. -/
theorem parseValue_reads {depth : ℕ} {s : State} (hdepth : s.is.rest.length < depth) :
    Reads (treeCalls anyTree) IsValue (parseValue depth) s := by
  induction depth generalizing s with
  | zero => exact absurd hdepth (Nat.not_lt_zero _)
  | succ depth ih =>
    have hread {p : ReadM Unit} (hp : parseValue (depth + 1) s = p s)
        (h : Reads (treeCalls anyTree) IsValue p s) :
        Reads (treeCalls anyTree) IsValue (parseValue (depth + 1)) s := emits_of_eq hp rfl h
    have hvalue {c : UInt8} {r : Bytes} (hr : s.is.rest = c :: r) (s' : State)
        (hs' : s'.is.rest.length ≤ r.length) :
        Reads (treeCalls anyTree) IsValue (parseValue depth) s' := by
      rw [hr, List.length_cons] at hdepth
      exact ih (by omega)
    by_cases hnull : s.is.peek = 0x6e
    · refine hread ?_ (literal_reads (by decide) ⟨[], .null⟩ .null s)
      rw [parseValue, bind_of_ok (peek_apply s), if_pos hnull]
      rfl
    by_cases htrue : s.is.peek = 0x74
    · refine hread ?_ (literal_reads (by decide) ⟨[], .true⟩ .boolTrue s)
      rw [parseValue, bind_of_ok (peek_apply s), if_neg hnull, if_pos htrue]
      rfl
    by_cases hfalse : s.is.peek = 0x66
    · refine hread ?_ (literal_reads (by decide) ⟨[], .false⟩ .boolFalse s)
      rw [parseValue, bind_of_ok (peek_apply s), if_neg hnull, if_neg htrue, if_pos hfalse]
      rfl
    by_cases hstring : s.is.peek = 0x22
    · refine hread ?_ (string_reads s)
      rw [parseValue, bind_of_ok (peek_apply s), if_neg hnull, if_neg htrue, if_neg hfalse,
        if_pos hstring]
    by_cases hmap : s.is.peek = 0x7b
    · obtain ⟨r, hr⟩ := exists_of_peek (by decide) hmap
      exact hread (parseValue_map depth hr) (parseMap_reads (hvalue hr) hr le_rfl)
    by_cases harray : s.is.peek = 0x5b
    · obtain ⟨r, hr⟩ := exists_of_peek (by decide) harray
      exact hread (parseValue_array depth hr) (parseArray_reads (hvalue hr) hr le_rfl)
    · refine hread ?_ (number_reads s)
      rw [parseValue, bind_of_ok (peek_apply s), if_neg hnull, if_neg htrue, if_neg hfalse,
        if_neg hstring, if_neg hmap, if_neg harray]

/-! ## Recognising the grammar -/

/-- What `ParseValue` accepts is a value of the grammar. -/
def Sound (s : State) : Prop :=
  ∀ s', parseValue (s.is.rest.length + 1) s = .ok () s' →
    ∃ p, s.is.rest = p ++ s'.is.rest ∧ IsValue p

/-- A value of the grammar, which nothing goes on with that could be part of a number, is consumed,
or a number in it is reported as too big. -/
def Complete (s : State) : Prop :=
  ∀ p r, s.is.rest = p ++ r → IsValue p → (IsNumber p → EndsNumber r) →
    (∃ s', parseValue (s.is.rest.length + 1) s = .ok () s' ∧ s'.is.rest = r) ∨
      ∃ e s', parseValue (s.is.rest.length + 1) s = .error (.exception e) s' ∧
        e.code = ErrorCode.numberTooBig

/-- The numbers of a value at the start of the text are in range, up to the first one that is too
big. -/
def StartsInRange (s : State) : Prop :=
  ∀ p r ns, s.is.rest = p ++ r → Derives .value p ns → (IsNumber p → EndsNumber r) →
    NumbersInRange ns

/-- `ParseValue` accepts exactly the values of the grammar, except where the exponent of a number
leaves the range of an `int`. -/
theorem parseValue_recognizes_iff (hnonzero : Platform.DigitsNonzero) (s : State) :
    Sound s ∧ Complete s ↔ StartsInRange s := by
  have hrun {p r : Bytes} {ns : List NumberText} (hrest : s.is.rest = p ++ r)
      (hp : Derives .value p ns) (hends : IsNumber p → EndsNumber r) :
      Consumes (parseValue (s.is.rest.length + 1)) s r ns :=
    recognized hnonzero hp s r _ hrest hends (by rw [hrest, List.length_append]; omega)
  constructor
  · rintro ⟨-, hcomplete⟩ p r ns hrest hp hends
    have hconsumes := hrun hrest hp hends
    rcases hcomplete p r hrest ⟨ns, hp⟩ hends with ⟨s', hok, -⟩ | ⟨e, s', herror, -⟩
    · exact (hconsumes.of_ok hok).2.inRange
    · rcases (hconsumes.of_error herror).fault with ⟨-, hrange⟩ | ⟨hf, -⟩
      · exact hrange
      · cases hf
  · intro hrange
    refine ⟨fun s' hok => ?_, fun p r hrest hp hends => ?_⟩
    · exact ((parseValue_reads (Nat.lt_succ_self _)).wp.of_ok hok)
    · obtain ⟨ns, hp⟩ := hp
      have hconsumes := hrun hrest hp hends
      cases hresult : parseValue (s.is.rest.length + 1) s with
      | ok a s' => exact .inl ⟨s', rfl, (hconsumes.of_ok hresult).1⟩
      | error f s' =>
        rcases (hconsumes.of_error hresult).fault with ⟨rfl, -⟩ | ⟨-, hrange'⟩
        · exact .inr ⟨_, s', rfl, rfl⟩
        · exact absurd (hrange p r ns hrest hp hends) hrange'

omit [Platform] in
/-- An array with a number and a string. -/
theorem parseValue_recognizes_iff_array :
    let s := JsonReader.new (.readString (ascii "[ 12 , \"a\" ]"))
    @Sound Platform.nonzero s ∧ @Complete Platform.nonzero s ↔ @StartsInRange Platform.nonzero s :=
  @parseValue_recognizes_iff Platform.nonzero (fun _ _ _ => rfl) _

/-- A number that runs into what is undefined. -/
theorem not_complete_of_number {s : State} {t : NumberText} (ht : t.Valid)
    (hrest : s.is.rest = t.text)
    (hundefined : ¬ Defined (parseValue (s.is.rest.length + 1)) s) : ¬ Complete s := by
  intro h
  refine hundefined ?_
  have hends : EndsNumber [] := by
    rintro _ ⟨⟩
  rcases h t.text [] (by rw [hrest, List.append_nil]) ⟨[t], .number ht⟩ (fun _ => hends) with
    ⟨s', hrun, -⟩ | ⟨e, s', hrun, -⟩
  · rw [Defined, wp, hrun]
    trivial
  · rw [Defined, wp, hrun]
    intro hundefined
    cases hundefined

omit [Platform] in
/-- A number whose exponent leaves the range of an `int` is neither accepted nor reported. -/
theorem parseValue_not_complete :
    ¬ @Complete Platform.nonzero (JsonReader.new (.readString (ascii "1e-2147483648"))) := by
  have hint : IntDigits (ascii "1") := .inr ⟨0x31, [], by decide +kernel⟩
  have hexp : ExpValid ⟨0x65, some 0x2d, ascii "2147483648"⟩ := {
    mark := .inl rfl
    sign := fun c hc => .inr (Option.some.inj hc).symm
    ne_nil := by decide +kernel
    digits := by decide +kernel }
  refine @not_complete_of_number Platform.nonzero _
    ⟨false, ascii "1", none, some ⟨0x65, some 0x2d, ascii "2147483648"⟩⟩ ?_ (by decide +kernel)
    (by decide +kernel)
  exact ⟨hint, nofun, fun e he => Option.some.inj he ▸ hexp⟩

end AnyRpc.JsonReader
