import AnyRpc.Reader.Reader

/-! # Parsing into a document

Where the calls of a reader form a tree, parsing into a `Document` leaves the value of the tree; where
they are the beginning of a tree, as when the reader throws, it ends with a parse error. Either way
nothing but an exception can come out of the calls, so that all that is left to know about a reader
is which calls it makes. -/

namespace AnyRpc

open Library Handler

/-- A fault that is an exception with an error code. -/
def Fault.IsError (f : Fault) : Prop := ∃ e : AnyRpcException, f = .exception e ∧ e.code ≠ 0

/-! ## Parts of a reader -/

namespace Reader

variable {τ : Type}

/-- From one state to another, only calls are added and bytes consumed. -/
structure Step (s s' : ReaderState τ) (es : List Event) : Prop where
  inSitu : s'.is.inSitu = s.is.inSitu
  copy : s'.is.copy = s.is.copy
  beyond : s'.is.beyond = s.is.beyond
  events : s'.events = s.events ++ es

theorem Step.refl (s : ReaderState τ) : Step s s [] := ⟨rfl, rfl, rfl, (List.append_nil _).symm⟩

theorem Step.trans {s s' s'' : ReaderState τ} {es fs : List Event} (h : Step s s' es)
    (h' : Step s' s'' fs) : Step s s'' (es ++ fs) :=
  ⟨h'.inSitu.trans h.inSitu, h'.copy.trans h.copy, h'.beyond.trans h.beyond, by
    rw [h'.events, h.events, List.append_assoc]⟩

/-- A computation throws, without a call. -/
def Throws {α : Type} (p : Reader τ α) (s : ReaderState τ) : Prop :=
  ∃ f s', p s = .error f s' ∧ f.IsError ∧ s'.events = s.events

/-- A sequence throws where its first part does. -/
theorem Throws.bind {α β : Type} {p : Reader τ α} {s : ReaderState τ} (h : Throws p s)
    (f : α → Reader τ β) : Throws (p >>= f) s := by
  obtain ⟨e, s', hp, he, hevents⟩ := h
  exact ⟨e, s', bind_of_error hp, he, hevents⟩

/-- A sequence throws where its second part does, from a state with the same calls. -/
theorem throws_bind_of_ok {α β : Type} {p : Reader τ α} {f : α → Reader τ β}
    {s s' : ReaderState τ} {a : α} (hp : p s = .ok a s') (hevents : s'.events = s.events)
    (h : Throws (f a) s') : Throws (p >>= f) s := by
  obtain ⟨e, s'', hf, he, hevents'⟩ := h
  exact ⟨e, s'', by rw [bind_of_ok hp, hf], he, hevents'.trans hevents⟩

/-- What `anyrpc_throw` throws with a code other than that of no error. -/
theorem throws_anyrpcThrow {α : Type} {code : BitVec 32} (hcode : code ≠ 0) (message : Bytes)
    (s : ReaderState τ) : Throws (anyrpcThrow code message : Reader τ α) s :=
  ⟨_, s, rfl, ⟨_, rfl, hcode⟩, rfl⟩

theorem throws_termination {α : Type} (s : ReaderState τ) :
    Throws (throwTermination : Reader τ α) s :=
  throws_anyrpcThrow (by decide) _ s

theorem throws_valueInvalid {α : Type} (s : ReaderState τ) :
    Throws (throwValueInvalid : Reader τ α) s :=
  throws_anyrpcThrow (by decide) _ s

end Reader

variable [Platform]

/-! ## Faults of a document -/

omit [Platform] in
/-- An array only fails to grow with an exception. -/
theorem pushCapacity_isError {size capacity : ℕ} {f : Fault}
    (h : pushCapacity size capacity = .error f) : f.IsError := by
  rw [pushCapacity] at h
  split_ifs at h
  cases h
  exact ⟨_, rfl, show ErrorCode.memoryAllocation ≠ 0 by decide⟩

omit [Platform] in
/-- A map only fails to grow with an exception. -/
theorem memberCapacity_isError {size capacity : ℕ} {f : Fault}
    (h : memberCapacity size capacity = .error f) : f.IsError := by
  rw [memberCapacity] at h
  split_ifs at h <;> cases h <;> exact ⟨_, rfl, show ErrorCode.memoryAllocation ≠ 0 by decide⟩

namespace EventTree

/-- The conversion of an extension only fails with an exception. -/
theorem Extension.convert_isError {x : Extension} {v : Value} {f : Fault}
    (h : x.convert v = .error f) : f.IsError := by
  cases x with
  | dateTime data =>
    rw [convert, outcome, Document.convertDateTime] at h
    cases hscan : (if data.length = 17 then Document.scanDateTime (cString data) else none) with
    | none =>
      rw [hscan] at h
      cases h
      exact ⟨_, rfl, by decide⟩
    | some t =>
      rw [hscan] at h
      cases h
  | base64 data =>
    rw [convert, outcome, Document.convertBase64] at h
    simp only [bind_apply, set_apply] at h
    split_ifs at h
    · cases h
      exact ⟨_, rfl, by decide⟩
    · cases h

/-- The end of an array only fails with an exception. -/
theorem finish_isError {convert : Bool} {es : List Value} {c : ℕ} {f : Fault}
    (h : finish convert es c = .error f) : f.IsError := by
  by_cases hnone : convert = true → extension? es = none
  · rw [finish_of_none c hnone] at h
    cases h
  · obtain ⟨rfl, hx⟩ := Classical.not_imp.mp hnone
    obtain ⟨x, hx⟩ := Option.ne_none_iff_exists'.mp hx
    rw [finish_of_some c hx] at h
    exact Extension.convert_isError h

/-- The elements of an array only fail with an exception, where each of them does. -/
theorem buildElements_isError {convert : Bool} {ts : List EventTree}
    (hts : ∀ t ∈ ts, ∀ f, build convert t = .error f → f.IsError) {es : List Value} {c : ℕ}
    {f : Fault} (h : buildElements convert ts es c = .error f) : f.IsError := by
  induction ts generalizing es c with
  | nil => cases h
  | cons t ts ih =>
    rw [buildElements] at h
    cases hcap : pushCapacity es.length c with
    | error f' =>
      rw [hcap] at h
      cases h
      exact pushCapacity_isError hcap
    | ok c' =>
      rw [hcap] at h
      cases hv : t.build convert with
      | error f' =>
        rw [hv] at h
        cases h
        exact hts t List.mem_cons_self _ hv
      | ok v =>
        rw [hv] at h
        exact ih (fun t' ht' => hts t' (List.mem_cons_of_mem _ ht')) h

/-- The members of a map only fail with an exception, where each of their values does. -/
theorem buildMembers_isError {convert : Bool} {rest : List (Option StrArg × EventTree)}
    (hrest : ∀ m ∈ rest, ∀ f, build convert m.2 = .error f → f.IsError)
    {ms : List (Bytes × Value)} {c : ℕ} {f : Fault}
    (h : buildMembers convert rest ms c = .error f) : f.IsError := by
  induction rest generalizing ms c with
  | nil => cases h
  | cons m rest ih =>
    obtain ⟨k, t⟩ := m
    cases k with
    | none =>
      cases h
      exact ⟨_, rfl, by decide⟩
    | some k =>
      rw [buildMembers] at h
      cases hcap : memberCapacity ms.length c with
      | error f' =>
        rw [hcap] at h
        cases h
        exact memberCapacity_isError hcap
      | ok c' =>
        cases hk : k.terminated with
        | false =>
          rw [hcap, hk] at h
          cases h
          exact ⟨_, rfl, by decide⟩
        | true =>
          cases hv : t.build convert with
          | error f' =>
            rw [hcap, hk, hv] at h
            cases h
            exact hrest (some k, t) List.mem_cons_self _ hv
          | ok v =>
            rw [hcap, hk, hv] at h
            exact ih (fun m' hm' => hrest m' (List.mem_cons_of_mem _ hm')) h

/-- A tree that builds nothing fails with an exception. -/
theorem build_isError {convert : Bool} {t : EventTree} {f : Fault}
    (h : t.build convert = .error f) : f.IsError := by
  induction t using EventTree.induction generalizing f with
  | leaf s =>
    cases s with
    | string str =>
      rw [build, Scalar.build] at h
      split_ifs at h
      cases h
      exact ⟨_, rfl, by decide⟩
    | _ => cases h
  | array c ts ih =>
    cases ts with
    | nil => cases h
    | cons t ts =>
      rw [build_array_cons] at h
      cases hr : buildArray convert t ts with
      | ok r =>
        rw [hr] at h
        exact finish_isError h
      | error f' =>
        rw [hr] at h
        cases h
        rw [buildArray] at hr
        cases hv : t.build convert with
        | error f'' =>
          rw [hv] at hr
          cases hr
          exact ih t List.mem_cons_self hv
        | ok v =>
          rw [hv] at hr
          exact buildElements_isError
            (fun t' ht' f hf => ih t' (List.mem_cons_of_mem _ ht') hf) hr
  | map c ms ih =>
    rw [build] at h
    cases hms : buildMembers convert ms [] 0 with
    | ok r => rw [hms] at h; cases h
    | error f' =>
      rw [hms] at h
      cases h
      exact buildMembers_isError (fun m hm f hf => ih m hm hf) hms

end EventTree

/-! ## The calls of a reader that reads one value -/

namespace Document

/-- The beginning of a tree is delivered, or fails with an exception. -/
theorem deliver_prefix {es : List Event} {t : EventTree} (hes : es <+: t.events) (d : Document) :
    (∃ d', deliver es (startDocument d) = .ok d') ∨
      ∃ f, deliver es (startDocument d) = .error f ∧ f.IsError := by
  cases hdeliver : deliver es (startDocument d) with
  | ok d' => exact .inl ⟨d', rfl⟩
  | error f =>
    obtain ⟨more, hmore⟩ := hes
    have hall := deliver_append_of_error hdeliver more
    rw [hmore, deliver_startDocument] at hall
    cases hbuild : t.build d.convertExtensions with
    | ok v => rw [hbuild] at hall; cases hall
    | error f' =>
      rw [hbuild] at hall
      cases hall
      exact .inr ⟨f, rfl, EventTree.build_isError hbuild⟩

end Document

namespace Reader

variable {τ : Type} {parse : Reader τ Unit} {s s' : ReaderState τ}

/-- Parsing leaves the value of the tree of the calls. -/
theorem parseStream_of_build {t : EventTree} {v : Value} {d : Document}
    (hparse : parse { s with calls := [] } = .ok () s') (hevents : s'.events = t.events)
    (hbuild : t.build d.convertExtensions = .ok v) :
    parseStream parse s d =
      .ok { handler := { d with value := v, stack := [] }, reader := s' } := by
  have hdeliver : deliver s'.events (startDocument d) =
      .ok { d with value := v, stack := [[]] } := by
    rw [hevents]
    exact (Document.deliver_startDocument t d).trans (by rw [hbuild]; rfl)
  rw [parseStream_of_ok hparse hdeliver]
  rfl

/-- Parsing ends with a parse error where the tree of the calls builds nothing. -/
theorem parseStream_of_build_error {t : EventTree} {f : Fault} {d : Document}
    (hparse : parse { s with calls := [] } = .ok () s') (hevents : s'.events = t.events)
    (hbuild : t.build d.convertExtensions = .error f) :
    ∃ r, parseStream parse s d = .ok r ∧ r.hasParseError = true := by
  obtain ⟨e, rfl, he⟩ := EventTree.build_isError hbuild
  have hdeliver : deliver s'.events (startDocument d) = .error (.exception e) := by
    rw [hevents]
    exact (Document.deliver_startDocument t d).trans (by rw [hbuild]; rfl)
  obtain ⟨d', offset, hrun⟩ := parseStream_of_deliver_error (congrArg reached hparse) hdeliver
  exact ⟨_, hrun, by simpa [Parsed.hasParseError, AnyRpcException.isErrorSet] using he⟩

/-- Parsing ends with a parse error where the reader throws within a tree. -/
theorem parseStream_of_prefix {t : EventTree} {f : Fault} (d : Document)
    (hparse : parse { s with calls := [] } = .error f s') (hf : f.IsError)
    (hevents : s'.events <+: t.events) :
    ∃ r, parseStream parse s d = .ok r ∧ r.hasParseError = true := by
  obtain ⟨e, rfl, he⟩ := hf
  rcases Document.deliver_prefix hevents d with ⟨d', hdeliver⟩ | ⟨f, hdeliver, e', rfl, he'⟩
  · exact ⟨_, parseStream_of_error hparse hdeliver,
      by simpa [Parsed.hasParseError, AnyRpcException.isErrorSet] using he⟩
  · obtain ⟨d', offset, hrun⟩ := parseStream_of_deliver_error (congrArg reached hparse) hdeliver
    exact ⟨_, hrun, by simpa [Parsed.hasParseError, AnyRpcException.isErrorSet] using he'⟩

omit [Platform] in
/-- What a reader leaves can be told without its own state. -/
theorem exists_parsed {parsed : Except Fault (Parsed Document τ)} {hasParseError : Bool} {value : Value}
    (h : parsed.toOption.map (fun reader => (reader.hasParseError, reader.handler.value)) =
      some (hasParseError, value)) :
    ∃ reader, parsed = .ok reader ∧ reader.hasParseError = hasParseError ∧
      reader.handler.value = value := by
  cases parsed with
  | error f => cases h
  | ok reader =>
    obtain ⟨herror, hvalue⟩ := Prod.mk.inj (Option.some.inj h)
    exact ⟨reader, rfl, herror, hvalue⟩

end Reader

end AnyRpc
