import AnyRpc.Library.Emits
import AnyRpc.Reader.Number
import AnyRpc.Reader.Parse

/-! # The calls that a reader makes

The languages of the calls that deliver a tree, the elements of an array or the members of a map.
What is known about parsing any text at all is that a reader makes the calls of a tree, or throws
within such calls: then what is left in a document is the value of the tree, or there is a parse
error (`Reader.parseStream_of_emits`). -/

namespace AnyRpc

open Library Handler

/-! ## Languages of calls -/

/-- The calls of the trees with a property. -/
def treeCalls (P : EventTree → Prop) : Language Event := {es | ∃ t, P t ∧ es = t.events}

/-- The calls for the elements of an array, by a property of their trees. -/
def elementCalls (P : List EventTree → Prop) : Language Event :=
  {es | ∃ ts, P ts ∧ es = EventTree.elementEvents ts}

/-- The calls for the members of a map, by a property of their keys and trees. -/
def memberCalls (P : List (Option StrArg × EventTree) → Prop) : Language Event :=
  {es | ∃ ms, P ms ∧ es = EventTree.memberEvents ms}

/-- The calls for a key, or for the lack of one. -/
def keyCalls (P : Option StrArg → Prop) : Language Event :=
  {es | ∃ k, P k ∧ es = EventTree.keyEvents k}

theorem mem_treeCalls {P : EventTree → Prop} {t : EventTree} (h : P t) : t.events ∈ treeCalls P :=
  ⟨t, h, rfl⟩

/-- Every scalar call delivers a tree. -/
theorem scalar_mem_treeCalls {P : EventTree → Prop} {sc : Scalar} (h : P (.leaf sc)) :
    [.scalar sc] ∈ treeCalls P :=
  mem_treeCalls h

/-- One element more. -/
theorem tree_mul_elementCalls_le {P : EventTree → Prop} {Q R : List EventTree → Prop} {n : ℕ}
    (h : ∀ t ts, P t → Q ts → ts.length = n ∧ R (t :: ts)) :
    treeCalls P * (({if n ≠ 0 then [.arraySeparator] else []} : Language Event) * elementCalls Q) ≤
      elementCalls R := by
  intro es hes
  obtain ⟨_, ⟨t, ht, rfl⟩, _, hrest, rfl⟩ := Language.mem_mul.mp hes
  obtain ⟨_, rfl, _, ⟨ts, hts, rfl⟩, rfl⟩ := Language.mem_mul.mp hrest
  obtain ⟨rfl, hR⟩ := h t ts ht hts
  exact ⟨t :: ts, hR, (EventTree.elementEvents_cons t ts).symm⟩

/-- One member more. -/
theorem key_mul_memberCalls_le {K : Option StrArg → Prop} {P : EventTree → Prop}
    {Q R : List (Option StrArg × EventTree) → Prop} {n : ℕ}
    (h : ∀ k t ms, K k → P t → Q ms → ms.length = n ∧ R ((k, t) :: ms)) :
    keyCalls K * (treeCalls P *
        (({if n ≠ 0 then [.mapSeparator] else []} : Language Event) * memberCalls Q)) ≤
      memberCalls R := by
  intro es hes
  obtain ⟨_, ⟨k, hk, rfl⟩, _, hvalue, rfl⟩ := Language.mem_mul.mp hes
  obtain ⟨_, ⟨t, ht, rfl⟩, _, hrest, rfl⟩ := Language.mem_mul.mp hvalue
  obtain ⟨_, rfl, _, ⟨ms, hms, rfl⟩, rfl⟩ := Language.mem_mul.mp hrest
  obtain ⟨rfl, hR⟩ := h k t ms hk ht hms
  exact ⟨(k, t) :: ms, hR, (EventTree.memberEvents_cons k t ms).symm⟩

/-- The calls of an array. -/
theorem array_le_treeCalls {P : List EventTree → Prop} {Q : EventTree → Prop} {n : ℕ}
    {c : Option ℕ} (h : ∀ ts, P ts → ts.length = n ∧ Q (.array c ts)) :
    ({[.startArray c]} : Language Event) * (elementCalls P * {[.endArray n]}) ≤
      treeCalls Q := by
  intro es hes
  obtain ⟨_, rfl, _, hrest, rfl⟩ := Language.mem_mul.mp hes
  obtain ⟨_, ⟨ts, hts, rfl⟩, _, rfl, rfl⟩ := Language.mem_mul.mp hrest
  obtain ⟨rfl, hQ⟩ := h ts hts
  exact ⟨_, hQ, rfl⟩

/-- The calls of a map. -/
theorem map_le_treeCalls {P : List (Option StrArg × EventTree) → Prop} {Q : EventTree → Prop}
    {n : ℕ} {c : Option ℕ} (h : ∀ ms, P ms → ms.length = n ∧ Q (.map c ms)) :
    ({[.startMap c]} : Language Event) * (memberCalls P * {[.endMap n]}) ≤ treeCalls Q := by
  intro es hes
  obtain ⟨_, rfl, _, hrest, rfl⟩ := Language.mem_mul.mp hes
  obtain ⟨_, ⟨ms, hms, rfl⟩, _, rfl, rfl⟩ := Language.mem_mul.mp hrest
  obtain ⟨rfl, hQ⟩ := h ms hms
  exact ⟨_, hQ, rfl⟩

/-! ## Parsing any text -/

/-- No property. -/
def anyTree : EventTree → Prop := fun _ => True

namespace Reader

variable {τ : Type}

/-- A computation makes the calls of a word, or throws within the calls of another one. -/
abbrev Calls {α : Type} (L T : Language Event) (Q : α → ReaderState τ → Prop) (E : Fault → Prop)
    (p : Reader τ α) (s : ReaderState τ) : Prop :=
  Emits ReaderState.events L T Q E p s

/-- A call of the handler. -/
theorem calls_call {e : Event} {s : ReaderState τ} {T : Language Event}
    {Q : Unit → ReaderState τ → Prop} {E : Fault → Prop}
    (hQ : Q () { s with calls := s.calls ++ [⟨e, s.is.tell⟩] }) : Calls {[e]} T Q E (call e) s :=
  emits_of_ok (call_apply s e) rfl (by simp [ReaderState.events]) hQ

/-- Nothing is called. -/
theorem calls_pure {α : Type} {a : α} {s : ReaderState τ} {T : Language Event}
    {Q : α → ReaderState τ → Prop} {E : Fault → Prop} (hQ : Q a s) :
    Calls {[]} T Q E (pure a) s :=
  emits_of_ok rfl rfl (List.append_nil _).symm hQ

/-- A computation over the text that is left. -/
theorem calls_onText {α : Type} {p : Exec Bytes α} {s : ReaderState τ}
    {Q : α → ReaderState τ → Prop} {E : Fault → Prop}
    (h : wp p (fun a r => Q a { s with is := s.is.advance (s.is.rest.length - r.length) })
      (fun f _ => E f) s.is.rest) : Calls {[]} {[]} Q E (onText p) s := by
  rw [wp] at h
  cases hp : p s.is.rest with
  | ok a r =>
    rw [hp] at h
    exact emits_of_ok (onText_of_ok hp) rfl (List.append_nil _).symm h
  | error f r =>
    rw [hp] at h
    exact emits_of_error (onText_of_error hp) rfl (List.append_nil _).symm h

/-- What is guaranteed of a computation over the text that is left. -/
theorem wp_onText {α : Type} {p : Exec Bytes α} {Q : α → ReaderState τ → Prop}
    {E : Fault → ReaderState τ → Prop} {s : ReaderState τ} :
    wp (onText p) Q E s ↔
      wp p (fun a r => Q a { s with is := s.is.advance (s.is.rest.length - r.length) })
        (fun f r => E f { s with is := s.is.advance (s.is.rest.length - r.length) }) s.is.rest := by
  unfold wp
  cases hp : p s.is.rest with
  | ok a r => rw [onText_of_ok hp]
  | error f r => rw [onText_of_error hp]

/-- What is guaranteed of a computation that leaves a part of the text. -/
theorem wp_onText_of_append {α : Type} {p : Exec Bytes α} {Q : α → Bytes → Prop}
    {E : Fault → Prop} {s : ReaderState τ}
    (h : wp p (fun a r => (∃ t, s.is.rest = t ++ r) ∧ Q a r) (fun f _ => E f) s.is.rest) :
    wp (onText p) (fun a s' => Q a s'.is.rest) (fun f _ => E f) s := by
  refine wp_onText.mpr (wp_mono h ?_ fun _ _ h => h)
  rintro a r ⟨⟨t, hrest⟩, hQ⟩
  rw [s.is.rest_advance_sub hrest]
  exact hQ

/-- A computation over the text that throws. -/
theorem throws_onText {α : Type} {p : Exec Bytes α} {s : ReaderState τ} {f : Fault} {r : Bytes}
    (h : p s.is.rest = .error f r) (hf : f.IsError) : Throws (onText p) s :=
  ⟨f, _, onText_of_error h, hf, rfl⟩

variable [Platform] {parse : Reader τ Unit} {s : ReaderState τ}

/-- Parsing leaves the value of the tree that a reader delivers, or a parse error. -/
theorem parseStream_of_calls {P P' : EventTree → Prop} {Q : Unit → ReaderState τ → Prop}
    (d : Document)
    (h : Calls (treeCalls P) (prefixes (treeCalls P')) Q Fault.IsError parse
      { s with calls := [] }) :
    ∃ r, parseStream parse s d = .ok r ∧
      (r.hasParseError = true ∨ r.hasParseError = false ∧ Q () r.reader ∧
        ∃ t v, P t ∧ t.build d.convertExtensions = .ok v ∧
          r.handler = { d with value := v, stack := [] }) := by
  rcases h.cases with ⟨⟨⟩, s', hparse, ⟨_, ⟨t, ht, rfl⟩, hevents⟩, hQ⟩ |
    ⟨f, s', hparse, ⟨es, ⟨_, ⟨t, -, rfl⟩, hpre⟩, hevents⟩, hf⟩
  · cases hbuild : t.build d.convertExtensions with
    | ok v => exact ⟨_, parseStream_of_build hparse hevents hbuild, .inr
        ⟨rfl, hQ, t, v, ht, hbuild, rfl⟩⟩
    | error f =>
      obtain ⟨r, hr, herr⟩ := parseStream_of_build_error hparse hevents hbuild
      exact ⟨r, hr, .inl herr⟩
  · obtain ⟨r, hr, herr⟩ := parseStream_of_prefix d hparse hf (by rw [hevents]; exact hpre)
    exact ⟨r, hr, .inl herr⟩

end Reader

end AnyRpc
