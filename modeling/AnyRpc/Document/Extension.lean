import AnyRpc.Document.Build

/-! # Extensions at the end of an array

With the conversion on, `EndArray` takes an array for an extension when its first two elements are
strings and the first one agrees with a name of an extension as far as `strncmp` looks. That is not
the same as being an extension: a prefix of a name passes too, and so does any number of further
elements. -/

namespace AnyRpc

open Library Handler

namespace Document

/-! ## Where a value is expected -/

/-- The document right after `StartDocument`. -/
def started (convertExtensions : Bool) : Document where
  value := .invalid
  stack := [[]]
  convertExtensions := convertExtensions

/-- The beginnings of a well-formed sequence of calls after which a value is expected, at any
nesting depth. -/
inductive AwaitsValue : List Event → Prop where
  | root : AwaitsValue []
  | firstElement {before : List Event} (h : AwaitsValue before) (count : Option ℕ) :
      AwaitsValue (before ++ [.startArray count])
  | nextElement {before : List Event} (h : AwaitsValue before) (count : Option ℕ) (t : EventTree)
      (ts : List EventTree) :
      AwaitsValue (before ++
        (.startArray count :: (EventTree.elementEvents (t :: ts) ++ [.arraySeparator])))
  | firstMember {before : List Event} (h : AwaitsValue before) (count : Option ℕ) (k : StrArg) :
      AwaitsValue (before ++ [.startMap count, .key k])
  | nextMember {before : List Event} (h : AwaitsValue before) (count : Option ℕ)
      (m : Option StrArg × EventTree) (ms : List (Option StrArg × EventTree)) (k : StrArg) :
      AwaitsValue (before ++
        (.startMap count :: (EventTree.memberEvents (m :: ms) ++ [.mapSeparator, .key k])))

/-- The last pointer of the document leads to a value that is not yet assigned. -/
def Vacant (d : Document) : Prop :=
  ∃ p l, d.stack = p :: l ∧ Nested.get? p d.value = some .invalid

variable [Platform]

section

variable {d d' : Document} {p : Path} {l : List Path} {v₀ : Value}
variable (h₀ : Nested.get? p d.value = some v₀)

include h₀

omit [Platform] in
/-- The last element of an array is vacant while it is not assigned. -/
theorem vacant_element (es : List Value) (c : ℕ) :
    Vacant (d.within p (.array (es ++ [.invalid]) c) ((p ++ [es.length]) :: p :: l)) := by
  refine ⟨_, _, rfl, ?_⟩
  rw [get?_child h₀]
  simp [Value.child?]

omit [Platform] in
/-- The value of the last member of a map is vacant while it is not assigned. -/
theorem vacant_member (ms : List (Bytes × Value)) (k : Bytes) (c : ℕ) :
    Vacant (d.within p (.map (ms ++ [(k, .invalid)]) c) ((p ++ [ms.length]) :: p :: l)) := by
  refine ⟨_, _, rfl, ?_⟩
  rw [get?_child h₀]
  simp [Value.child?]

/-- After a separator the next element is vacant. -/
theorem vacant_arraySeparator {es : List Value} (hne : es ≠ []) (hes : ∀ e ∈ es, e ≠ Value.invalid)
    (c : ℕ) (h : deliver [.arraySeparator]
      (d.within p (.array es c) ((p ++ [es.length - 1]) :: p :: l)) = .ok d') :
    d'.convertExtensions = d.convertExtensions ∧ Vacant d' := by
  obtain ⟨es, v, rfl⟩ := List.eq_nil_or_concat' es |>.resolve_left hne
  rw [List.length_append, List.length_singleton, Nat.add_sub_cancel, deliver_singleton,
    show handle Event.arraySeparator = arraySeparator from rfl,
    outcome_arraySeparator h₀ (hes v (by simp))] at h
  cases hcap : pushCapacity (es.length + 1) c with
  | error f => rw [hcap] at h; cases h
  | ok c' =>
    rw [hcap] at h
    cases h
    have hvacant := vacant_element h₀ (l := l) (es ++ [v]) c'
    rw [List.length_append, List.length_singleton] at hvacant
    exact ⟨rfl, hvacant⟩

/-- After a key the value of its member is vacant. -/
theorem vacant_key (ms : List (Bytes × Value)) (c : ℕ) (k : StrArg)
    (h : deliver [.key k] (d.within p (.map ms c) (p :: l)) = .ok d') :
    d'.convertExtensions = d.convertExtensions ∧ Vacant d' := by
  rw [deliver_singleton, show handle (Event.key k) = key k from rfl, outcome_key h₀] at h
  cases hcap : memberCapacity ms.length c with
  | error f => rw [hcap] at h; cases h
  | ok c' =>
    cases hk : k.terminated with
    | false => rw [hcap, hk] at h; cases h
    | true =>
      rw [hcap, hk] at h
      cases h
      exact ⟨rfl, vacant_member h₀ (l := l) ms k.bytes c'⟩

end

/-- Wherever a value is expected, the last pointer of the document leads to a vacant position. -/
theorem vacant_of_awaitsValue {before : List Event} (hbefore : AwaitsValue before) {convert : Bool}
    {d : Document} (h : deliver before (started convert) = .ok d) :
    d.convertExtensions = convert ∧ Vacant d := by
  induction hbefore generalizing d with
  | root =>
    cases h
    exact ⟨rfl, [], [], rfl, rfl⟩
  | @firstElement before _ count ih =>
    rw [deliver_append] at h
    cases hbefore : deliver before (started convert) with
    | error f => rw [hbefore] at h; cases h
    | ok d₁ =>
      obtain ⟨hconvert, p, l, hs, hv⟩ := ih hbefore
      rw [hbefore, Except.bind, deliver_singleton, eq_within hs hv,
        show handle (Event.startArray count) = startArray from rfl, outcome_startArray hv] at h
      cases h
      exact ⟨hconvert, vacant_element hv [] _⟩
  | @nextElement before _ count t ts ih =>
    rw [deliver_append] at h
    cases hbefore : deliver before (started convert) with
    | error f => rw [hbefore] at h; cases h
    | ok d₁ =>
      obtain ⟨hconvert, p, l, hs, hv⟩ := ih hbefore
      rw [hbefore, Except.bind, deliver_cons, eq_within hs hv,
        show handle (Event.startArray count) = startArray from rfl, outcome_startArray hv,
        Except.bind, deliver_append, deliver_elementEvents hv fun t' _ => fills t'] at h
      cases hr : EventTree.buildArray d₁.convertExtensions t ts with
      | error f => rw [hr] at h; cases h
      | ok r =>
        rw [hr] at h
        obtain ⟨hne, hall⟩ := EventTree.buildArray_valid hr
        obtain ⟨hc, hvacant⟩ := vacant_arraySeparator hv hne hall r.2 h
        exact ⟨hc.trans hconvert, hvacant⟩
  | @firstMember before _ count k ih =>
    rw [deliver_append] at h
    cases hbefore : deliver before (started convert) with
    | error f => rw [hbefore] at h; cases h
    | ok d₁ =>
      obtain ⟨hconvert, p, l, hs, hv⟩ := ih hbefore
      rw [hbefore, Except.bind, deliver_cons, eq_within hs hv,
        show handle (Event.startMap count) = startMap from rfl, outcome_startMap hv] at h
      obtain ⟨hc, hvacant⟩ := vacant_key hv [] 0 k h
      exact ⟨hc.trans hconvert, hvacant⟩
  | @nextMember before _ count m ms k ih =>
    rw [deliver_append] at h
    cases hbefore : deliver before (started convert) with
    | error f => rw [hbefore] at h; cases h
    | ok d₁ =>
      obtain ⟨hconvert, p, l, hs, hv⟩ := ih hbefore
      rw [hbefore, Except.bind, deliver_cons, eq_within hs hv,
        show handle (Event.startMap count) = startMap from rfl, outcome_startMap hv,
        Except.bind, deliver_append, deliver_memberEvents hv fun m' _ => fills m'.2] at h
      cases hr : EventTree.buildMembers d₁.convertExtensions (m :: ms) [] 0 with
      | error f => rw [hr] at h; cases h
      | ok r =>
        rw [hr, Except.map, Except.bind, deliver_cons,
          show handle Event.mapSeparator = mapSeparator from rfl, outcome_mapSeparator hv] at h
        obtain ⟨hc, hvacant⟩ := vacant_key hv r.1 r.2 k h
        exact ⟨hc.trans hconvert, hvacant⟩

/-! ## What passes for an extension -/

/-- The array is an extension: a full name and a string. -/
def IsExtension (es : List Value) : Prop :=
  ∃ name data, es = [.string name, .string data] ∧ (name = dateTimeString ∨ name = base64String)

/-- The first two elements are strings of which the first one is a prefix of a name, or the name
followed by a null byte. -/
def ResemblesExtension (es : List Value) : Prop :=
  ∃ str data rest, es = .string str :: .string data :: rest ∧
    ((str <+: dateTimeString ∨ dateTimeString ++ [0] <+: str) ∨
      (str <+: base64String ∨ base64String ++ [0] <+: str))

omit [Platform] in
/-- What `strncmp` compares equal with a name, within the length of the string. -/
theorem strncmpEq_iff {str name : Bytes} (hname : (0 : UInt8) ∉ name) :
    strncmpEq str name = true ↔ str <+: name ∨ name ++ [0] <+: str := by
  induction str generalizing name with
  | nil => simp [strncmpEq]
  | cons c str ih =>
    cases name with
    | nil => simp [strncmpEq, eq_comm]
    | cons d name =>
      have hd : d ≠ 0 := fun h => hname (h ▸ List.mem_cons_self)
      have hname' : (0 : UInt8) ∉ name := fun h => hname (List.mem_cons_of_mem _ h)
      rw [strncmpEq, List.cons_append, List.cons_prefix_cons, List.cons_prefix_cons]
      by_cases hcd : c = d
      · subst hcd
        simp [hd, ih hname']
      · simp [hcd, Ne.symm hcd]

omit [Platform] in
/-- The arrays that are taken for an extension. -/
theorem extension?_ne_none_iff (es : List Value) :
    EventTree.extension? es ≠ none ↔ ResemblesExtension es := by
  have hdate : (0 : UInt8) ∉ dateTimeString := by decide
  have hbase : (0 : UInt8) ∉ base64String := by decide
  constructor
  · intro h
    match es, h with
    | .string str :: .string data :: rest, h =>
      refine ⟨str, data, rest, rfl, ?_⟩
      rw [← strncmpEq_iff hdate, ← strncmpEq_iff hbase]
      rw [EventTree.extension?] at h
      split_ifs at h with h₁ h₂
      · exact .inl h₁
      · exact .inr h₂
      · exact absurd rfl h
  · rintro ⟨str, data, rest, rfl, h⟩
    rw [← strncmpEq_iff hdate, ← strncmpEq_iff hbase] at h
    rw [EventTree.extension?]
    split_ifs with h₁ h₂
    · simp
    · simp
    · exact absurd h (by simp [h₁, h₂])

/-- The end of an array leaves the array exactly where nothing resembles an extension. -/
theorem finish_eq_array_iff (es : List Value) (c : ℕ) :
    EventTree.finish true es c = .ok (.array es c) ↔ ¬ ResemblesExtension es := by
  rw [← extension?_ne_none_iff, not_not]
  constructor
  · intro h
    by_contra hne
    obtain ⟨x, hx⟩ := Option.ne_none_iff_exists'.mp hne
    rw [EventTree.finish_of_some c hx] at h
    rcases EventTree.Extension.convert_eq_ok h with ⟨dt, hdt⟩ | ⟨s, hs⟩
    · cases hdt
    · cases hs
  · intro h
    exact EventTree.finish_of_none c fun _ => h

/-! ## The end of an array, in every run -/

/-- The call that ends an array leaves its elements, at the position where the array was started,
and returns to it. -/
def EndsAsArray (d d' : Document) (count : ℕ) (es : List Value) : Prop :=
  ∃ p l c, d.stack = p :: l ∧ (es ≠ [] → Nested.get? p d'.value = some (.array es c)) ∧
    deliver [.endArray count] d' = .ok (d.within p (.array es c) (p :: l))

/-- The array is taken for an extension although it is none. -/
def Mistaken (es : List Value) : Prop := ResemblesExtension es ∧ ¬ IsExtension es

/-- An array without elements ends as it is. -/
theorem endsAsArray_nil {d : Document} {p : Path} {l : List Path} (hs : d.stack = p :: l)
    (hv : Nested.get? p d.value = some .invalid) :
    EndsAsArray d
      (d.within p (.array [.invalid] Value.defaultArrayCapacity) ((p ++ [0]) :: p :: l)) 0 [] :=
  ⟨p, l, Value.defaultArrayCapacity, hs, fun h => absurd rfl h, by
    rw [deliver_singleton]
    exact outcome_endArray_zero hv _⟩

/-- An array with elements ends as it is exactly where nothing resembles an extension. -/
theorem endsAsArray_cons_iff {d : Document} {p : Path} {l : List Path} (hs : d.stack = p :: l)
    (hv : Nested.get? p d.value = some .invalid) (hconvert : d.convertExtensions = true)
    {t : EventTree} {ts : List EventTree} {es : List Value} {c : ℕ}
    (h : EventTree.buildArray true t ts = .ok (es, c)) :
    EndsAsArray d (d.within p (.array es c) ((p ++ [es.length - 1]) :: p :: l)) (t :: ts).length
      es ↔ ¬ ResemblesExtension es := by
  have hend : deliver [.endArray (t :: ts).length]
      (d.within p (.array es c) ((p ++ [es.length - 1]) :: p :: l)) =
      (EventTree.finish true es c).map fun w => d.within p w (p :: l) := by
    rw [← hconvert]
    exact deliver_endArray hv (by rw [hconvert]; exact h)
  constructor
  · rintro ⟨p', l', c', hs', -, hok⟩
    obtain ⟨rfl, rfl⟩ := List.cons.inj (hs.symm.trans hs')
    rw [hend] at hok
    cases hfinish : EventTree.finish true es c with
    | error f => rw [hfinish] at hok; cases hok
    | ok w =>
      rw [hfinish] at hok
      have hget := congrArg (fun d : Document => Nested.get? p d.value) (Except.ok.inj hok)
      simp only [within, Nested.get?_put hv, Option.some.injEq] at hget
      rcases EventTree.finish_eq_ok hfinish with rfl | ⟨dt, rfl⟩ | ⟨s, rfl⟩
      · exact (finish_eq_array_iff es c).mp hfinish
      · cases hget
      · cases hget
  · intro hes
    refine ⟨p, l, c, hs, fun _ => Nested.get?_put hv _, ?_⟩
    rw [hend, (finish_eq_array_iff es c).mpr hes]
    rfl

/-- Wherever an array is built in a well-formed sequence of calls, with the conversion on, it is an
extension or ends as the array of its elements, except where it is mistaken for an extension. -/
theorem isExtension_or_endsAsArray_iff {before : List Event} (hbefore : AwaitsValue before)
    {d d' : Document} (hd : deliver before (started true) = .ok d) {count : Option ℕ}
    {ts : List EventTree}
    (hd' : deliver (.startArray count :: EventTree.elementEvents ts) d = .ok d') :
    ∃ es, List.Forall₂ (fun t v => t.build true = .ok v) ts es ∧
      (IsExtension es ∨ EndsAsArray d d' ts.length es ↔ ¬ Mistaken es) := by
  obtain ⟨hconvert, p, l, hs, hv⟩ := vacant_of_awaitsValue hbefore hd
  rw [deliver_cons, eq_within hs hv, show handle (Event.startArray count) = startArray from rfl,
    outcome_startArray hv] at hd'
  cases ts with
  | nil =>
    cases hd'
    refine ⟨[], .nil, ?_⟩
    have hnot : ¬ Mistaken [] := by
      rintro ⟨⟨_, _, _, h, -⟩, -⟩
      cases h
    exact iff_of_true (.inr (endsAsArray_nil hs hv)) hnot
  | cons t ts =>
    rw [Except.bind, deliver_elementEvents hv fun t' _ => fills t', hconvert] at hd'
    cases hr : EventTree.buildArray true t ts with
    | error f => rw [hr] at hd'; cases hd'
    | ok r =>
      rw [hr] at hd'
      cases hd'
      refine ⟨r.1, EventTree.buildArray_eq_ok hr, ?_⟩
      rw [endsAsArray_cons_iff hs hv hconvert hr, Mistaken, not_and, not_not]
      tauto

/-- The parts of an array of a shortened name of an extension and another string. -/
def shortenedName : List EventTree :=
  [.leaf (.string { bytes := ascii "AnyRpcBase" }), .leaf (.string { bytes := ascii "x" })]

/-- What they are read as. -/
def shortenedElements : List Value := [.string (ascii "AnyRpcBase"), .string (ascii "x")]

omit [Platform] in
/-- They resemble an extension and are none. -/
theorem mistaken_shortenedElements : Mistaken shortenedElements := by
  refine ⟨⟨_, _, _, rfl, .inr (.inl ⟨ascii "64", rfl⟩)⟩, ?_⟩
  rintro ⟨name, data, h, hname⟩
  obtain ⟨rfl, -⟩ : ascii "AnyRpcBase" = name ∧ _ := by simpa [shortenedElements] using h
  exact absurd hname (by decide)

omit [Platform] in
/-- Inside of another array, the array of a shortened name and another string is neither an extension
nor ends as it is. -/
theorem isExtension_or_endsAsArray_shortened : letI := Platform.blank
    ¬ (IsExtension shortenedElements ∨ EndsAsArray
      ((started true).within [] (.array [.invalid] 16) [[0], []])
      ((started true).within [] (.array [.array shortenedElements 16] 16) [[0, 1], [0], []]) 2
        shortenedElements) := by
  let _ := Platform.blank
  have hd : deliver [.startArray none] (started true) =
      .ok ((started true).within [] (.array [.invalid] 16) [[0], []]) := rfl
  have hd' : deliver (.startArray none :: EventTree.elementEvents shortenedName)
      ((started true).within [] (.array [.invalid] 16) [[0], []]) =
      .ok ((started true).within [] (.array [.array shortenedElements 16] 16) [[0, 1], [0], []]) := rfl
  obtain ⟨es, hbuild, hiff⟩ := isExtension_or_endsAsArray_iff (.firstElement .root none) hd hd'
  have hes : es = shortenedElements := by
    rcases hbuild with _ | ⟨hname, _ | ⟨hdata, _ | _⟩⟩
    cases hname
    cases hdata
    rfl
  subst hes
  exact fun h => hiff.mp h mistaken_shortenedElements

omit [Platform] in
/-- The array of an empty string and another string is no extension, and its end is refused. -/
theorem endArray_empty_string : letI := Platform.blank
    ¬ IsExtension [.string [], .string [0x78]] ∧
      deliver (.startArray none :: (EventTree.elementEvents
        [.leaf (.string { bytes := [] }), .leaf (.string { bytes := [0x78] })] ++ [.endArray 2]))
        (started true) =
          .error (.exception { code := ErrorCode.termination,
                               message := ascii "Parsing was terminated" }) := by
  refine ⟨?_, rfl⟩
  rintro ⟨name, data, h, hname⟩
  obtain ⟨rfl, -⟩ : [] = name ∧ _ := by simpa using h
  rcases hname with hname | hname <;> cases hname

end Document

end AnyRpc
