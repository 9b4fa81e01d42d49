import AnyRpc.Document.Limits
import AnyRpc.Json.Deliver
import AnyRpc.Reader.Faults

/-! # A writer fed by the JSON reader

The calls for a JSON text, made on a writer directly and by way of a document. What is assumed of the
writer is what one call does (`Nests`, `Ignores`): then the calls for a text return exactly when each
of its parts is taken, and they write what the traversal of the document writes. -/

namespace AnyRpc

open Library Handler Json NumberText

/-- The calls of the reader that deliver a number. -/
def Scalar.IsNumber : Scalar → Prop
  | .int _ | .uint _ | .int64 _ | .uint64 _ | .double _ => True
  | _ => False

/-- The calls of the reader that deliver a scalar. -/
def Scalar.IsJson : Scalar → Prop
  | .null | .boolTrue | .boolFalse | .string _ => True
  | sc => sc.IsNumber

theorem Scalar.IsNumber.isJson {sc : Scalar} (h : sc.IsNumber) : sc.IsJson := by
  cases sc <;> first | exact h | exact h.elim

section

variable (S : Bytes → Prop) (D : BitVec 64 → Prop)

/-- A scalar that a writer takes, given the strings and the doubles that it takes. -/
def Scalar.Taken : Scalar → Prop
  | .string str => S str.bytes
  | .double d => D d
  | _ => True

variable {σ : Type} [Handler σ]

/-- What the calls of the reader do to a writer that takes the strings with `S` and the doubles with
`D`. A value is written to a writer with `value n`, where `n` is the depth, and a key to one with
`inside n`. The start of an array is refused, because the reader does not announce its size. -/
structure Nests (value inside : ℕ → σ → Prop) : Prop where
  scalar : ∀ n (sc : Scalar), sc.IsJson →
    LeadsIff (value n) (sc.Taken S D) (value n) (handle (.scalar sc))
  startArray : ∀ n, LeadsIff (value n) False (value n) (handle (.startArray none))
  startMap : ∀ n, LeadsIff (value n) True (inside n) (handle (.startMap none))
  key : ∀ n (str : StrArg), LeadsIff (inside n) (S str.bytes) (value (n + 1)) (handle (.key str))
  mapSeparator : ∀ n, LeadsIff (value (n + 1)) True (inside n) (handle .mapSeparator)
  endEmpty : ∀ n, LeadsIff (inside n) True (value n) (handle (.endMap 0))
  endMap : ∀ n k, LeadsIff (value (n + 1)) True (value n) (handle (.endMap (k + 1)))

end

/-- What the calls of the reader and those of a traversal have in common for a writer: it looks
neither at the size of a map nor at where a string is kept, and it writes an integer alike for both
of their calls. -/
structure Ignores (σ : Type) [Handler σ] : Prop where
  startMap : ∀ c, (handle (.startMap c) : Exec σ Unit) = handle (.startMap none)
  key : ∀ str : StrArg, (handle (.key str) : Exec σ Unit) = handle (.key { bytes := str.bytes })
  string : ∀ str : StrArg, (handle (.scalar (.string str)) : Exec σ Unit) =
    handle (.scalar (.string { bytes := str.bytes }))
  integer : ∀ minus ds, Number.InRange (literalValue minus ds) →
    (handle (.scalar (literalScalar minus (literalValue minus ds))) : Exec σ Unit) =
      handle (.scalar (Value.numberScalar (.ofInteger (literalValue minus ds))))

variable [Platform]

/-! ## Integers -/

theorem isNumber_of_numberEvent {n : ParseNumber} {sc : Scalar} (h : JsonReader.numberEvent n = .ok sc) :
    sc.IsNumber := by
  unfold JsonReader.numberEvent at h
  by_cases huse : n.useDouble = true
  · rw [if_pos huse] at h
    cases hd : n.double with
    | error f =>
      rw [hd] at h
      cases h
    | ok d =>
      rw [hd] at h
      cases h
      trivial
  · rw [if_neg huse] at h
    split_ifs at h
    all_goals
      cases h
      trivial

theorem isNumber_of_integerEvent {minus : Bool} {ds : Bytes} {sc : Scalar}
    (h : integerEvent minus ds = .ok sc) : sc.IsNumber := by
  rw [integerEvent] at h
  cases hrun : ParseNumber.parse (literal minus ds) with
  | error f r =>
    rw [hrun] at h
    cases h
  | ok n r =>
    rw [hrun] at h
    exact isNumber_of_numberEvent h

/-- The call for an integer is that of its value, or delivers a double. -/
theorem integerEvent_cases {minus : Bool} {ds : Bytes} {sc : Scalar} (hds : IntDigits ds)
    (h : integerEvent minus ds = .ok sc) :
    (Number.InRange (literalValue minus ds) ∧
        sc = literalScalar minus (literalValue minus ds)) ∨ ∃ d, sc = .double d := by
  have hends : EndsNumber [] := by
    rintro _ ⟨⟩
  have hparse := ParseNumber.wp_parse_literal minus hds hends
  rw [List.append_nil] at hparse
  rw [integerEvent] at h
  cases hrun : ParseNumber.parse (literal minus ds) with
  | error f r =>
    rw [hrun] at h
    cases h
  | ok n r =>
    rw [hrun] at h
    have h : JsonReader.numberEvent n = .ok sc := h
    obtain ⟨-, -, hn⟩ := hparse.of_ok hrun
    by_cases hrange : Number.InRange (literalValue minus ds)
    · rw [JsonReader.numberEvent_of_inRange hn hrange] at h
      exact .inl ⟨hrange, (Except.ok.inj h).symm⟩
    · obtain ⟨d, hd⟩ := JsonReader.numberEvent_of_not_inRange hn hrange
      rw [hd] at h
      exact .inr ⟨d, (Except.ok.inj h).symm⟩

namespace Json

/-- An integer with the digits of one. -/
def Tree.HasDigits : Tree → Prop
  | .integer _ ds => IntDigits ds
  | _ => True

omit [Platform] in
/-- The integers of a text have digits. -/
theorem Denotes.hasDigits {sym : Symbol} {p : Bytes} {m : sym.Meaning} (h : Denotes sym p m) :
    match sym, m with
    | .value, j => j.All Tree.HasDigits
    | .elements, js => ∀ j ∈ js, j.All Tree.HasDigits
    | .members, ms => ∀ m ∈ ms, m.2.All Tree.HasDigits := by
  induction h with
  | null | true | false | string _ => trivial
  | integer hds => exact hds
  | emptyArray _ => exact Tree.all_array.mpr ⟨trivial, nofun⟩
  | array _ _ ih => exact Tree.all_array.mpr ⟨trivial, ih⟩
  | emptyObject _ => exact Tree.all_object.mpr ⟨trivial, nofun⟩
  | object _ _ ih => exact Tree.all_object.mpr ⟨trivial, ih⟩
  | lastElement _ _ ih => exact List.forall_mem_singleton.mpr ih
  | element _ _ _ _ ih ih' => exact List.forall_mem_cons.mpr ⟨ih, ih'⟩
  | lastMember _ _ _ _ _ ih => exact List.forall_mem_singleton.mpr ih
  | member _ _ _ _ _ _ _ ih ih' => exact List.forall_mem_cons.mpr ⟨ih, ih'⟩

end Json

/-! ## The calls of a text on a writer -/

section

variable {S : Bytes → Prop} {D : BitVec 64 → Prop}

/-- A part of a text that a writer takes: no array, and the strings, keys and doubles that it
writes. -/
def Json.Tree.Taken (S : Bytes → Prop) (D : BitVec 64 → Prop) : Tree → Prop
  | .integer minus ds => ∀ d, integerEvent minus ds = .ok (.double d) → D d
  | .string bytes => S bytes
  | .array _ => False
  | .object ms => ∀ m ∈ ms, S m.1
  | _ => True

variable {σ : Type} [Handler σ] {value inside : ℕ → σ → Prop} (hw : Nests S D value inside)

include hw

omit [Platform] in
/-- A call for a scalar of the reader. -/
theorem Nests.leads_leaf (sc : Scalar) (hsc : sc.IsJson) (n : ℕ) :
    LeadsIff (value n) (sc.Taken S D) (value n) (run (EventTree.leaf sc).events) := by
  rw [EventTree.events, run_singleton]
  exact hw.scalar n sc hsc

/-- The calls for the members behind the first one. -/
theorem Nests.leads_moreMemberEvents {copy : Bool} {ms : List (Bytes × Tree)}
    (hms : ∀ m ∈ ms, ∀ t, m.2.calls copy = .ok t → ∀ n,
      LeadsIff (value n) (m.2.All (Tree.Taken S D)) (value n) (run t.events))
    {ts : List (Option StrArg × EventTree)} (hts : Tree.membersCalls copy ms = .ok ts) (n : ℕ) :
    LeadsIff (value (n + 1)) (∀ m ∈ ms, S m.1 ∧ m.2.All (Tree.Taken S D)) (value (n + 1))
      (run (EventTree.moreMemberEvents ts)) := by
  induction ms generalizing ts with
  | nil =>
    cases hts
    exact leadsIff_pure.congr (by simp)
  | cons m ms ih =>
    obtain ⟨key, j⟩ := m
    obtain ⟨t, ts, hj, hmore, rfl⟩ := Tree.membersCalls_cons hts
    have hvalue := hms (key, j) List.mem_cons_self t hj (n + 1)
    have hrest := ih (fun m hm => hms m (List.mem_cons_of_mem _ hm)) hmore
    rw [EventTree.moreMemberEvents, run_cons, EventTree.keyEvents, List.singleton_append, run_cons,
      run_append]
    refine ((hw.mapSeparator n).seq ((hw.key n _).seq (hvalue.seq hrest))).congr ?_
    rw [List.forall_mem_cons, true_and, and_assoc]

/-- The calls for a text return exactly if each part of it is taken. -/
theorem Nests.leads_events {copy : Bool} {j : Tree} {t : EventTree} (ht : j.calls copy = .ok t)
    (n : ℕ) : LeadsIff (value n) (j.All (Tree.Taken S D)) (value n) (run t.events) := by
  induction j using Tree.induction generalizing t n with
  | null =>
    cases ht
    exact hw.leads_leaf .null trivial n
  | bool b =>
    cases ht
    cases b with
    | true => exact hw.leads_leaf .boolTrue trivial n
    | false => exact hw.leads_leaf .boolFalse trivial n
  | integer minus ds =>
    rw [Tree.calls] at ht
    cases hsc : integerEvent minus ds with
    | error f =>
      rw [hsc] at ht
      cases ht
    | ok sc =>
      rw [hsc] at ht
      cases ht
      have hnumber := isNumber_of_integerEvent hsc
      refine (hw.leads_leaf _ hnumber.isJson n).congr ?_
      show sc.Taken S D ↔ ∀ d, integerEvent minus ds = .ok (.double d) → D d
      rw [hsc]
      cases sc with
      | string _ => exact hnumber.elim
      | double d => exact ⟨fun h d' hd' => by cases hd'; exact h, fun h => h d rfl⟩
      | _ =>
        refine iff_of_true trivial fun d hd => ?_
        cases hd
  | string bytes =>
    cases ht
    exact hw.leads_leaf (.string _) trivial n
  | array js _ =>
    obtain ⟨ts, -, rfl⟩ := Tree.calls_array ht
    rw [EventTree.events, run_cons]
    exact (hw.startArray n).stop.congr (iff_of_false id fun h => (Tree.all_array.mp h).1)
  | object ms ih =>
    obtain ⟨ts, hts, rfl⟩ := Tree.calls_object ht
    rw [EventTree.events, run_cons]
    cases ms with
    | nil =>
      cases hts
      rw [EventTree.memberEvents, List.nil_append, List.length_nil, run_singleton]
      refine ((hw.startMap n).seq (hw.endEmpty n)).congr ?_
      rw [Tree.all_object]
      simp [Tree.Taken]
    | cons m ms =>
      obtain ⟨key, j⟩ := m
      obtain ⟨t, ts, hj, hmore, rfl⟩ := Tree.membersCalls_cons hts
      have hvalue := ih (key, j) List.mem_cons_self hj (n + 1)
      have hrest := hw.leads_moreMemberEvents
        (fun m hm t ht n => ih m (List.mem_cons_of_mem _ hm) ht n) hmore n
      rw [EventTree.memberEvents, EventTree.keyEvents, List.singleton_append, List.cons_append,
        run_cons, List.append_assoc, run_append, run_append, run_singleton]
      refine ((hw.startMap n).seq ((hw.key n _).seq (hvalue.seq (hrest.seq
        (hw.endMap n ts.length))))).congr ?_
      simp only [Tree.all_object, Tree.Taken, List.forall_mem_cons, forall_and]
      tauto

end

/-! ## By way of a document -/

/-- A part of a text that a document stores: an object within the size that a map grows to. -/
def Json.Tree.Stored : Tree → Prop
  | .object ms => ms.length ≤ Value.maxMapCapacity
  | _ => True

section

variable {σ : Type} [Handler σ] (hσ : Ignores σ)

include hσ

/-- An integer is written alike for the call of the reader and for that of a traversal. -/
theorem Ignores.handle_integer {minus : Bool} {ds : Bytes} (hds : IntDigits ds) {sc : Scalar}
    (hsc : integerEvent minus ds = .ok sc) {v : Value} (hv : sc.build = .ok v) :
    v.tree = .leaf v.leafScalar ∧
      (handle (.scalar sc) : Exec σ Unit) = handle (.scalar v.leafScalar) := by
  rcases integerEvent_cases hds hsc with ⟨hrange, rfl⟩ | ⟨d, rfl⟩
  · rw [Scalar.build_of_integer (integer?_literalScalar hrange)] at hv
    cases hv
    exact ⟨rfl, hσ.integer minus ds hrange⟩
  · cases hv
    obtain ⟨hint, huint, hint64, huint64, hdouble⟩ := Number.flags_ofDouble d
    refine ⟨rfl, ?_⟩
    show (handle (.scalar (.double d)) : Exec σ Unit) =
      handle (.scalar (Value.numberScalar (.ofDouble d)))
    rw [Value.numberScalar, hint, huint, hint64, huint64, hdouble]
    rfl

/-- The calls for the members write what the calls for the members of the built map write. -/
theorem Ignores.run_moreMemberEvents {copy : Bool} {ms : List (Bytes × Tree)}
    (hms : ∀ m ∈ ms, ∀ t v, m.2.calls copy = .ok t → t.build false = .ok v →
      (run t.events : Exec σ Unit) = run v.tree.events)
    {ts : List (Option StrArg × EventTree)} (hts : Tree.membersCalls copy ms = .ok ts)
    {vs : List (Bytes × Value)}
    (hvs : List.Forall₂ (fun m v => m.1.map StrArg.bytes = some v.1 ∧
      EventTree.build false m.2 = .ok v.2) ts vs) :
    (run (EventTree.moreMemberEvents ts) : Exec σ Unit) =
      run (EventTree.moreMemberEvents (vs.map fun m => (some { bytes := m.1 }, m.2.tree))) := by
  induction ms generalizing ts vs with
  | nil =>
    cases hts
    cases hvs
    rfl
  | cons m ms ih =>
    obtain ⟨key, j⟩ := m
    obtain ⟨t, ts, hj, hmore, rfl⟩ := Tree.membersCalls_cons hts
    cases hvs with
    | @cons _ v _ vs hv hvs =>
      obtain ⟨k, v⟩ := v
      obtain ⟨hkey, hbuild⟩ := hv
      cases hkey
      have hvalue := hms (key, j) List.mem_cons_self t v hj hbuild
      have hrest := ih (fun m hm => hms m (List.mem_cons_of_mem _ hm)) hmore hvs
      simp only [List.map_cons, EventTree.moreMemberEvents, EventTree.keyEvents, run_cons,
        run_append, hvalue, hrest, hσ.key { bytes := key, copy }, List.cons_append,
        List.nil_append]

/-- Without arrays, the calls for a text write what the traversal of the document writes that is
built from them. -/
theorem Ignores.run_events {S : Bytes → Prop} {D : BitVec 64 → Prop} {copy : Bool} {j : Tree}
    (hdigits : j.All Tree.HasDigits) (htaken : j.All (Tree.Taken S D)) {t : EventTree} {v : Value}
    (ht : j.calls copy = .ok t) (hv : t.build false = .ok v) :
    (run t.events : Exec σ Unit) = run v.tree.events := by
  induction j using Tree.induction generalizing t v with
  | null =>
    cases ht
    cases hv
    rfl
  | bool b =>
    cases ht
    cases b <;> cases hv <;> rfl
  | integer minus ds =>
    rw [Tree.calls] at ht
    cases hsc : integerEvent minus ds with
    | error f =>
      rw [hsc] at ht
      cases ht
    | ok sc =>
      rw [hsc] at ht
      cases ht
      obtain ⟨htree, hhandle⟩ := hσ.handle_integer hdigits hsc hv
      rw [htree, EventTree.events, EventTree.events, run_singleton, run_singleton, hhandle]
  | string bytes =>
    cases ht
    rw [EventTree.build, Scalar.build] at hv
    split_ifs at hv
    cases hv
    show (run [Event.scalar _] : Exec σ Unit) = run [Event.scalar _]
    rw [run_singleton, run_singleton, hσ.string]
    rfl
  | array js _ => exact (Tree.all_array.mp htaken).1.elim
  | object ms ih =>
    obtain ⟨ts, hts, rfl⟩ := Tree.calls_object ht
    obtain ⟨-, hdigits⟩ := Tree.all_object.mp hdigits
    obtain ⟨-, htaken⟩ := Tree.all_object.mp htaken
    have hms : ∀ m ∈ ms, ∀ t v, m.2.calls copy = .ok t → t.build false = .ok v →
        (run t.events : Exec σ Unit) = run v.tree.events := fun m hm t v ht hv =>
      ih m hm (hdigits m hm) (htaken m hm) ht hv
    rw [EventTree.build] at hv
    cases hbuild : EventTree.buildMembers false ts [] 0 with
    | error f =>
      rw [hbuild] at hv
      cases hv
    | ok r =>
      obtain ⟨vs, c⟩ := r
      rw [hbuild] at hv
      cases hv
      obtain ⟨vs, rfl, hvs⟩ := EventTree.buildMembers_eq_ok hbuild
      have hmembers : (run (EventTree.memberEvents ts) : Exec σ Unit) =
          run (EventTree.memberEvents (vs.map fun m => (some { bytes := m.1 }, m.2.tree))) := by
        cases ms with
        | nil =>
          cases hts
          cases hvs
          rfl
        | cons m ms =>
          obtain ⟨key, j⟩ := m
          obtain ⟨t, ts, hj, hmore, rfl⟩ := Tree.membersCalls_cons hts
          cases hvs with
          | @cons _ v _ vs hv hvs =>
            obtain ⟨k, v⟩ := v
            obtain ⟨hkey, hbuild⟩ := hv
            cases hkey
            have hvalue := hms (key, j) List.mem_cons_self t v hj hbuild
            have hrest := hσ.run_moreMemberEvents
              (fun m hm => hms m (List.mem_cons_of_mem _ hm)) hmore hvs
            simp only [List.map_cons, EventTree.memberEvents, EventTree.keyEvents, run_cons,
              run_append, hvalue, hrest, hσ.key { bytes := key, copy }, List.cons_append,
              List.nil_append]
      show run (EventTree.map none ts).events = run (Value.map vs c).tree.events
      rw [Value.tree_map, EventTree.events, EventTree.events, run_cons, run_cons,
        run_append, run_append, hmembers, hσ.startMap (some _), List.length_map, hvs.length_eq]

end

/-! ## What a document stores -/

namespace EventTree

omit [Platform] in
/-- The members so far and the new ones are within the limit where they are built. -/
theorem le_of_buildMembers [Platform] {convert : Bool} {ms : List (Option StrArg × EventTree)}
    {done vs : List (Bytes × Value)} {c c' : ℕ} (hdone : done.length ≤ Value.maxMapCapacity)
    (hc : c ≤ Value.maxMapCapacity) (hle : done.length ≤ c)
    (h : buildMembers convert ms done c = .ok (vs, c')) :
    done.length + ms.length ≤ Value.maxMapCapacity := by
  induction ms generalizing done c with
  | nil => exact hdone
  | cons m ms ih =>
    obtain ⟨k, t⟩ := m
    cases k with
    | none => cases h
    | some k =>
      rw [buildMembers] at h
      by_cases hlt : done.length < Value.maxMapCapacity
      · obtain ⟨c₁, hc₁, hle₁, hcap⟩ := memberCapacity_of_lt hc hle hlt
        rw [hcap] at h
        cases hk : k.terminated with
        | false =>
          rw [hk] at h
          cases h
        | true =>
          cases hv : t.build convert with
          | error f =>
            rw [hk, hv] at h
            cases h
          | ok v =>
            rw [hk, hv] at h
            have hlen : (done ++ [(k.bytes, v)]).length = done.length + 1 := by simp
            have hmore := ih (by omega : (done ++ [(k.bytes, v)]).length ≤ Value.maxMapCapacity) hc₁
              (by omega) h
            simp only [List.length_append, List.length_singleton] at hmore
            rw [List.length_cons]
            omega
      · obtain ⟨f, hf⟩ := memberCapacity_of_ge hc (not_lt.mp hlt)
        rw [hf] at h
        cases h

/-- Members that are built one by one are members of a map. -/
theorem exists_buildsMember {convert : Bool} (ms : List (Option StrArg × EventTree))
    (h : ∀ m ∈ ms, (∃ k, m.1 = some k ∧ k.terminated = true) ∧ ∃ v, m.2.build convert = .ok v) :
    ∃ vs, List.Forall₂ (BuildsMember convert) ms vs := by
  induction ms with
  | nil => exact ⟨[], .nil⟩
  | cons m ms ih =>
    obtain ⟨vs, hvs⟩ := ih fun m hm => h m (List.mem_cons_of_mem _ hm)
    obtain ⟨⟨k, hkey, hk⟩, v, hv⟩ := h m List.mem_cons_self
    exact ⟨(k.bytes, v) :: vs, .cons ⟨k, hkey, hk, rfl, v, hv, rfl⟩ hvs⟩

end EventTree

/-- Without arrays, what a text says is built exactly if each part of it is stored. -/
theorem exists_build_iff {S : Bytes → Prop} {D : BitVec 64 → Prop} {copy : Bool} {j : Tree}
    (htaken : j.All (Tree.Taken S D)) {t : EventTree} (ht : j.calls copy = .ok t) :
    (∃ v, t.build false = .ok v) ↔ j.All Tree.Stored := by
  induction j using Tree.induction generalizing t with
  | null =>
    cases ht
    exact iff_of_true ⟨_, rfl⟩ trivial
  | bool b =>
    cases ht
    cases b <;> exact iff_of_true ⟨_, rfl⟩ trivial
  | integer minus ds =>
    rw [Tree.calls] at ht
    cases hsc : integerEvent minus ds with
    | error f =>
      rw [hsc] at ht
      cases ht
    | ok sc =>
      rw [hsc] at ht
      cases ht
      have hnumber := isNumber_of_integerEvent hsc
      refine iff_of_true ⟨sc.value, ?_⟩ trivial
      cases sc <;> first | rfl | exact hnumber.elim
  | string bytes =>
    cases ht
    refine iff_of_true ⟨.string bytes, ?_⟩ trivial
    rw [EventTree.build, Scalar.build, if_pos (by simp [StrArg.terminated])]
  | array js _ => exact (Tree.all_array.mp htaken).1.elim
  | object ms ih =>
    obtain ⟨ts, hts, rfl⟩ := Tree.calls_object ht
    obtain ⟨-, htaken⟩ := Tree.all_object.mp htaken
    rw [Tree.all_object]
    constructor
    · rintro ⟨v, hv⟩
      rw [EventTree.build] at hv
      cases hbuild : EventTree.buildMembers false ts [] 0 with
      | error f =>
        rw [hbuild] at hv
        cases hv
      | ok r =>
        obtain ⟨vs, c⟩ := r
        have hle := EventTree.le_of_buildMembers (Nat.zero_le _) (Nat.zero_le _) le_rfl hbuild
        obtain ⟨vs, rfl, hvs⟩ := EventTree.buildMembers_eq_ok hbuild
        refine ⟨?_, ?_⟩
        · rw [List.length_nil, Nat.zero_add, Tree.length_membersCalls hts] at hle
          exact hle
        · intro m hm
          obtain ⟨t, htmem, -, ht⟩ :=
            EventTree.exists_of_forall₂ (Tree.forall₂_membersCalls hts).flip hm
          obtain ⟨v, -, -, hv⟩ := EventTree.exists_of_forall₂ hvs.flip htmem
          exact (ih m hm (htaken m hm) ht).mp ⟨v.2, hv⟩
    · rintro ⟨hlen, hms⟩
      have hbuilt : ∀ t ∈ ts, (∃ k, t.1 = some k ∧ k.terminated = true) ∧
          ∃ v, t.2.build false = .ok v := by
        intro t htmem
        obtain ⟨m, hm, hkey, ht⟩ :=
          EventTree.exists_of_forall₂ (Tree.forall₂_membersCalls hts) htmem
        exact ⟨⟨_, hkey, by simp [StrArg.terminated]⟩, (ih m hm (htaken m hm) ht).mpr (hms m hm)⟩
      obtain ⟨vs, hvs⟩ := EventTree.exists_buildsMember ts hbuilt
      have hlen' : ts.length ≤ Value.maxMapCapacity := (Tree.length_membersCalls hts).trans_le hlen
      obtain ⟨w, hw, -⟩ := EventTree.builds_map hvs hlen' none 0
      exact ⟨w, hw⟩

/-! ## The two ways compared -/

/-- The JSON reader throws nothing on the text. -/
def Json.Accepts (is : ReadStream) : Prop :=
  ∃ s', JsonReader.parse (JsonReader.new is) = .ok () s'

/-- Parsing the text into the writer reports no error, and the writer holds what the traversal of the
document writes to it that the text is parsed into, without conversion of extensions. -/
def Json.WritesAlike {σ : Type} [Handler σ] (os : σ → Bytes) (is : ReadStream) (w : σ) : Prop :=
  ∃ r, JsonReader.parseStream is w = .ok r ∧ r.hasParseError = false ∧
    ∃ d, JsonReader.parseStream is ({ convertExtensions := false } : Document) = .ok d ∧
      d.hasParseError = false ∧
      ∃ w', (d.handler.value.traverse : Exec σ Unit) w = .ok () w' ∧ os r.handler = os w'

/-- A writer that is fed by the reader writes what it writes for the document exactly if each part of
the text is taken and stored. -/
theorem writesAlike_iff_of_nests {σ : Type} [Handler σ] {S : Bytes → Prop} {D : BitVec 64 → Prop}
    {value inside : ℕ → σ → Prop} (hw : Nests S D value inside) (hσ : Ignores σ)
    (hreported : ∀ e, FailsWith Fault.Reported (handle e : Exec σ Unit))
    (hstart : ∀ w : σ, startDocument w = w) (hend : ∀ w : σ, endDocument w = w) (os : σ → Bytes)
    {is : ReadStream} {w₁ p w₂ : Bytes} {j : Tree} (hw₁ : Spaces w₁) (hw₂ : Spaces w₂)
    (hp : Denotes .value p j) (hrest : is.rest = w₁ ++ (p ++ w₂)) (haccepts : Accepts is) {w : σ}
    (hvalue : value 0 w) :
    WritesAlike os is w ↔ j.All (Tree.Taken S D) ∧ j.All Tree.Stored := by
  obtain ⟨s', hparse⟩ := haccepts
  obtain ⟨t, ht, hevents⟩ : ∃ t, j.calls (JsonReader.copies (JsonReader.new is)) = .ok t ∧
      s'.events = t.events := by
    have hdelivers := JsonReader.parse_delivers hw₁ hw₂ hp (s := JsonReader.new is) hrest
    cases hcalls : j.calls (JsonReader.copies (JsonReader.new is)) with
    | error f =>
      rw [hcalls] at hdelivers
      obtain ⟨s'', hrun⟩ := hdelivers
      cases hrun.symm.trans hparse
    | ok t =>
      rw [hcalls] at hdelivers
      obtain ⟨s'', hrun, -, hstep⟩ := hdelivers
      cases hrun.symm.trans hparse
      exact ⟨t, rfl, hstep.events⟩
  have hdirect := (hw.leads_events ht 0).exists_ok_iff hvalue
  have hdocument (d : Document) : deliver s'.events (startDocument d) =
      (t.build d.convertExtensions).map fun v => { d with value := v, stack := [[]] } := by
    rw [hevents]
    exact Document.deliver_startDocument t d
  constructor
  · rintro ⟨r, hr, hok, d, hd, hdok, -⟩
    obtain ⟨h', hdeliver, -⟩ := Reader.delivered_of_parseStream hreported hparse hr hok
    have htaken : j.All (Tree.Taken S D) := by
      rw [hevents, hstart] at hdeliver
      exact hdirect.mp ⟨(), h', outcome_eq_ok.mp hdeliver⟩
    refine ⟨htaken, (exists_build_iff htaken ht).mp ?_⟩
    obtain ⟨d', hdeliver', -⟩ :=
      Reader.delivered_of_parseStream Document.reported_handle hparse hd hdok
    rw [hdocument] at hdeliver'
    cases hbuild : t.build false with
    | ok v => exact ⟨v, rfl⟩
    | error f =>
      rw [hbuild] at hdeliver'
      cases hdeliver'
  · rintro ⟨htaken, hstored⟩
    obtain ⟨v, hv⟩ := (exists_build_iff htaken ht).mpr hstored
    obtain ⟨⟨⟩, w', hrun⟩ := hdirect.mpr htaken
    have hdeliver : deliver s'.events (startDocument w) = .ok w' := by
      rw [hevents, hstart]
      exact outcome_eq_ok.mpr hrun
    have htraverse : (v.traverse : Exec σ Unit) w = .ok () w' := by
      rw [Value.traverse_eq_run (EventTree.fullyValid_of_build hv),
        ← hσ.run_events hp.hasDigits htaken ht hv]
      exact hrun
    refine ⟨_, Reader.parseStream_of_ok hparse hdeliver, rfl, _,
      Reader.parseStream_of_build (d := { convertExtensions := false }) hparse hevents hv, rfl, w',
      htraverse, ?_⟩
    rw [hend]

end AnyRpc
