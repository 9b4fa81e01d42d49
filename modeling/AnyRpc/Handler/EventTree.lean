import AnyRpc.Handler.Event

/-! # Well-formed sequences of calls

The calls that deliver one value form a tree: a scalar, or a container with the trees of its parts.
`EventTree.events` spells a tree out as the sequence of calls that readers and traversals make. A
member may lack its key, which is what one of the readers does for an empty key. -/

namespace AnyRpc

open Handler

/-- The calls that deliver one value. -/
inductive EventTree where
  | leaf (s : Scalar)
  | array (elementCount : Option ℕ) (elements : List EventTree)
  | map (memberCount : Option ℕ) (members : List (Option StrArg × EventTree))
  deriving Repr, Inhabited

namespace EventTree

mutual

/-- The sequence of calls of a tree. -/
def events : EventTree → List Event
  | leaf s => [.scalar s]
  | array c ts => .startArray c :: (elementEvents ts ++ [.endArray ts.length])
  | map c ms => .startMap c :: (memberEvents ms ++ [.endMap ms.length])

/-- The calls for the elements of an array: the first one, then the others after separators. -/
def elementEvents : List EventTree → List Event
  | [] => []
  | t :: ts => t.events ++ moreElementEvents ts

/-- The calls for the elements after the first one. -/
def moreElementEvents : List EventTree → List Event
  | [] => []
  | t :: ts => .arraySeparator :: (t.events ++ moreElementEvents ts)

/-- The calls for the members of a map. -/
def memberEvents : List (Option StrArg × EventTree) → List Event
  | [] => []
  | (k, t) :: ms => keyEvents k ++ (t.events ++ moreMemberEvents ms)

/-- The calls for the members after the first one. -/
def moreMemberEvents : List (Option StrArg × EventTree) → List Event
  | [] => []
  | (k, t) :: ms => .mapSeparator :: (keyEvents k ++ (t.events ++ moreMemberEvents ms))

/-- The call for a key, where there is one. -/
def keyEvents : Option StrArg → List Event
  | some str => [.key str]
  | none => []

end

/-! ## Induction -/

/-- Induction on a tree, with the hypothesis for every element and every member. -/
@[elab_as_elim]
theorem induction {motive : EventTree → Prop} (leaf : ∀ s, motive (leaf s))
    (array : ∀ c ts, (∀ t ∈ ts, motive t) → motive (array c ts))
    (map : ∀ c ms, (∀ m ∈ ms, motive m.2) → motive (map c ms)) (t : EventTree) : motive t := by
  refine EventTree.rec (motive_1 := motive) (motive_2 := fun ts => ∀ t ∈ ts, motive t)
    (motive_3 := fun ms => ∀ m ∈ ms, motive m.2) (motive_4 := fun m => motive m.2)
    leaf (fun c ts ih => array c ts ih) (fun c ms ih => map c ms ih) ?_ ?_ ?_ ?_ ?_ t
  · simp
  · intro u us hu hus u' hu'
    rcases List.mem_cons.mp hu' with rfl | h
    · exact hu
    · exact hus u' h
  · simp
  · intro m ms hm hms m' hm'
    rcases List.mem_cons.mp hm' with rfl | h
    · exact hm
    · exact hms m' h
  · intro _ t ht
    exact ht

/-! ## Keys -/

mutual

/-- Every key of the tree has a property. -/
def AllKeys (K : StrArg → Prop) : EventTree → Prop
  | leaf _ => True
  | array _ ts => AllKeysElements K ts
  | map _ ms => AllKeysMembers K ms

/-- `AllKeys` over the elements of an array. -/
def AllKeysElements (K : StrArg → Prop) : List EventTree → Prop
  | [] => True
  | t :: ts => AllKeys K t ∧ AllKeysElements K ts

/-- `AllKeys` over the members of a map. -/
def AllKeysMembers (K : StrArg → Prop) : List (Option StrArg × EventTree) → Prop
  | [] => True
  | (k, t) :: ms => (∀ str, k = some str → K str) ∧ AllKeys K t ∧ AllKeysMembers K ms

end

@[simp] theorem allKeys_leaf {K : StrArg → Prop} {s : Scalar} : AllKeys K (leaf s) := trivial

@[simp] theorem allKeys_array {K : StrArg → Prop} {c : Option ℕ} {ts : List EventTree} :
    AllKeys K (array c ts) ↔ ∀ t ∈ ts, AllKeys K t := by
  rw [AllKeys]
  induction ts with
  | nil => simp [AllKeysElements]
  | cons t ts ih => simp [AllKeysElements, ih]

@[simp] theorem allKeys_map {K : StrArg → Prop} {c : Option ℕ}
    {ms : List (Option StrArg × EventTree)} :
    AllKeys K (map c ms) ↔
      ∀ m ∈ ms, (∀ str, m.1 = some str → K str) ∧ AllKeys K m.2 := by
  rw [AllKeys]
  induction ms with
  | nil => simp [AllKeysMembers]
  | cons m ms ih => simp [AllKeysMembers, ih, and_assoc]

/-! ## Growing a container -/

/-- The calls for the elements, with a separator unless the first one is the last. -/
theorem elementEvents_cons (t : EventTree) (ts : List EventTree) :
    elementEvents (t :: ts) =
      t.events ++ ((if ts.length ≠ 0 then [.arraySeparator] else []) ++ elementEvents ts) := by
  cases ts <;> simp [elementEvents, moreElementEvents]

/-- The calls for the members, with a separator unless the first one is the last. -/
theorem memberEvents_cons (k : Option StrArg) (t : EventTree)
    (ms : List (Option StrArg × EventTree)) :
    memberEvents ((k, t) :: ms) =
      keyEvents k ++ (t.events ++
        ((if ms.length ≠ 0 then [.mapSeparator] else []) ++ memberEvents ms)) := by
  cases ms <;> simp [memberEvents, moreMemberEvents]

end EventTree

/-! ## The tree of a value -/

namespace Value

section

variable (leaf : Value → EventTree) (key : Bytes → StrArg) (count : ℕ → Option ℕ)

mutual

/-- The tree that delivers a value, given the trees of its leaves, the arguments of its keys and
whether the containers announce their sizes. -/
def treeWith : Value → EventTree
  | array es _ => .array (count es.length) (treesWith es)
  | map ms _ => .map (count ms.length) (memberTreesWith ms)
  | v => leaf v

/-- The trees of the elements of an array. -/
def treesWith : List Value → List EventTree
  | [] => []
  | v :: vs => treeWith v :: treesWith vs

/-- The trees of the members of a map. -/
def memberTreesWith : List (Bytes × Value) → List (Option StrArg × EventTree)
  | [] => []
  | (k, v) :: ms => (some (key k), treeWith v) :: memberTreesWith ms

end

theorem treesWith_eq (es : List Value) :
    treesWith leaf key count es = es.map (treeWith leaf key count) := by
  induction es with
  | nil => rfl
  | cons e es ih => rw [treesWith, ih, List.map_cons]

theorem memberTreesWith_eq (ms : List (Bytes × Value)) :
    memberTreesWith leaf key count ms =
      ms.map fun m => (some (key m.1), treeWith leaf key count m.2) := by
  induction ms with
  | nil => rfl
  | cons m ms ih => rw [memberTreesWith, ih, List.map_cons]

end

/-- The call by which a traversal delivers a leaf. -/
def leafScalar : Value → Scalar
  | bool false => .boolFalse
  | bool true => .boolTrue
  | number n => numberScalar n
  | dateTime dt => .dateTime dt
  | string s => .string { bytes := s }
  | binary s => .binary { bytes := s }
  | _ => .null

/-- The tree by which a traversal delivers a fully valid value. -/
def tree : Value → EventTree :=
  treeWith (fun v => .leaf v.leafScalar) (fun k => { bytes := k }) some

@[simp] theorem tree_array (es : List Value) (c : ℕ) :
    (array es c).tree = .array (some es.length) (es.map tree) := by
  rw [tree, treeWith, treesWith_eq]

@[simp] theorem tree_map (ms : List (Bytes × Value)) (c : ℕ) :
    (map ms c).tree =
      .map (some ms.length) (ms.map fun m => (some { bytes := m.1 }, m.2.tree)) := by
  rw [tree, treeWith, memberTreesWith_eq]

variable {σ : Type} [Handler σ]

/-- The loop over the elements runs their calls. -/
theorem traverseElements_eq_run {es : List Value}
    (h : ∀ e ∈ es, (traverse e : Exec σ Unit) = run e.tree.events) :
    (traverseElements es : Exec σ Unit) = run (EventTree.elementEvents (es.map tree)) := by
  induction es with
  | nil => rfl
  | cons e es ih =>
    have hrest := ih fun e' he' => h e' (List.mem_cons_of_mem _ he')
    rw [traverseElements, h e List.mem_cons_self, List.map_cons, EventTree.elementEvents,
      run_append]
    cases es with
    | nil => rw [hrest]; rfl
    | cons e' es =>
      rw [hrest]
      simp only [List.isEmpty_cons, Bool.false_eq_true, if_false, List.map_cons,
        EventTree.moreElementEvents, EventTree.elementEvents, run_cons]

/-- The loop over the members runs their calls. -/
theorem traverseMembers_eq_run {ms : List (Bytes × Value)}
    (h : ∀ m ∈ ms, (traverse m.2 : Exec σ Unit) = run m.2.tree.events) :
    (traverseMembers ms : Exec σ Unit) =
      run (EventTree.memberEvents (ms.map fun m => (some { bytes := m.1 }, m.2.tree))) := by
  induction ms with
  | nil => rfl
  | cons m ms ih =>
    have hrest := ih fun m' hm' => h m' (List.mem_cons_of_mem _ hm')
    obtain ⟨k, v⟩ := m
    rw [traverseMembers, h (k, v) List.mem_cons_self, List.map_cons, EventTree.memberEvents,
      EventTree.keyEvents, List.cons_append, List.nil_append, run_cons, run_append]
    cases ms with
    | nil => rw [hrest]; rfl
    | cons m' ms =>
      rw [hrest]
      simp only [List.isEmpty_cons, Bool.false_eq_true, if_false, List.map_cons,
        EventTree.moreMemberEvents, EventTree.memberEvents, run_cons]

/-- The traversal of a fully valid value runs the calls of its tree. -/
theorem traverse_eq_run {v : Value} (hv : v.FullyValid) :
    (traverse v : Exec σ Unit) = run v.tree.events := by
  induction v using Value.induction with
  | invalid => exact absurd rfl hv.root
  | array es c ih =>
    have hes : ∀ e ∈ es, e.FullyValid := (all_array.mp hv).2
    rw [traverse, traverseElements_eq_run fun e he => ih e he (hes e he), tree_array,
      EventTree.events, run_cons, run_append, run_singleton, List.length_map]
  | map ms c ih =>
    have hms : ∀ m ∈ ms, m.2.FullyValid := (all_map.mp hv).2
    rw [traverse, traverseMembers_eq_run fun m hm => ih m hm (hms m hm), tree_map,
      EventTree.events, run_cons, run_append, run_singleton, List.length_map]
  | bool b =>
    cases b <;> exact (run_singleton _).symm
  | null | string _ | number _ | dateTime _ | binary _ => exact (run_singleton _).symm

end Value

/-! ## Traversals that throw -/

section

open Library

variable {σ : Type} (I : σ → Prop)

/-- A computation keeps an invariant and returns where a condition holds, and throws an exception
where it does not. -/
def ReturnsIff (P : Prop) (p : Exec σ Unit) : Prop :=
  ∀ s, I s → (P ∧ ∃ s', p s = .ok () s' ∧ I s') ∨ (¬ P ∧ ∃ e s', p s = .error (.exception e) s')

variable {I}

theorem ReturnsIff.seq {P Q : Prop} {p q : Exec σ Unit} (hp : ReturnsIff I P p)
    (hq : ReturnsIff I Q q) : ReturnsIff I (P ∧ Q) (do p; q) := by
  intro s hs
  rcases hp s hs with ⟨hP, s', hrun, hs'⟩ | ⟨hP, e, s', hrun⟩
  · rcases hq s' hs' with ⟨hQ, s'', hrun', hs''⟩ | ⟨hQ, e, s'', hrun'⟩
    · exact .inl ⟨⟨hP, hQ⟩, s'', by rw [bind_of_ok hrun, hrun'], hs''⟩
    · exact .inr ⟨fun h => hQ h.2, e, s'', by rw [bind_of_ok hrun, hrun']⟩
  · exact .inr ⟨fun h => hP h.1, e, s', bind_of_error hrun⟩

theorem ReturnsIff.congr {P Q : Prop} {p : Exec σ Unit} (hp : ReturnsIff I P p) (h : P ↔ Q) :
    ReturnsIff I Q p := by
  rwa [← h]

theorem returnsIff_pure : ReturnsIff I True (pure ()) := fun s hs => .inl ⟨trivial, s, rfl, hs⟩

end

/-- The calls of a traversal announce the sizes of the containers. -/
def Announces : Event → Prop
  | .startMap none | .startArray none => False
  | _ => True

namespace Value

section

variable {σ : Type} [Handler σ] {I : σ → Prop}
variable (hI : ∀ e : Event, Announces e → ReturnsIff I True (handle e))

include hI

/-- A separator, unless the end is reached. -/
theorem returnsIff_separator (b : Bool) {e : Event} (he : Announces e) {Q : Prop}
    {q : Exec σ Unit} (hq : ReturnsIff I Q q) :
    ReturnsIff I Q (if b then q else do handle e; q) := by
  cases b
  · exact ((hI e he).seq hq).congr (by simp)
  · exact hq

/-- A traversal to a handler that takes every call returns exactly for the fully valid values. -/
theorem returnsIff_traverse (v : Value) : ReturnsIff I v.FullyValid (traverse v) := by
  have hleaf {v : Value} {e : Event} (he : Announces e) (hv : v.FullyValid)
      (heq : (traverse v : Exec σ Unit) = handle e) : ReturnsIff I v.FullyValid (traverse v) := by
    rw [heq]
    exact (hI e he).congr (iff_of_true trivial hv)
  induction v using Value.induction with
  | invalid => exact fun s _ => .inr ⟨fun h => h rfl, _, s, rfl⟩
  | array es c ih =>
    have helements : ReturnsIff I (∀ e ∈ es, e.FullyValid) (traverseElements es : Exec σ Unit) := by
      induction es with
      | nil => exact returnsIff_pure.congr (by simp)
      | cons e es ihes =>
        have hes := ihes fun e' he' => ih e' (List.mem_cons_of_mem _ he')
        have he := ih e List.mem_cons_self
        rw [traverseElements]
        refine (he.seq (returnsIff_separator hI es.isEmpty (e := .arraySeparator) trivial hes)).congr ?_
        simp
    refine ((hI (.startArray (some es.length)) trivial).seq
      (helements.seq (hI (.endArray es.length) trivial))).congr ?_
    simp [FullyValid]
  | map ms c ih =>
    have hmembers : ReturnsIff I (∀ m ∈ ms, m.2.FullyValid) (traverseMembers ms : Exec σ Unit) := by
      induction ms with
      | nil => exact returnsIff_pure.congr (by simp)
      | cons m ms ihms =>
        obtain ⟨k, v⟩ := m
        have hms := ihms fun m' hm' => ih m' (List.mem_cons_of_mem _ hm')
        have hv := ih (k, v) List.mem_cons_self
        rw [traverseMembers]
        refine ((hI (.key { bytes := k }) trivial).seq
          (hv.seq (returnsIff_separator hI ms.isEmpty (e := .mapSeparator) trivial hms))).congr ?_
        simp
    refine ((hI (.startMap (some ms.length)) trivial).seq
      (hmembers.seq (hI (.endMap ms.length) trivial))).congr ?_
    simp [FullyValid]
  | bool b => cases b <;> exact hleaf (v := bool _) (by trivial) Value.noConfusion rfl
  | null => exact hleaf (v := null) (by trivial) Value.noConfusion rfl
  | string s => exact hleaf (v := string s) (by trivial) Value.noConfusion rfl
  | number n => exact hleaf (v := number n) (by trivial) Value.noConfusion rfl
  | dateTime dt => exact hleaf (v := dateTime dt) (by trivial) Value.noConfusion rfl
  | binary s => exact hleaf (v := binary s) (by trivial) Value.noConfusion rfl

end

end Value

end AnyRpc
