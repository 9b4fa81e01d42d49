import AnyRpc.Handler.EventTree
import AnyRpc.Json.Integer
import AnyRpc.Json.Sound

/-! # The meaning of a JSON text

What a JSON text without fractions and exponents says, as a tree (`Json.Tree`) next to the grammar
(`Json.Denotes`), and the calls that the reader owes for it: an array or an object is announced
without its size, and an integer by the event of its digits. -/

namespace AnyRpc

open Library NumberText

namespace Json

/-- What a text says. An integer stands for its digits, and the members of an object keep their
order. -/
inductive Tree where
  | null
  | bool (b : Bool)
  | integer (minus : Bool) (digits : Bytes)
  | string (bytes : Bytes)
  | array (elements : List Tree)
  | object (members : List (Bytes × Tree))
  deriving Repr, Inhabited

namespace Tree

/-- Induction on a tree, with the hypothesis for every element and every member. -/
@[elab_as_elim]
theorem induction {motive : Tree → Prop} (null : motive null) (bool : ∀ b, motive (bool b))
    (integer : ∀ minus digits, motive (integer minus digits))
    (string : ∀ bytes, motive (string bytes))
    (array : ∀ js, (∀ j ∈ js, motive j) → motive (array js))
    (object : ∀ ms, (∀ m ∈ ms, motive m.2) → motive (object ms)) (j : Tree) : motive j := by
  refine Tree.rec (motive_1 := motive) (motive_2 := fun js => ∀ j ∈ js, motive j)
    (motive_3 := fun ms => ∀ m ∈ ms, motive m.2) (motive_4 := fun m => motive m.2)
    null bool integer string array object ?_ ?_ ?_ ?_ ?_ j
  · simp
  · intro j js hj hjs j' hj'
    rcases List.mem_cons.mp hj' with rfl | h
    · exact hj
    · exact hjs j' h
  · simp
  · intro m ms hm hms m' hm'
    rcases List.mem_cons.mp hm' with rfl | h
    · exact hm
    · exact hms m' h
  · intro _ j hj
    exact hj

/-! ## Properties of all parts -/

mutual

/-- A property holds of the tree and of everything in it. -/
def All (p : Tree → Prop) : Tree → Prop
  | array js => p (array js) ∧ AllElements p js
  | object ms => p (object ms) ∧ AllMembers p ms
  | j => p j

/-- `All` over the elements of an array. -/
def AllElements (p : Tree → Prop) : List Tree → Prop
  | [] => True
  | j :: js => All p j ∧ AllElements p js

/-- `All` over the members of an object. -/
def AllMembers (p : Tree → Prop) : List (Bytes × Tree) → Prop
  | [] => True
  | (_, j) :: ms => All p j ∧ AllMembers p ms

end

/-- A property of all parts, on an array. -/
@[simp] theorem all_array {p : Tree → Prop} {js : List Tree} :
    All p (array js) ↔ p (array js) ∧ ∀ j ∈ js, All p j := by
  have helements : AllElements p js ↔ ∀ j ∈ js, All p j := by
    induction js with
    | nil => simp [AllElements]
    | cons j js ih => simp [AllElements, ih]
  rw [All, helements]

/-- A property of all parts, on an object. -/
@[simp] theorem all_object {p : Tree → Prop} {ms : List (Bytes × Tree)} :
    All p (object ms) ↔ p (object ms) ∧ ∀ m ∈ ms, All p m.2 := by
  have hmembers : AllMembers p ms ↔ ∀ m ∈ ms, All p m.2 := by
    induction ms with
    | nil => simp [AllMembers]
    | cons m ms ih => simp [AllMembers, ih]
  rw [All, hmembers]

end Tree

/-! ## The grammar with its meaning -/

/-- What the texts of a symbol say. -/
abbrev Symbol.Meaning : Symbol → Type
  | .value => Tree
  | .elements => List Tree
  | .members => List (Bytes × Tree)

/-- A text without fractions and exponents that a symbol stands for, and what it says. -/
inductive Denotes : (sym : Symbol) → Bytes → sym.Meaning → Prop where
  | null : Denotes .value (ascii "null") .null
  | true : Denotes .value (ascii "true") (.bool true)
  | false : Denotes .value (ascii "false") (.bool false)
  | integer {minus : Bool} {ds : Bytes} : IntDigits ds →
      Denotes .value (literal minus ds) (.integer minus ds)
  | string {text bytes : Bytes} : Chars text bytes → Denotes .value (quoted text) (.string bytes)
  | emptyArray {w : Bytes} : Spaces w → Denotes .value (0x5b :: (w ++ [0x5d])) (.array [])
  | array {w es : Bytes} {js : List Tree} : Spaces w → Denotes .elements es js →
      Denotes .value (0x5b :: (w ++ (es ++ [0x5d]))) (.array js)
  | emptyObject {w : Bytes} : Spaces w → Denotes .value (0x7b :: (w ++ [0x7d])) (.object [])
  | object {w ms : Bytes} {js : List (Bytes × Tree)} : Spaces w → Denotes .members ms js →
      Denotes .value (0x7b :: (w ++ (ms ++ [0x7d]))) (.object js)
  | lastElement {p w : Bytes} {j : Tree} : Denotes .value p j → Spaces w →
      Denotes .elements (p ++ w) [j]
  | element {p w w' es : Bytes} {j : Tree} {js : List Tree} : Denotes .value p j → Spaces w →
      Spaces w' → Denotes .elements es js →
      Denotes .elements (p ++ (w ++ 0x2c :: (w' ++ es))) (j :: js)
  | lastMember {key bytes w₁ w₂ p w : Bytes} {j : Tree} : Chars key bytes → Spaces w₁ →
      Spaces w₂ → Denotes .value p j → Spaces w →
      Denotes .members (quoted key ++ (w₁ ++ 0x3a :: (w₂ ++ (p ++ w)))) [(bytes, j)]
  | member {key bytes w₁ w₂ p w w' ms : Bytes} {j : Tree} {js : List (Bytes × Tree)} :
      Chars key bytes → Spaces w₁ → Spaces w₂ → Denotes .value p j → Spaces w → Spaces w' →
      Denotes .members ms js →
      Denotes .members (quoted key ++ (w₁ ++ 0x3a :: (w₂ ++ (p ++ (w ++ 0x2c :: (w' ++ ms))))))
        ((bytes, j) :: js)

/-- A number without fraction and exponent. -/
def IsInteger (t : NumberText) : Prop := t.frac = none ∧ t.exp = none

theorem text_of_isInteger {t : NumberText} (h : IsInteger t) : t.text = literal t.minus t.int := by
  rw [NumberText.text, h.1, h.2, fracText, expText, literal]
  simp

/-- A text that says something is one of the grammar. -/
theorem Denotes.derives {sym : Symbol} {p : Bytes} {m : sym.Meaning} (h : Denotes sym p m) :
    ∃ ns, Derives sym p ns ∧ ∀ t ∈ ns, IsInteger t := by
  induction h with
  | null => exact ⟨[], .null, nofun⟩
  | true => exact ⟨[], .true, nofun⟩
  | false => exact ⟨[], .false, nofun⟩
  | @integer minus ds hds =>
    have hint : IsInteger ⟨minus, ds, none, none⟩ := ⟨rfl, rfl⟩
    refine ⟨[⟨minus, ds, none, none⟩], ?_, List.forall_mem_singleton.mpr hint⟩
    have hvalid : Valid ⟨minus, ds, none, none⟩ := ⟨hds, nofun, nofun⟩
    rw [← text_of_isInteger hint]
    exact .number hvalid
  | string hts => exact ⟨[], .string hts, nofun⟩
  | emptyArray hw => exact ⟨[], .emptyArray hw, nofun⟩
  | array hw _ ih =>
    obtain ⟨ns, hes, hns⟩ := ih
    exact ⟨ns, .array hw hes, hns⟩
  | emptyObject hw => exact ⟨[], .emptyObject hw, nofun⟩
  | object hw _ ih =>
    obtain ⟨ns, hms, hns⟩ := ih
    exact ⟨ns, .object hw hms, hns⟩
  | lastElement _ hw ih =>
    obtain ⟨ns, hp, hns⟩ := ih
    exact ⟨ns, .lastElement hp hw, hns⟩
  | element _ hw hw' _ ih ih' =>
    obtain ⟨ns, hp, hns⟩ := ih
    obtain ⟨ns', hes, hns'⟩ := ih'
    exact ⟨ns ++ ns', .element hp hw hw' hes, List.forall_mem_append.mpr ⟨hns, hns'⟩⟩
  | lastMember hkey hw₁ hw₂ _ hw ih =>
    obtain ⟨ns, hp, hns⟩ := ih
    exact ⟨ns, .lastMember hkey hw₁ hw₂ hp hw, hns⟩
  | member hkey hw₁ hw₂ _ hw hw' _ ih ih' =>
    obtain ⟨ns, hp, hns⟩ := ih
    obtain ⟨ns', hms, hns'⟩ := ih'
    exact ⟨ns ++ ns', .member hkey hw₁ hw₂ hp hw hw' hms, List.forall_mem_append.mpr ⟨hns, hns'⟩⟩

/-- A text of the grammar whose numbers are integers says something. -/
theorem Derives.denotes {sym : Symbol} {p : Bytes} {ns : List NumberText} (h : Derives sym p ns)
    (hns : ∀ t ∈ ns, IsInteger t) : ∃ m, Denotes sym p m := by
  induction h with
  | null => exact ⟨_, .null⟩
  | true => exact ⟨_, .true⟩
  | false => exact ⟨_, .false⟩
  | @number t ht =>
    rw [text_of_isInteger (List.forall_mem_singleton.mp hns)]
    exact ⟨_, .integer ht.int⟩
  | string hts => exact ⟨_, .string hts⟩
  | emptyArray hw => exact ⟨_, .emptyArray hw⟩
  | array hw _ ih =>
    obtain ⟨js, hes⟩ := ih hns
    exact ⟨_, .array hw hes⟩
  | emptyObject hw => exact ⟨_, .emptyObject hw⟩
  | object hw _ ih =>
    obtain ⟨js, hms⟩ := ih hns
    exact ⟨_, .object hw hms⟩
  | lastElement _ hw ih =>
    obtain ⟨j, hp⟩ := ih hns
    exact ⟨_, .lastElement hp hw⟩
  | element _ hw hw' _ ih ih' =>
    obtain ⟨hns, hns'⟩ := List.forall_mem_append.mp hns
    obtain ⟨j, hp⟩ := ih hns
    obtain ⟨js, hes⟩ := ih' hns'
    exact ⟨_, .element hp hw hw' hes⟩
  | lastMember hkey hw₁ hw₂ _ hw ih =>
    obtain ⟨j, hp⟩ := ih hns
    exact ⟨_, .lastMember hkey hw₁ hw₂ hp hw⟩
  | member hkey hw₁ hw₂ _ hw hw' _ ih ih' =>
    obtain ⟨hns, hns'⟩ := List.forall_mem_append.mp hns
    obtain ⟨j, hp⟩ := ih hns
    obtain ⟨js, hms⟩ := ih' hns'
    exact ⟨_, .member hkey hw₁ hw₂ hp hw hw' hms⟩

/-- Elements say something. -/
theorem Denotes.elements_ne_nil {es : Bytes} {js : List Tree} (h : Denotes .elements es js) :
    js ≠ [] := by
  cases h with
  | lastElement _ _ | element _ _ _ _ => exact List.cons_ne_nil _ _

/-- Members say something. -/
theorem Denotes.members_ne_nil {ms : Bytes} {js : List (Bytes × Tree)}
    (h : Denotes .members ms js) : js ≠ [] := by
  cases h with
  | lastMember _ _ _ _ _ | member _ _ _ _ _ _ _ => exact List.cons_ne_nil _ _

/-! ## The calls of a text -/

section

variable [Platform]

/-- The event of an integer, or the fault with which the reader leaves it. -/
def integerEvent (minus : Bool) (ds : Bytes) : Except Fault Scalar :=
  match ParseNumber.parse (literal minus ds) with
  | .ok n _ => JsonReader.numberEvent n
  | .error f _ => .error f

namespace Tree

variable (copy : Bool)

mutual

/-- The calls that deliver what a text says, whose strings are copied or referenced, or the fault of
the first integer that can not be delivered. -/
def calls : Tree → Except Fault EventTree
  | null => .ok (.leaf .null)
  | bool b => .ok (.leaf (if b then .boolTrue else .boolFalse))
  | integer minus ds => do return .leaf (← integerEvent minus ds)
  | string bytes => .ok (.leaf (.string { bytes, copy }))
  | array js => do return .array none (← elementsCalls js)
  | object ms => do return .map none (← membersCalls ms)

/-- `calls` over the elements of an array. -/
def elementsCalls : List Tree → Except Fault (List EventTree)
  | [] => .ok []
  | j :: js => do
    let t ← calls j
    return t :: (← elementsCalls js)

/-- `calls` over the members of an object. -/
def membersCalls : List (Bytes × Tree) → Except Fault (List (Option StrArg × EventTree))
  | [] => .ok []
  | (key, j) :: ms => do
    let t ← calls j
    return (some { bytes := key, copy }, t) :: (← membersCalls ms)

end

variable {copy : Bool}

/-- The calls for an array are those for its elements. -/
theorem calls_array {js : List Tree} {t : EventTree} (h : (array js).calls copy = .ok t) :
    ∃ ts, elementsCalls copy js = .ok ts ∧ t = .array none ts := by
  rw [calls] at h
  cases hts : elementsCalls copy js with
  | error f =>
    rw [hts] at h
    cases h
  | ok ts =>
    rw [hts] at h
    cases h
    exact ⟨ts, rfl, rfl⟩

/-- The calls for an object are those for its members. -/
theorem calls_object {ms : List (Bytes × Tree)} {t : EventTree}
    (h : (object ms).calls copy = .ok t) :
    ∃ ts, membersCalls copy ms = .ok ts ∧ t = .map none ts := by
  rw [calls] at h
  cases hts : membersCalls copy ms with
  | error f =>
    rw [hts] at h
    cases h
  | ok ts =>
    rw [hts] at h
    cases h
    exact ⟨ts, rfl, rfl⟩

/-- The calls for the elements are those for the first one and for the rest. -/
theorem elementsCalls_cons {j : Tree} {js : List Tree} {ts : List EventTree}
    (h : elementsCalls copy (j :: js) = .ok ts) :
    ∃ t ts', j.calls copy = .ok t ∧ elementsCalls copy js = .ok ts' ∧ ts = t :: ts' := by
  rw [elementsCalls] at h
  cases hj : j.calls copy with
  | error f =>
    rw [hj] at h
    cases h
  | ok t =>
    cases hjs : elementsCalls copy js with
    | error f =>
      rw [hj, hjs] at h
      cases h
    | ok ts' =>
      rw [hj, hjs] at h
      cases h
      exact ⟨t, ts', rfl, rfl, rfl⟩

/-- The calls for the members are those for the first one and for the rest. -/
theorem membersCalls_cons {key : Bytes} {j : Tree} {ms : List (Bytes × Tree)}
    {ts : List (Option StrArg × EventTree)} (h : membersCalls copy ((key, j) :: ms) = .ok ts) :
    ∃ t ts', j.calls copy = .ok t ∧ membersCalls copy ms = .ok ts' ∧
      ts = (some { bytes := key, copy }, t) :: ts' := by
  rw [membersCalls] at h
  cases hj : j.calls copy with
  | error f =>
    rw [hj] at h
    cases h
  | ok t =>
    cases hms : membersCalls copy ms with
    | error f =>
      rw [hj, hms] at h
      cases h
    | ok ts' =>
      rw [hj, hms] at h
      cases h
      exact ⟨t, ts', rfl, rfl, rfl⟩

/-- The calls for the members are one key and one tree for each. -/
theorem forall₂_membersCalls {ms : List (Bytes × Tree)} {ts : List (Option StrArg × EventTree)}
    (h : membersCalls copy ms = .ok ts) :
    List.Forall₂ (fun m t => t.1 = some { bytes := m.1, copy } ∧ m.2.calls copy = .ok t.2) ms ts := by
  induction ms generalizing ts with
  | nil =>
    cases h
    exact .nil
  | cons m ms ih =>
    obtain ⟨t, ts, ht, hts, rfl⟩ := membersCalls_cons h
    exact .cons ⟨rfl, ht⟩ (ih hts)

/-- An array has as many elements as it says. -/
theorem length_elementsCalls {js : List Tree} {ts : List EventTree}
    (h : elementsCalls copy js = .ok ts) : ts.length = js.length := by
  induction js generalizing ts with
  | nil =>
    cases h
    rfl
  | cons j js ih =>
    obtain ⟨t, ts, -, hts, rfl⟩ := elementsCalls_cons h
    rw [List.length_cons, List.length_cons, ih hts]

/-- An object has as many members as it says. -/
theorem length_membersCalls {ms : List (Bytes × Tree)} {ts : List (Option StrArg × EventTree)}
    (h : membersCalls copy ms = .ok ts) : ts.length = ms.length := by
  induction ms generalizing ts with
  | nil =>
    cases h
    rfl
  | cons m ms ih =>
    obtain ⟨t, ts, -, hts, rfl⟩ := membersCalls_cons h
    rw [List.length_cons, List.length_cons, ih hts]

end Tree

end

end Json

end AnyRpc
