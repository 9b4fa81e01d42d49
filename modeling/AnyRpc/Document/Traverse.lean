import AnyRpc.Document.Stack

/-! # Traversing a value into a document

The calls of the traversal of a value build it again (`Document.traverse_value`). -/

namespace AnyRpc

open Library Handler

namespace Value

/-- The nodes that a document builds as they are: valid, a number that is an integer or a double (a
float is converted), and a container within the sizes to which its allocation grows. -/
def IsDeliverable : Value → Prop
  | invalid => False
  | number n => (∃ z, Number.InRange z ∧ n = .ofInteger z) ∨ ∃ d, n = .ofDouble d
  | array es _ => es.length ≤ maxPushedElements
  | map ms _ => ms.length ≤ maxMapCapacity
  | _ => True

/-- A deliverable value is valid throughout. -/
theorem fullyValid_of_isDeliverable {v : Value} (h : v.All IsDeliverable) : v.FullyValid :=
  h.mono fun v hv => by rintro rfl; exact hv

/-- The tree of a deliverable value builds it. -/
theorem builds_tree [Platform] {v : Value} (h : v.All IsDeliverable) :
    EventTree.Builds false v.tree v := by
  induction v using Value.induction with
  | invalid => exact h.elim
  | bool b => cases b <;> exact EventTree.builds_leaf rfl
  | null | string _ | dateTime _ | binary _ => exact EventTree.builds_leaf rfl
  | number n =>
    rcases h with ⟨z, hz, rfl⟩ | ⟨d, rfl⟩
    · obtain ⟨T, -, hfits, hscalar⟩ := IntegerType.numberScalar_ofInteger hz
      refine EventTree.builds_leaf (s := numberScalar (.ofInteger z)) ?_
      rw [hscalar]
      exact Scalar.build_of_integer (IntegerType.integer?_scalar hfits)
    · obtain ⟨hint, huint, hint64, huint64, hdouble⟩ := Number.flags_ofDouble d
      refine EventTree.builds_leaf (s := numberScalar (.ofDouble d)) ?_
      rw [numberScalar, hint, huint, hint64, huint64, hdouble]
      rfl
  | array es c ih =>
    obtain ⟨hlen, hes⟩ := all_array.mp h
    rw [tree_array]
    refine EventTree.builds_array ?_ (by rwa [List.length_map]) (fun hconvert => by cases hconvert) _ c
    exact List.forall₂_map_left_iff.mpr (List.forall₂_same.mpr fun e he => ih e he (hes e he))
  | map ms c ih =>
    obtain ⟨hlen, hms⟩ := all_map.mp h
    rw [tree_map]
    refine EventTree.builds_map ?_ (by rwa [List.length_map]) _ c
    exact List.forall₂_map_left_iff.mpr (List.forall₂_same.mpr fun m hm =>
      ⟨_, rfl, rfl, rfl, ih m hm (hms m hm)⟩)

end Value

namespace Document

variable [Platform]

/-- The traversal of a value into a document raises no exception and leaves it with the contents of
the value. After every call each pointer on the stack leads to the last element or member of what
the pointer below it leads to, and where a call changes the allocation of a container, no pointer
that is still on the stack leads into the container. -/
theorem traverse_value {v : Value} (h : v.All Value.IsDeliverable) {d : Document}
    (hd : d.convertExtensions = false) :
    (∃ d', (v.traverse : Exec Document Unit) (Handler.startDocument d) = .ok () d' ∧
      d'.value.contents = v.contents) ∧
    (v.traverse : Exec Document Unit) = run v.tree.events ∧
    ∀ es fs, v.tree.events = es ++ fs → ∃ d₁, run es (Handler.startDocument d) = .ok () d₁ ∧
      Chain d₁.value d₁.stack ∧
      ∀ e fs', fs = e :: fs' → ∃ d₂, handle e d₁ = .ok () d₂ ∧
        ∀ p c c', Value.capacityAt p d₁.value = some c → Value.capacityAt p d₂.value = some c' →
          c' ≠ c → ∀ q ∈ d₁.stack, q ∈ d₂.stack → p <+: q → q = p := by
  have hrun : (v.traverse : Exec Document Unit) = run v.tree.events :=
    Value.traverse_eq_run (Value.fullyValid_of_isDeliverable h)
  obtain ⟨w, hbuild, hcontents⟩ := Value.builds_tree h
  have hdeliver := deliver_startDocument v.tree d
  rw [hd, hbuild] at hdeliver
  have hok := outcome_eq_ok.mp hdeliver
  refine ⟨⟨_, by rw [hrun]; exact hok, hcontents⟩, hrun, fun es fs hevents => ?_⟩
  rw [hevents, run_append] at hok
  obtain ⟨_, d₁, hfirst, hrest⟩ := bind_eq_ok.mp hok
  have hchain := chain_run es (d := Handler.startDocument d) .root hfirst
  refine ⟨d₁, hfirst, hchain, ?_⟩
  rintro e fs' rfl
  obtain ⟨_, d₂, hcall, -⟩ := bind_eq_ok.mp hrest
  exact ⟨d₂, hcall, fun p c c' hc hc' hne q hq hq' hpq =>
    (advances_handle hcall).outside hchain hc hc' hne hq hq' hpq⟩

omit [Platform] in
/-- An array with an empty map and a number. -/
theorem traverse_value_nested :
    letI := Platform.blank
    ∃ d', (Value.array [.map [] 0, .number (.ofInt 7)] 2).traverse
        (Handler.startDocument ({ convertExtensions := false } : Document)) = .ok () d' ∧
      d'.value.contents = (Value.array [.map [] 0, .number (.ofInt 7)] 2).contents := by
  let _ := Platform.blank
  have hnumber : (Value.number (.ofInt 7)).IsDeliverable :=
    .inl ⟨7, ⟨by decide, by decide⟩, Number.ofInt_eq 7⟩
  have hdeliverable : (Value.array [.map [] 0, .number (.ofInt 7)] 2).All Value.IsDeliverable := by
    refine Value.all_array.mpr ⟨show 2 ≤ maxPushedElements by decide, fun e he => ?_⟩
    rcases List.mem_cons.mp he with rfl | he
    · exact Value.all_map.mpr ⟨Nat.zero_le _, nofun⟩
    · rw [List.mem_singleton.mp he]
      exact hnumber
  exact (traverse_value hdeliverable rfl).1

end Document

end AnyRpc
