import AnyRpc.Value.Basic

/-! # Equality of values

Two values are compared node by node, so that what is computed can be compared with what is expected. -/

namespace AnyRpc.Value

mutual

/-- Comparison of two values with their capacities. -/
def eqb : Value → Value → Bool
  | invalid, invalid => true
  | null, null => true
  | bool a, bool b => a == b
  | map ms c, map ns d => c == d && eqbMembers ms ns
  | array es c, array fs d => c == d && eqbElements es fs
  | string a, string b => decide (a = b)
  | number m, number n => decide (m = n)
  | dateTime a, dateTime b => a == b
  | binary a, binary b => decide (a = b)
  | _, _ => false

/-- Comparison of the elements of two arrays. -/
def eqbElements : List Value → List Value → Bool
  | [], [] => true
  | v :: vs, w :: ws => eqb v w && eqbElements vs ws
  | _, _ => false

/-- Comparison of the members of two maps. -/
def eqbMembers : List (Bytes × Value) → List (Bytes × Value) → Bool
  | [], [] => true
  | (k, v) :: ms, (l, w) :: ns => decide (k = l) && eqb v w && eqbMembers ms ns
  | _, _ => false

end

/-- The elements are compared one by one. -/
theorem eqbElements_iff {es fs : List Value} (h : ∀ e ∈ es, ∀ w, eqb e w = true ↔ e = w) :
    eqbElements es fs = true ↔ es = fs := by
  induction es generalizing fs with
  | nil => cases fs <;> simp [eqbElements]
  | cons e es ih =>
    cases fs with
    | nil => simp [eqbElements]
    | cons f fs =>
      rw [eqbElements, Bool.and_eq_true, h e List.mem_cons_self,
        ih fun e he => h e (List.mem_cons_of_mem _ he), List.cons.injEq]

/-- The members are compared one by one, with their keys. -/
theorem eqbMembers_iff {ms ns : List (Bytes × Value)}
    (h : ∀ m ∈ ms, ∀ w, eqb m.2 w = true ↔ m.2 = w) : eqbMembers ms ns = true ↔ ms = ns := by
  induction ms generalizing ns with
  | nil => cases ns <;> simp [eqbMembers]
  | cons m ms ih =>
    obtain ⟨k, v⟩ := m
    cases ns with
    | nil => simp [eqbMembers]
    | cons n ns =>
      obtain ⟨l, w⟩ := n
      rw [eqbMembers, Bool.and_eq_true, Bool.and_eq_true, decide_eq_true_eq,
        h (k, v) List.mem_cons_self, ih fun m hm => h m (List.mem_cons_of_mem _ hm), List.cons.injEq,
        Prod.mk.injEq]

/-- The comparison is equality. -/
theorem eqb_iff (v w : Value) : eqb v w = true ↔ v = w := by
  induction v using Value.induction generalizing w with
  | map ms c ih =>
    cases w with
    | map ns d =>
      rw [eqb, Bool.and_eq_true, beq_iff_eq, eqbMembers_iff ih, map.injEq]
      exact and_comm
    | _ => simp [eqb]
  | array es c ih =>
    cases w with
    | array fs d =>
      rw [eqb, Bool.and_eq_true, beq_iff_eq, eqbElements_iff ih, array.injEq]
      exact and_comm
    | _ => simp [eqb]
  | _ => cases w <;> simp [eqb]

instance : DecidableEq Value := fun v w => decidable_of_iff (eqb v w = true) (eqb_iff v w)

end AnyRpc.Value
