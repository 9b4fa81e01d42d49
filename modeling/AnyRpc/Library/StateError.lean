import Mathlib.Logic.Basic

/-! # Runs of state-and-error computations

Rules for reading off what a computation `p : EStateM ε σ α` does from one state: how the two
outcomes of a first part determine the outcome of a sequence, and how a successful sequence splits
into its parts. The state survives an error, so both outcomes carry one. -/

namespace AnyRpc.Library

variable {ε σ α β : Type}

/-! ## Rewriting rules -/

/-- What a sequence does, by the outcome of its first part. -/
@[simp] theorem bind_apply (p : EStateM ε σ α) (f : α → EStateM ε σ β) (s : σ) :
    (p >>= f) s = match p s with
      | .ok a s' => f a s'
      | .error e s' => .error e s' := rfl

/-- What is mapped is the value. -/
@[simp] theorem map_apply (f : α → β) (p : EStateM ε σ α) (s : σ) :
    (f <$> p) s = match p s with
      | .ok a s' => .ok (f a) s'
      | .error e s' => .error e s' := rfl

/-- A value leaves the state as it is. -/
@[simp] theorem pure_apply (a : α) (s : σ) : (pure a : EStateM ε σ α) s = .ok a s := rfl

/-- The state is read. -/
@[simp] theorem get_apply (s : σ) : (get : EStateM ε σ σ) s = .ok s s := rfl

/-- The state is replaced. -/
@[simp] theorem set_apply (s s' : σ) : (set s' : EStateM ε σ PUnit) s = .ok ⟨⟩ s' := rfl

/-- The state is changed. -/
@[simp] theorem modify_apply (f : σ → σ) (s : σ) :
    (modify f : EStateM ε σ PUnit) s = .ok ⟨⟩ (f s) := rfl

/-- An error leaves the state as it is. -/
@[simp] theorem throw_apply (e : ε) (s : σ) : (throw e : EStateM ε σ α) s = .error e s := rfl

/-! ## Sequences -/

/-- After a successful first part, a sequence runs its continuation from the state reached. -/
theorem bind_of_ok {p : EStateM ε σ α} {f : α → EStateM ε σ β} {s s' : σ} {a : α}
    (h : p s = .ok a s') : (p >>= f) s = f a s' := by
  rw [bind_apply, h]

/-- An error in the first part is the outcome of the sequence. -/
theorem bind_of_error {p : EStateM ε σ α} {f : α → EStateM ε σ β} {s s' : σ} {e : ε}
    (h : p s = .error e s') : (p >>= f) s = .error e s' := by
  rw [bind_apply, h]

/-- A sequence succeeds exactly when its first part does and its continuation does from there. -/
theorem bind_eq_ok {p : EStateM ε σ α} {f : α → EStateM ε σ β} {s s'' : σ} {b : β} :
    (p >>= f) s = .ok b s'' ↔ ∃ a s', p s = .ok a s' ∧ f a s' = .ok b s'' := by
  rw [bind_apply]
  cases p s with
  | ok a s' =>
    constructor
    · intro h
      exact ⟨a, s', rfl, h⟩
    · rintro ⟨_, _, h, hf⟩
      cases h
      exact hf
  | error e s' => simp

/-! ## Outcomes -/

/-- What a computation does when the state that an error leaves behind does not matter. -/
def outcome (p : EStateM ε σ Unit) (s : σ) : Except ε σ :=
  match p s with
  | .ok _ s' => .ok s'
  | .error e _ => .error e

/-- A run that returns. -/
theorem outcome_of_ok {p : EStateM ε σ Unit} {s s' : σ} (h : p s = .ok () s') :
    outcome p s = .ok s' := by
  rw [outcome, h]

/-- A run that throws. -/
theorem outcome_of_error {p : EStateM ε σ Unit} {s s' : σ} {e : ε} (h : p s = .error e s') :
    outcome p s = .error e := by
  rw [outcome, h]

/-- The outcome is a state exactly if the run returns in it. -/
theorem outcome_eq_ok {p : EStateM ε σ Unit} {s s' : σ} :
    outcome p s = .ok s' ↔ p s = .ok () s' := by
  rw [outcome]
  cases p s <;> simp

/-- Nothing is done. -/
@[simp] theorem outcome_pure (s : σ) : outcome (pure () : EStateM ε σ Unit) s = .ok s := rfl

/-- The outcome of a sequence chains the outcomes of its parts. -/
theorem outcome_seq (p q : EStateM ε σ Unit) (s : σ) :
    outcome (do p; q) s = (outcome p s).bind (outcome q) := by
  rw [outcome, outcome, bind_apply]
  cases p s <;> rfl

/-! ## States reached -/

/-- The state that a run reaches, whether it returns or not. -/
def reached : EStateM.Result ε σ α → σ
  | .ok _ s => s
  | .error _ s => s

/-- The state where a run returns. -/
@[simp] theorem reached_ok (a : α) (s : σ) :
    reached (.ok a s : EStateM.Result ε σ α) = s := rfl

/-- The state where a run throws. -/
@[simp] theorem reached_error (e : ε) (s : σ) :
    reached (.error e s : EStateM.Result ε σ α) = s := rfl

/-- Whether a run ends with an error. -/
def threw : EStateM.Result ε σ α → Bool
  | .ok _ _ => false
  | .error _ _ => true

/-- A run that returns does not throw. -/
@[simp] theorem threw_ok (a : α) (s : σ) : threw (.ok a s : EStateM.Result ε σ α) = false := rfl

/-- A run that throws does. -/
@[simp] theorem threw_error (e : ε) (s : σ) :
    threw (.error e s : EStateM.Result ε σ α) = true := rfl

end AnyRpc.Library
