import AnyRpc.Library.StateError

/-! # The errors of a computation

`FailsWith E p` says that whatever `p` ends with, if it does not return, satisfies `E`. The rules
establish this from the parts of a computation. -/

namespace AnyRpc.Library

variable {ε σ α β : Type} {E : ε → Prop}

/-- Every error of the computation satisfies `E`. -/
def FailsWith (E : ε → Prop) (p : EStateM ε σ α) : Prop := ∀ s e s', p s = .error e s' → E e

namespace FailsWith

/-- A computation that always returns. -/
theorem of_ok {p : EStateM ε σ α} (h : ∀ s, ∃ a s', p s = .ok a s') : FailsWith E p := by
  intro s e s' herror
  obtain ⟨a, s'', hok⟩ := h s
  rw [hok] at herror
  cases herror

/-- An error of the kind. -/
theorem throw {e : ε} (h : E e) : FailsWith E (MonadExcept.throw e : EStateM ε σ α) := by
  intro s e' s' herror
  cases herror
  exact h

/-- The errors of a sequence are those of its parts. -/
theorem bind {p : EStateM ε σ α} {f : α → EStateM ε σ β} (hp : FailsWith E p)
    (hf : ∀ a, FailsWith E (f a)) : FailsWith E (p >>= f) := by
  intro s e s' herror
  rw [bind_apply] at herror
  cases hrun : p s with
  | ok a s₁ =>
    rw [hrun] at herror
    exact hf a s₁ e s' herror
  | error e' s₁ =>
    rw [hrun] at herror
    cases herror
    exact hp s e s' hrun

/-- Both branches. -/
theorem ite {c : Prop} [Decidable c] {p q : EStateM ε σ α} (hp : c → FailsWith E p)
    (hq : ¬ c → FailsWith E q) : FailsWith E (if c then p else q) := by
  by_cases h : c
  · rw [if_pos h]
    exact hp h
  · rw [if_neg h]
    exact hq h

end FailsWith

end AnyRpc.Library
