import AnyRpc.Library.StateError

/-! # Simulation

A computation on concrete states does what another one does on abstract states: from states that
the relation `R` holds between, both runs end in the same way, in states that it holds between
again. The rules carry this through sequences. -/

namespace AnyRpc.Library

variable {ε σ τ α β : Type} {R : σ → τ → Prop}

/-- Two runs end in the same way, in related states. -/
inductive Alike (R : σ → τ → Prop) : EStateM.Result ε σ α → EStateM.Result ε τ α → Prop
  | ok (a : α) {s : σ} {t : τ} (h : R s t) : Alike R (.ok a s) (.ok a t)
  | error (e : ε) {s : σ} {t : τ} (h : R s t) : Alike R (.error e s) (.error e t)

namespace Alike

/-- The states that two like runs reach are related. -/
theorem reached {r : EStateM.Result ε σ α} {r' : EStateM.Result ε τ α} (h : Alike R r r') :
    R (Library.reached r) (Library.reached r') := by
  cases h <;> assumption

/-- A run is like one that returns. -/
theorem of_ok {r : EStateM.Result ε σ α} {a : α} {t : τ} (h : Alike R r (.ok a t)) :
    ∃ s, r = .ok a s ∧ R s t := by
  cases h with
  | ok _ hR => exact ⟨_, rfl, hR⟩

/-- A run is like one that ends with an error. -/
theorem of_error {r : EStateM.Result ε σ α} {e : ε} {t : τ} (h : Alike R r (.error e t)) :
    ∃ s, r = .error e s ∧ R s t := by
  cases h with
  | error _ hR => exact ⟨_, rfl, hR⟩

/-- Sequences are alike when their parts are, the second ones from wherever the first ones end. -/
theorem bind {p : EStateM ε σ α} {q : EStateM ε τ α} {f : α → EStateM ε σ β}
    {g : α → EStateM ε τ β} {s : σ} {t : τ} (h : Alike R (p s) (q t))
    (hfg : ∀ a s' t', R s' t' → Alike R (f a s') (g a t')) :
    Alike R ((p >>= f) s) ((q >>= g) t) := by
  rw [bind_apply, bind_apply]
  generalize p s = r, q t = r' at h ⊢
  cases h with
  | ok a hR => exact hfg a _ _ hR
  | error e hR => exact .error e hR

end Alike

/-! ## Runs that follow others -/

section

variable {ε' α' β' : Type} {F : Prop} {Q Q' : α → σ → α' → τ → Prop}

/-- Where the first run returns, the second one does as well, and `Q` relates what they return and
where they end; or the second one throws, and `F` holds. -/
def Mirrors (F : Prop) (Q : α → σ → α' → τ → Prop) (r : EStateM.Result ε σ α)
    (r' : EStateM.Result ε' τ α') : Prop :=
  ∀ a s, r = .ok a s → (∃ a' t, r' = .ok a' t ∧ Q a s a' t) ∨ F ∧ ∃ e t, r' = .error e t

theorem mirrors_ok {a : α} {s : σ} {a' : α'} {t : τ} (h : Q a s a' t) :
    Mirrors F Q (.ok a s : EStateM.Result ε σ α) (.ok a' t : EStateM.Result ε' τ α') := by
  intro b s₁ hb
  cases hb
  exact .inl ⟨a', t, rfl, h⟩

/-- Nothing has to follow an error. -/
theorem mirrors_error (e : ε) (s : σ) (r' : EStateM.Result ε' τ α') :
    Mirrors F Q (.error e s : EStateM.Result ε σ α) r' :=
  nofun

namespace Mirrors

variable {r : EStateM.Result ε σ α} {r' : EStateM.Result ε' τ α'}

theorem mono (h : Mirrors F Q r r') (hQ : ∀ a s a' t, Q a s a' t → Q' a s a' t) :
    Mirrors F Q' r r' := by
  intro a s hr
  refine (h a s hr).imp_left ?_
  rintro ⟨a', t, hr', hq⟩
  exact ⟨a', t, hr', hQ a s a' t hq⟩

/-- Sequences follow each other when their parts do. -/
theorem bind {p : EStateM ε σ α} {p' : EStateM ε' τ α'} {f : α → EStateM ε σ β}
    {f' : α' → EStateM ε' τ β'} {s : σ} {t : τ} {T : β → σ → β' → τ → Prop}
    (h : Mirrors F Q (p s) (p' t))
    (hf : ∀ a s' a' t', Q a s' a' t' → Mirrors F T (f a s') (f' a' t')) :
    Mirrors F T ((p >>= f) s) ((p' >>= f') t) := by
  rw [bind_apply, bind_apply]
  intro b s₁ hb
  cases hp : p s with
  | error e s' =>
    rw [hp] at hb
    cases hb
  | ok a s' =>
    rw [hp] at hb
    obtain ⟨a', t', hp', hq⟩ | ⟨hF, e, t', hp'⟩ := h a s' hp
    · rw [hp']
      exact hf a s' a' t' hq b s₁ hb
    · rw [hp']
      exact .inr ⟨hF, e, t', rfl⟩

/-- The same branch is taken. -/
theorem ite {c : Prop} [Decidable c] {p q : EStateM ε σ α} {p' q' : EStateM ε' τ α'} {s : σ} {t : τ}
    (hp : c → Mirrors F Q (p s) (p' t)) (hq : ¬ c → Mirrors F Q (q s) (q' t)) :
    Mirrors F Q ((if c then p else q) s) ((if c then p' else q') t) := by
  by_cases h : c
  · rw [if_pos h, if_pos h]
    exact hp h
  · rw [if_neg h, if_neg h]
    exact hq h

end Mirrors

end

end AnyRpc.Library
