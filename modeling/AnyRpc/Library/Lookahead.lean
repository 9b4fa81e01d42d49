import AnyRpc.Library.StateError

/-! # Scanners that look one element ahead

A scanner over a list takes a part from its front. One that never looks further than at the element
behind this part does the same on every list that begins so and goes on with the same element. The
rules establish this for a scanner that is put together from looking and taking. -/

namespace AnyRpc.Library

variable {ε α β γ : Type} {P : α → Prop}

/-- On `t` the scanner takes elements with `P`, and it looks at the one behind them only. -/
def LooksAhead (P : α → Prop) (p : EStateM ε (List α) β) (t : List α) : Prop :=
  ∀ x r, p t = .ok x r → ∃ a, t = a ++ r ∧ (∀ c ∈ a, P c) ∧
    ∀ r', r'.head? = r.head? → p (a ++ r') = .ok x r'

/-- A value. -/
theorem looksAhead_pure (x : β) (t : List α) :
    LooksAhead P (pure x : EStateM ε (List α) β) t := by
  rintro y r h
  cases h
  exact ⟨[], rfl, nofun, fun r' _ => rfl⟩

/-- An error. -/
theorem looksAhead_error {p : EStateM ε (List α) β} {t s : List α} {e : ε} (h : p t = .error e s) :
    LooksAhead P p t := by
  intro x r hok
  rw [h] at hok
  cases hok

/-- Looking takes nothing. -/
theorem looksAhead_look {p : EStateM ε (List α) β} {f : Option α → β} (h : ∀ t, p t = .ok (f t.head?) t)
    (t : List α) : LooksAhead P p t := by
  intro x r hok
  rw [h] at hok
  cases hok
  refine ⟨[], rfl, nofun, fun r' hr' => ?_⟩
  rw [List.nil_append, h, hr']

/-- Taking takes an element with `P`, where there is one. -/
theorem looksAhead_take {p : EStateM ε (List α) β} {f : Option α → β}
    (h : ∀ t, p t = .ok (f t.head?) t.tail) {t : List α} (hP : ∀ c ∈ t.head?, P c) :
    LooksAhead P p t := by
  intro x r hok
  rw [h] at hok
  cases hok
  cases t with
  | nil =>
    refine ⟨[], rfl, nofun, fun r' hr' => ?_⟩
    cases r' with
    | nil => exact h []
    | cons c r' => cases hr'
  | cons c t =>
    refine ⟨[c], rfl, fun d hd => ?_, fun r' _ => ?_⟩
    · exact hP d (List.mem_singleton.mp hd ▸ rfl)
    · rw [h]
      rfl

/-- What a sequence takes is what its parts take. -/
theorem looksAhead_bind {p : EStateM ε (List α) β} {f : β → EStateM ε (List α) γ} {t : List α}
    (hp : LooksAhead P p t) (hf : ∀ x r, p t = .ok x r → LooksAhead P (f x) r) :
    LooksAhead P (p >>= f) t := by
  intro y r hok
  obtain ⟨x, r₁, hpt, hfr⟩ := bind_eq_ok.mp hok
  obtain ⟨a, rfl, ha, hpa⟩ := hp x r₁ hpt
  obtain ⟨b, rfl, hb, hfb⟩ := hf x r₁ hpt y r hfr
  refine ⟨a ++ b, (List.append_assoc a b r).symm, fun c hc => ?_, fun r' hr' => ?_⟩
  · rcases List.mem_append.mp hc with hc | hc
    · exact ha c hc
    · exact hb c hc
  · have hhead : (b ++ r').head? = (b ++ r).head? := by
      cases b with
      | nil => exact hr'
      | cons c b => rfl
    rw [List.append_assoc, bind_of_ok (hpa (b ++ r') hhead), hfb r' hr']

/-- Both branches. -/
theorem looksAhead_ite {c : Prop} [Decidable c] {p q : EStateM ε (List α) β} {t : List α}
    (hp : c → LooksAhead P p t) (hq : ¬ c → LooksAhead P q t) :
    LooksAhead P (if c then p else q) t := by
  by_cases h : c
  · rw [if_pos h]
    exact hp h
  · rw [if_neg h]
    exact hq h

/-! ## The end of the list -/

/-- An outcome with more elements behind what is left. -/
def followed (r : List α) : EStateM.Result ε (List α) β → EStateM.Result ε (List α) β
  | .ok x s => .ok x (s ++ r)
  | .error e s => .error e (s ++ r)

/-- On `t` the scanner stops before `r` just as it does at the end of the list. -/
def StopsAt (r : List α) (p : EStateM ε (List α) β) (t : List α) : Prop :=
  p (t ++ r) = followed r (p t)

/-- A value. -/
theorem stopsAt_pure {r : List α} (x : β) (t : List α) :
    StopsAt r (pure x : EStateM ε (List α) β) t := rfl

/-- A sequence stops where its parts do. -/
theorem stopsAt_bind {r : List α} {p : EStateM ε (List α) β} {f : β → EStateM ε (List α) γ}
    {t : List α} (hp : StopsAt r p t) (hf : ∀ x s, p t = .ok x s → StopsAt r (f x) s) :
    StopsAt r (p >>= f) t := by
  rw [StopsAt] at hp ⊢
  cases hrun : p t with
  | ok x s =>
    rw [hrun] at hp
    rw [bind_of_ok hp, bind_of_ok hrun]
    exact hf x s hrun
  | error e s =>
    rw [hrun] at hp
    rw [bind_of_error hp, bind_of_error hrun]
    rfl

/-- Both branches. -/
theorem stopsAt_ite {c : Prop} [Decidable c] {r : List α} {p q : EStateM ε (List α) β} {t : List α}
    (hp : c → StopsAt r p t) (hq : ¬ c → StopsAt r q t) :
    StopsAt r (if c then p else q) t := by
  by_cases h : c
  · rw [if_pos h]
    exact hp h
  · rw [if_neg h]
    exact hq h

end AnyRpc.Library
