import AnyRpc.Library.StateError

/-! # Pre- and postconditions

What a computation `p : EStateM ε σ α` is to guarantee from a state on: `wp p Q E s` says that it
returns with `Q`, or ends with an error that leaves `E`. The rules take a computation apart. -/

namespace AnyRpc.Library

variable {ε σ α β : Type}

/-- The run from a state returns with `Q` or ends with an error that leaves `E`. -/
def wp (p : EStateM ε σ α) (Q : α → σ → Prop) (E : ε → σ → Prop) (s : σ) : Prop :=
  match p s with
  | .ok a s' => Q a s'
  | .error e s' => E e s'

section

variable {Q Q' : α → σ → Prop} {E E' : ε → σ → Prop} {s : σ}

/-- What is owed by a run on a fixed state can be computed. -/
instance {p : EStateM ε σ α} [∀ a s', Decidable (Q a s')] [∀ e s', Decidable (E e s')] :
    Decidable (wp p Q E s) :=
  match h : p s with
  | .ok a s' => decidable_of_iff (Q a s') (by rw [wp, h])
  | .error e s' => decidable_of_iff (E e s') (by rw [wp, h])

/-- A value. -/
theorem wp_pure (a : α) : wp (pure a) Q E s ↔ Q a s := Iff.rfl

/-- Sequences. -/
theorem wp_bind (p : EStateM ε σ β) (f : β → EStateM ε σ α) :
    wp (p >>= f) Q E s ↔ wp p (fun b => wp (f b) Q E) E s := by
  rw [wp, wp, bind_apply]
  cases p s <;> rfl

/-- A first part that is known to return. -/
theorem wp_bind_of_ok {p : EStateM ε σ β} {f : β → EStateM ε σ α} {b : β} {s' : σ}
    (h : p s = .ok b s') : wp (p >>= f) Q E s ↔ wp (f b) Q E s' := by
  rw [wp, bind_of_ok h]
  rfl

/-- A first part that is known to throw. -/
theorem wp_bind_of_error {p : EStateM ε σ β} {f : β → EStateM ε σ α} {e : ε} {s' : σ}
    (h : p s = .error e s') : wp (p >>= f) Q E s ↔ E e s' := by
  rw [wp, bind_of_error h]

/-- The state is read. -/
theorem wp_get {Q : σ → σ → Prop} : wp get Q E s ↔ Q s s := Iff.rfl

/-- The state is changed. -/
theorem wp_modify {Q : PUnit → σ → Prop} (f : σ → σ) : wp (modify f) Q E s ↔ Q ⟨⟩ (f s) := Iff.rfl

/-- Both branches. -/
theorem wp_ite (c : Prop) [Decidable c] (p q : EStateM ε σ α) :
    wp (if c then p else q) Q E s ↔ (c → wp p Q E s) ∧ (¬ c → wp q Q E s) := by
  by_cases h : c
  · simp [h]
  · simp [h]

/-- Nothing has to hold. -/
theorem wp_true {p : EStateM ε σ α} : wp p (fun _ _ => True) (fun _ _ => True) s := by
  unfold wp
  cases p s <;> trivial

/-- Postconditions may be weakened. -/
theorem wp_mono {p : EStateM ε σ α} (h : wp p Q E s) (hQ : ∀ a s', Q a s' → Q' a s')
    (hE : ∀ e s', E e s' → E' e s') : wp p Q' E' s := by
  unfold wp at h ⊢
  cases hrun : p s with
  | ok a s' =>
    rw [hrun] at h
    exact hQ a s' h
  | error e s' =>
    rw [hrun] at h
    exact hE e s' h

/-- What is guaranteed holds of a run that returns. -/
theorem wp.of_ok {p : EStateM ε σ α} {a : α} {s' : σ} (h : wp p Q E s) (hrun : p s = .ok a s') :
    Q a s' := by
  rw [wp, hrun] at h
  exact h

/-- What is guaranteed holds of a run that ends with an error. -/
theorem wp.of_error {p : EStateM ε σ α} {e : ε} {s' : σ} (h : wp p Q E s)
    (hrun : p s = .error e s') : E e s' := by
  rw [wp, hrun] at h
  exact h

/-- A run has everything that it guarantees. -/
theorem wp_and {p : EStateM ε σ α} (h : wp p Q E s) (h' : wp p Q' E' s) :
    wp p (fun a s' => Q a s' ∧ Q' a s') (fun e s' => E e s' ∧ E' e s') s := by
  unfold wp at h h' ⊢
  cases hrun : p s with
  | ok a s' =>
    rw [hrun] at h h'
    exact ⟨h, h'⟩
  | error e s' =>
    rw [hrun] at h h'
    exact ⟨h, h'⟩

/-- A run that cannot fail returns, with everything that it guarantees. -/
theorem wp_returns {p : EStateM ε σ α} (h : wp p Q (fun _ _ => False) s)
    (h' : wp p Q' (fun _ _ => False) s) : ∃ a s', Q a s' ∧ Q' a s' := by
  unfold wp at h h'
  cases hrun : p s with
  | ok a s' =>
    rw [hrun] at h h'
    exact ⟨a, s', h, h'⟩
  | error e s' =>
    rw [hrun] at h
    exact h.elim

/-- A part of a sequence is replaced by what it guarantees. -/
theorem wp_seq {p : EStateM ε σ β} {f : β → EStateM ε σ α} {R : β → σ → Prop}
    (hp : wp p R E s) (hf : ∀ b s', R b s' → wp (f b) Q E s') : wp (p >>= f) Q E s :=
  (wp_bind p f).mpr (wp_mono hp hf fun _ _ h => h)

/-- What both outcomes guarantee holds of the state that is reached. -/
theorem wp.reached {I : σ → Prop} {p : EStateM ε σ α} (h : wp p (fun _ => I) (fun _ => I) s) :
    I (reached (p s)) := by
  unfold wp at h
  cases hrun : p s <;> rw [hrun] at h <;> exact h

end

/-! ## Frames -/

/-- A computation leaves what `f` reads of the state as it is, whether it returns or not. -/
def Leaves {γ : Type} (f : σ → γ) (p : EStateM ε σ α) : Prop := ∀ s, f (reached (p s)) = f s

namespace Leaves

variable {γ : Type} {f : σ → γ}

/-- A value. -/
theorem pure (a : α) : Leaves f (Pure.pure a : EStateM ε σ α) := fun _ => rfl

/-- An error. -/
theorem throw (e : ε) : Leaves f (MonadExcept.throw e : EStateM ε σ α) := fun _ => rfl

/-- The state is read. -/
theorem get : Leaves f (MonadState.get : EStateM ε σ σ) := fun _ => rfl

/-- A change of something else. -/
theorem modify {g : σ → σ} (h : ∀ s, f (g s) = f s) :
    Leaves f (modify g : EStateM ε σ PUnit) := fun s => h s

/-- Sequences. -/
theorem bind {p : EStateM ε σ β} {k : β → EStateM ε σ α} (hp : Leaves f p)
    (hk : ∀ b, Leaves f (k b)) : Leaves f (p >>= k) := by
  intro s
  have h := hp s
  rw [bind_apply]
  cases hrun : p s with
  | ok b s' =>
    rw [hrun] at h
    exact (hk b s').trans h
  | error e s' =>
    rw [hrun] at h
    exact h

/-- Both branches. -/
theorem ite {c : Prop} [Decidable c] {p q : EStateM ε σ α} (hp : Leaves f p) (hq : Leaves f q) :
    Leaves f (if c then p else q) := by
  by_cases h : c
  · rw [if_pos h]
    exact hp
  · rw [if_neg h]
    exact hq

/-- What a run that returns has left as it was. -/
theorem of_ok {p : EStateM ε σ α} (hp : Leaves f p) {s s' : σ} {a : α} (h : p s = .ok a s') :
    f s' = f s := by
  have hs := hp s
  rwa [h] at hs

/-- What is left as it was, beside what else is guaranteed. -/
theorem and {p : EStateM ε σ α} (hp : Leaves f p) {Q : α → σ → Prop} {E : ε → σ → Prop} {s : σ}
    (h : wp p Q E s) :
    wp p (fun a s' => f s' = f s ∧ Q a s') (fun e s' => f s' = f s ∧ E e s') s := by
  have hs := hp s
  unfold Library.wp at h ⊢
  cases hrun : p s with
  | ok a s' =>
    rw [hrun] at h hs
    exact ⟨hs, h⟩
  | error e s' =>
    rw [hrun] at h hs
    exact ⟨hs, h⟩

end Leaves

/-! ## Returning exactly under a condition -/

/-- From the states with `I` the computation returns, to a state with `J`, exactly if `P` holds. -/
def LeadsIff (I : σ → Prop) (P : Prop) (J : σ → Prop) (p : EStateM ε σ α) : Prop :=
  ∀ s, I s → wp p (fun _ s' => P ∧ J s') (fun _ _ => ¬ P) s

section

variable {I J K : σ → Prop} {P Q : Prop} {p : EStateM ε σ PUnit} {q : EStateM ε σ α}

/-- A computation that always returns. -/
theorem leadsIff_of_ok {p : EStateM ε σ α} (h : ∀ s, I s → ∃ a s', p s = .ok a s' ∧ J s') :
    LeadsIff I True J p := by
  intro s hs
  obtain ⟨a, s', hrun, hs'⟩ := h s hs
  rw [wp, hrun]
  exact ⟨trivial, hs'⟩

/-- A computation that always throws. -/
theorem leadsIff_of_error {p : EStateM ε σ α} (h : ∀ s, I s → ∃ e s', p s = .error e s') :
    LeadsIff I False J p := by
  intro s hs
  obtain ⟨e, s', hrun⟩ := h s hs
  rw [wp, hrun]
  exact id

/-- The same condition in other words. -/
theorem LeadsIff.congr {p : EStateM ε σ α} (hp : LeadsIff I P J p) (h : P ↔ Q) :
    LeadsIff I Q J p := by
  rwa [← h]

/-- A sequence returns exactly if both of its parts do. -/
theorem LeadsIff.seq (hp : LeadsIff I P J p) (hq : LeadsIff J Q K q) :
    LeadsIff I (P ∧ Q) K (do p; q) := by
  intro s hs
  refine wp_seq (R := fun _ s' => P ∧ J s') (wp_mono (hp s hs) (fun _ _ h => h) fun _ _ h hPQ =>
    h hPQ.1) ?_
  rintro _ s' ⟨hP, hs'⟩
  exact wp_mono (hq s' hs') (fun _ _ h => ⟨⟨hP, h.1⟩, h.2⟩) fun _ _ h hPQ => h hPQ.2

/-- A sequence does not return where its first part does not. -/
theorem LeadsIff.stop (hp : LeadsIff I False J p) : LeadsIff I False K (do p; q) := by
  intro s hs
  refine wp_seq (R := fun _ _ => False) (wp_mono (hp s hs) (fun _ _ h => h.1) fun _ _ h => h) ?_
  rintro _ _ ⟨⟩

/-- Nothing is done. -/
theorem leadsIff_pure : LeadsIff I True I (pure ⟨⟩ : EStateM ε σ PUnit) :=
  leadsIff_of_ok fun s hs => ⟨⟨⟩, s, rfl, hs⟩

/-- What a run tells about the condition. -/
theorem LeadsIff.exists_ok_iff {p : EStateM ε σ α} (hp : LeadsIff I P J p) {s : σ} (hs : I s) :
    (∃ a s', p s = .ok a s') ↔ P := by
  have h := hp s hs
  rw [wp] at h
  cases hrun : p s with
  | ok a s' =>
    rw [hrun] at h
    exact iff_of_true ⟨a, s', rfl⟩ h.1
  | error e s' =>
    rw [hrun] at h
    refine iff_of_false ?_ h
    rintro ⟨a, s'', hok⟩
    cases hok

end

end AnyRpc.Library
