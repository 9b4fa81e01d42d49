import AnyRpc.Library.Hoare
import Mathlib.Computability.Language
import Mathlib.Order.CompletePartialOrder

/-! # What a computation appends to a log

A computation that keeps a log in its state appends to it whether it returns or throws. `Emits`
bounds what it appends by two languages, one for each outcome; a sequence appends words of the
product. Where a computation that throws stops within a word that it could have completed, the
second language is `prefixes` of the first. -/

namespace AnyRpc.Library

variable {ε σ α β γ : Type}

/-! ## Prefixes of the words of a language -/

/-- The words that some word of the language starts with. -/
def prefixes (L : Language α) : Language α := {w | ∃ u ∈ L, w <+: u}

theorem mem_prefixes {L : Language α} {w : List α} : w ∈ prefixes L ↔ ∃ u ∈ L, w <+: u := Iff.rfl

theorem le_prefixes (L : Language α) : L ≤ prefixes L := fun w hw => ⟨w, hw, List.prefix_rfl⟩

theorem prefixes_mono {L M : Language α} (h : L ≤ M) : prefixes L ≤ prefixes M := by
  rintro w ⟨u, hu, hw⟩
  exact ⟨u, h hu, hw⟩

theorem nil_mem_prefixes {L : Language α} (h : ∃ w, w ∈ L) : [] ∈ prefixes L := by
  obtain ⟨w, hw⟩ := h
  exact ⟨w, hw, List.nil_prefix⟩

/-- A product has words where both of its parts do. -/
theorem exists_mem_mul {L M : Language α} (hL : ∃ w, w ∈ L) (hM : ∃ w, w ∈ M) :
    ∃ w, w ∈ L * M := by
  obtain ⟨u, hu⟩ := hL
  obtain ⟨v, hv⟩ := hM
  exact ⟨u ++ v, Language.append_mem_mul hu hv⟩

theorem exists_mem_singleton (w : List α) : ∃ u, u ∈ ({w} : Language α) := ⟨w, rfl⟩

/-- A prefix of the first part of a product is one of the product, where the second part has words
at all. -/
theorem prefixes_le_mul {L M : Language α} (hM : ∃ w, w ∈ M) : prefixes L ≤ prefixes (L * M) := by
  rintro w ⟨u, hu, hw⟩
  obtain ⟨v, hv⟩ := hM
  exact ⟨u ++ v, Language.append_mem_mul hu hv, hw.trans (List.prefix_append u v)⟩

/-- A word of the first part and a prefix of the second one are a prefix of the product. -/
theorem mul_prefixes_le (L M : Language α) : L * prefixes M ≤ prefixes (L * M) := by
  rintro w hw
  obtain ⟨u, hu, v, ⟨x, hx, hv⟩, rfl⟩ := Language.mem_mul.mp hw
  exact ⟨u ++ x, Language.append_mem_mul hu hx, (List.prefix_append_right_inj u).mpr hv⟩

/-! ## Computations with a log -/

/-- From `s`, the computation returns with `Q` and a word of `L` appended to the log, or throws a
fault with `E` and a word of `T` appended to it. -/
def Emits (log : σ → List α) (L T : Language α) (Q : β → σ → Prop) (E : ε → Prop)
    (p : EStateM ε σ β) (s : σ) : Prop :=
  match p s with
  | .ok b s' => (∃ w ∈ L, log s' = log s ++ w) ∧ Q b s'
  | .error e s' => (∃ w ∈ T, log s' = log s ++ w) ∧ E e

variable {log : σ → List α} {L T M U : Language α} {Q : β → σ → Prop} {E : ε → Prop}
variable {p : EStateM ε σ β} {s : σ}

theorem emits_of_ok {b : β} {s' : σ} {w : List α} (hp : p s = .ok b s') (hw : w ∈ L)
    (hlog : log s' = log s ++ w) (hQ : Q b s') : Emits log L T Q E p s := by
  rw [Emits, hp]
  exact ⟨⟨w, hw, hlog⟩, hQ⟩

theorem emits_of_error {e : ε} {s' : σ} {w : List α} (hp : p s = .error e s') (hw : w ∈ T)
    (hlog : log s' = log s ++ w) (hE : E e) : Emits log L T Q E p s := by
  rw [Emits, hp]
  exact ⟨⟨w, hw, hlog⟩, hE⟩

/-- The two ways in which a computation can end. -/
theorem Emits.cases (h : Emits log L T Q E p s) :
    (∃ b s', p s = .ok b s' ∧ (∃ w ∈ L, log s' = log s ++ w) ∧ Q b s') ∨
      ∃ e s', p s = .error e s' ∧ (∃ w ∈ T, log s' = log s ++ w) ∧ E e := by
  rw [Emits] at h
  cases hp : p s with
  | ok b s' =>
    rw [hp] at h
    exact .inl ⟨b, s', rfl, h⟩
  | error e s' =>
    rw [hp] at h
    exact .inr ⟨e, s', rfl, h⟩

/-- What is guaranteed besides the log. -/
theorem Emits.wp (h : Emits log L T Q E p s) : Library.wp p Q (fun e _ => E e) s := by
  rcases h.cases with ⟨b, s', hp, -, h⟩ | ⟨e, s', hp, -, h⟩
  · rw [Library.wp, hp]
    exact h
  · rw [Library.wp, hp]
    exact h

/-- Weaker bounds. -/
theorem Emits.mono {Q' : β → σ → Prop} {E' : ε → Prop} (h : Emits log L T Q E p s) (hL : L ≤ M)
    (hT : T ≤ U) (hQ : ∀ b s', Q b s' → Q' b s') (hE : ∀ e, E e → E' e) :
    Emits log M U Q' E' p s := by
  rcases h.cases with ⟨b, s', hp, ⟨w, hw, hlog⟩, h⟩ | ⟨e, s', hp, ⟨w, hw, hlog⟩, h⟩
  · exact emits_of_ok hp (hL hw) hlog (hQ b s' h)
  · exact emits_of_error hp (hT hw) hlog (hE e h)

/-- A sequence appends what its parts append. -/
theorem Emits.bind {f : β → EStateM ε σ γ} {R : γ → σ → Prop} (hp : Emits log L T Q E p s)
    (hf : ∀ b s', Q b s' → Emits log M U R E (f b) s') :
    Emits log (L * M) (T + L * U) R E (p >>= f) s := by
  rcases hp.cases with ⟨b, s', hp, ⟨w, hw, hlog⟩, h⟩ | ⟨e, s', hp, ⟨w, hw, hlog⟩, h⟩
  · rcases (hf b s' h).cases with ⟨c, s'', hf, ⟨v, hv, hlog'⟩, h'⟩ | ⟨e, s'', hf, ⟨v, hv, hlog'⟩, h'⟩
    · exact emits_of_ok (by rw [bind_of_ok hp, hf]) (Language.append_mem_mul hw hv)
        (by rw [hlog', hlog, List.append_assoc]) h'
    · exact emits_of_error (by rw [bind_of_ok hp, hf]) (.inr (Language.append_mem_mul hw hv))
        (by rw [hlog', hlog, List.append_assoc]) h'
  · exact emits_of_error (bind_of_error hp) (.inl hw) hlog h

/-- A computation that does what another one does from a state with the same log. -/
theorem emits_of_eq {q : EStateM ε σ β} {s' : σ} (hp : p s = q s') (hlog : log s' = log s)
    (hq : Emits log L T Q E q s') : Emits log L T Q E p s := by
  rw [Emits, hlog] at hq
  rw [Emits, hp]
  exact hq

/-- A computation that does what another one does from a state with a word more in the log. -/
theorem emits_of_eq_append {q : EStateM ε σ β} {s' : σ} {w : List α} (hp : p s = q s')
    (hlog : log s' = log s ++ w) (hq : Emits log L (prefixes L) Q E q s') :
    Emits log ({w} * L) (prefixes ({w} * L)) Q E p s := by
  rcases hq.cases with ⟨b, s'', hq, ⟨v, hv, hlog'⟩, h⟩ | ⟨e, s'', hq, ⟨v, hv, hlog'⟩, h⟩
  · exact emits_of_ok (hp.trans hq) (Language.append_mem_mul rfl hv)
      (by rw [hlog', hlog, List.append_assoc]) h
  · exact emits_of_error (hp.trans hq) (mul_prefixes_le _ _ (Language.append_mem_mul rfl hv))
      (by rw [hlog', hlog, List.append_assoc]) h

/-- A first part that returns and leaves the log as it is. -/
theorem emits_bind_of_ok {f : β → EStateM ε σ γ} {R : γ → σ → Prop} {b : β} {s' : σ}
    (hp : p s = .ok b s') (hlog : log s' = log s) (hf : Emits log L T R E (f b) s') :
    Emits log L T R E (p >>= f) s :=
  emits_of_eq (bind_of_ok hp) hlog hf

/-- A first part that leaves the log as it is, whatever it returns. -/
theorem Emits.silent {f : β → EStateM ε σ γ} {R : γ → σ → Prop} (hp : Emits log {[]} {[]} Q E p s)
    (hU : [] ∈ U) (hf : ∀ b s', Q b s' → Emits log M U R E (f b) s') :
    Emits log M U R E (p >>= f) s := by
  rcases hp.cases with ⟨b, s', hp, ⟨_, rfl, hlog⟩, h⟩ | ⟨e, s', hp, ⟨_, rfl, hlog⟩, h⟩
  · exact emits_bind_of_ok hp (hlog.trans (List.append_nil _)) (hf b s' h)
  · exact emits_of_error (bind_of_error hp) hU hlog h

/-- A sequence whose parts throw within words that they could have completed. -/
theorem Emits.seq {f : β → EStateM ε σ γ} {R : γ → σ → Prop}
    (hp : Emits log L (prefixes L) Q E p s) (hM : ∃ w, w ∈ M)
    (hf : ∀ b s', Q b s' → Emits log M (prefixes M) R E (f b) s') :
    Emits log (L * M) (prefixes (L * M)) R E (p >>= f) s := by
  refine (hp.bind hf).mono le_rfl ?_ (fun _ _ h => h) fun _ h => h
  rintro w (hw | hw)
  · exact prefixes_le_mul hM hw
  · exact mul_prefixes_le L M hw

end AnyRpc.Library
