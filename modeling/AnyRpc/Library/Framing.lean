import Mathlib.Data.List.Basic
import Mathlib.Order.Lattice
import Mathlib.Order.MinMax

/-! # Messages in a stream

A receiver cuts a stream into messages: from what it has of a message it can tell that it needs more,
that it gives up, or that the message is complete. What it has seen of a message never changes its
mind, so what it makes of a stream does not depend on how the stream is cut when it arrives
(`Receives.append`, `Receives.unique`).

A receiver may be slower than the stream: one that handles at most one message for each piece that
arrives has caught up with the stream exactly when no run of last pieces completes more messages than
there are pieces in it (`served_eq_iff`). -/

namespace AnyRpc.Library

/-- What a receiver makes of the bytes that it has of a message. -/
inductive Look (σ ε : Type) where
  /-- More is needed. -/
  | wait
  /-- Nothing more is received. -/
  | stop
  /-- A message of a length, what happens at it, and the state for the next one, if any. -/
  | message (length : ℕ) (event : ε) (next : Option σ)

/-- A receiver, by what it makes of what it has of a message. -/
structure Framing (α σ ε : Type) where
  look : σ → List α → Look σ ε
  look_message {s : σ} {q : List α} {n : ℕ} {e : ε} {next : Option σ}
    (h : look s q = .message n e next) : 0 < n ∧ n ≤ q.length
  look_append {s : σ} {q : List α} (l : List α) (h : look s q ≠ .wait) : look s (q ++ l) = look s q

namespace Framing

variable {α σ ε : Type} (F : Framing α σ ε)

/-- From a state a receiver makes a list of events of some of the messages in a stream; it ends, or
reaches another state with the rest of the stream. -/
inductive Receives : σ → List α → List ε → Option (σ × List α) → Prop
  | start (s : σ) (q : List α) : Receives s q [] (some (s, q))
  | stop {s : σ} {q : List α} (h : F.look s q = .stop) : Receives s q [] none
  | last {s : σ} {q : List α} {n : ℕ} {e : ε} (h : F.look s q = .message n e none) :
      Receives s q [e] none
  | next {s s' : σ} {q : List α} {n : ℕ} {e : ε} {es : List ε} {rest : Option (σ × List α)}
      (h : F.look s q = .message n e (some s')) (hrest : Receives s' (q.drop n) es rest) :
      Receives s q (e :: es) rest

/-- Nothing more can be made of what is there. -/
def Settled : Option (σ × List α) → Prop
  | none => True
  | some (s, q) => F.look s q = .wait

variable {F} {s s' : σ} {q q' : List α} {es es' : List ε} {rest rest' : Option (σ × List α)}

/-- What is received later does not change what was made of the stream. -/
theorem Receives.append (h : F.Receives s q es rest) (l : List α) :
    F.Receives s (q ++ l) es (rest.map fun r => (r.1, r.2 ++ l)) := by
  induction h with
  | start s q => exact .start s (q ++ l)
  | stop h => exact .stop (by rw [F.look_append l (by rw [h]; simp), h])
  | last h => exact .last (by rw [F.look_append l (by rw [h]; simp), h])
  | next h _ ih =>
    refine .next (by rw [F.look_append l (by rw [h]; simp), h]) ?_
    rwa [List.drop_append_of_le_length (F.look_message h).2]

/-- Two parts of a stream, one after the other. -/
theorem Receives.trans (h : F.Receives s q es (some (s', q'))) (h' : F.Receives s' q' es' rest') :
    F.Receives s q (es ++ es') rest' := by
  generalize hrest : some (s', q') = rest at h
  induction h with
  | start s q =>
    cases hrest
    exact h'
  | stop _ => cases hrest
  | last _ => cases hrest
  | next h _ ih => exact .next h (ih hrest)

/-- What can be made of a stream in full is unique, and everything else is a part of it. -/
theorem Receives.unique (h : F.Receives s q es rest) (hsettled : F.Settled rest)
    (h' : F.Receives s q es' rest') : es' <+: es ∧ (F.Settled rest' → es' = es ∧ rest' = rest) := by
  induction h' generalizing es rest with
  | start s q =>
    refine ⟨List.nil_prefix, fun hwait => ?_⟩
    cases h with
    | start => exact ⟨rfl, rfl⟩
    | stop h => cases h.symm.trans hwait
    | last h => cases h.symm.trans hwait
    | next h => cases h.symm.trans hwait
  | stop h₁ =>
    cases h with
    | start => cases h₁.symm.trans hsettled
    | stop => exact ⟨List.prefix_rfl, fun _ => ⟨rfl, rfl⟩⟩
    | last h => cases h₁.symm.trans h
    | next h => cases h₁.symm.trans h
  | last h₁ =>
    cases h with
    | start => cases h₁.symm.trans hsettled
    | stop h => cases h₁.symm.trans h
    | last h =>
      cases h₁.symm.trans h
      exact ⟨List.prefix_rfl, fun _ => ⟨rfl, rfl⟩⟩
    | next h => cases h₁.symm.trans h
  | next h₁ _ ih =>
    cases h with
    | start => cases h₁.symm.trans hsettled
    | stop h => cases h₁.symm.trans h
    | last h => cases h₁.symm.trans h
    | next h hrest =>
      cases h₁.symm.trans h
      obtain ⟨hpre, hfull⟩ := ih hrest hsettled
      refine ⟨List.cons_prefix_cons.mpr ⟨rfl, hpre⟩, fun hwait => ?_⟩
      obtain ⟨rfl, rfl⟩ := hfull hwait
      exact ⟨rfl, rfl⟩

/-- What is left of a stream is no longer than the stream. -/
theorem Receives.length_le (h : F.Receives s q es (some (s', q'))) : q'.length ≤ q.length := by
  generalize hrest : some (s', q') = rest at h
  induction h with
  | start s q =>
    cases hrest
    exact le_rfl
  | stop _ => cases hrest
  | last _ => cases hrest
  | next _ _ ih =>
    have hle := ih hrest
    rw [List.length_drop] at hle
    omega

/-! ## All of a stream -/

/-- The events of a stream, by steps as many as it has elements. -/
def drain (F : Framing α σ ε) : ℕ → σ → List α → List ε
  | 0, _, _ => []
  | fuel + 1, s, q =>
    match F.look s q with
    | .wait => []
    | .stop => []
    | .message _ e none => [e]
    | .message n e (some s') => e :: drain F fuel s' (q.drop n)

/-- Everything that a receiver makes of a stream. -/
def events (F : Framing α σ ε) (s : σ) (q : List α) : List ε := F.drain (q.length + 1) s q

theorem exists_receives_drain (fuel : ℕ) (s : σ) (q : List α) (hfuel : q.length < fuel) :
    ∃ rest, F.Receives s q (F.drain fuel s q) rest ∧ F.Settled rest := by
  induction fuel generalizing s q with
  | zero => exact absurd hfuel (Nat.not_lt_zero _)
  | succ fuel ih =>
    rw [drain]
    cases hlook : F.look s q with
    | wait => exact ⟨_, .start s q, hlook⟩
    | stop => exact ⟨_, .stop hlook, trivial⟩
    | message n e next =>
      cases next with
      | none => exact ⟨_, .last hlook, trivial⟩
      | some s' =>
        obtain ⟨hpos, hle⟩ := F.look_message hlook
        obtain ⟨rest, hrest, hsettled⟩ := ih s' (q.drop n) (by rw [List.length_drop]; omega)
        exact ⟨rest, .next hlook hrest, hsettled⟩

/-- The events of a stream are what is made of it in full. -/
theorem exists_receives_events (F : Framing α σ ε) (s : σ) (q : List α) :
    ∃ rest, F.Receives s q (F.events s q) rest ∧ F.Settled rest :=
  exists_receives_drain _ s q (Nat.lt_succ_self _)

/-- What is made of a part of a stream comes first among its events. -/
theorem Receives.prefix_events (h : F.Receives s q es rest) : es <+: F.events s q := by
  obtain ⟨rest', h', hsettled⟩ := F.exists_receives_events s q
  exact (h'.unique hsettled h).1

/-- What is made of a stream in full is its events. -/
theorem Receives.eq_events (h : F.Receives s q es rest) (hsettled : F.Settled rest) :
    es = F.events s q := by
  obtain ⟨rest', h', hsettled'⟩ := F.exists_receives_events s q
  exact ((h'.unique hsettled' h).2 hsettled).1

theorem events_of_wait (h : F.look s q = .wait) : F.events s q = [] :=
  ((Receives.start s q).eq_events h).symm

theorem events_of_stop (h : F.look s q = .stop) : F.events s q = [] :=
  ((Receives.stop h).eq_events trivial).symm

theorem events_of_last {n : ℕ} {e : ε} (h : F.look s q = .message n e none) :
    F.events s q = [e] :=
  ((Receives.last h).eq_events trivial).symm

theorem events_of_next {n : ℕ} {e : ε} (h : F.look s q = .message n e (some s')) :
    F.events s q = e :: F.events s' (q.drop n) := by
  obtain ⟨rest, hrest, hsettled⟩ := F.exists_receives_events s' (q.drop n)
  exact ((Receives.next h hrest).eq_events hsettled).symm

/-! ## Texts that are cut -/

/-- A text is sent for one message: a message at its start takes all of it, and where the text does not
make a message, nothing behind it does. -/
structure Whole (F : Framing α σ ε) (s : σ) (m : List α) : Prop where
  length_eq {n : ℕ} {e : ε} {next : Option σ} (h : F.look s m = .message n e next) : n = m.length
  look_append (h : F.look s m = .wait) (l : List α) : F.look s (m ++ l) = .wait

variable {m : List α}

/-- Nothing happens at a text that is cut. -/
theorem Whole.events_of_cut (h : F.Whole s m) {d : List α} (hd : d <+: m) (hne : d ≠ m) :
    F.events s d = [] := by
  cases hlook : F.look s d with
  | wait => exact events_of_wait hlook
  | stop => exact events_of_stop hlook
  | message n e next =>
    exfalso
    obtain ⟨l, rfl⟩ := hd
    have hn := h.length_eq ((F.look_append l (by rw [hlook]; simp)).trans hlook)
    have hle := (F.look_message hlook).2
    rw [List.length_append] at hn
    obtain rfl : l = [] := List.eq_nil_of_length_eq_zero (by omega)
    exact hne (List.append_nil d).symm

/-- Behind texts that are sent for one message each, nothing happens at one that is cut. -/
theorem events_append_of_cut {ms : List (List α)} (hms : ∀ m ∈ ms, ∀ s, F.Whole s m)
    (h : ∀ s, F.Whole s m) {d : List α} (hd : d <+: m) (hne : d ≠ m) (s : σ) :
    F.events s (ms.flatten ++ d) = F.events s ms.flatten := by
  induction ms generalizing s with
  | nil =>
    have hnil : F.events s [] = [] := by
      refine (h s).events_of_cut List.nil_prefix ?_
      rintro rfl
      exact hne (List.prefix_nil.mp hd)
    rw [List.flatten_nil, List.nil_append, (h s).events_of_cut hd hne, hnil]
  | cons m' ms ih =>
    have hwhole := hms m' List.mem_cons_self s
    have hrest := ih fun m hm => hms m (List.mem_cons_of_mem _ hm)
    rw [List.flatten_cons, List.append_assoc]
    cases hlook : F.look s m' with
    | wait =>
      rw [events_of_wait (hwhole.look_append hlook _), events_of_wait (hwhole.look_append hlook _)]
    | stop =>
      have hstop (l : List α) : F.look s (m' ++ l) = .stop :=
        (F.look_append l (by rw [hlook]; simp)).trans hlook
      rw [events_of_stop (hstop _), events_of_stop (hstop _)]
    | message n e next =>
      obtain rfl := hwhole.length_eq hlook
      have hmessage (l : List α) : F.look s (m' ++ l) = .message m'.length e next :=
        (F.look_append l (by rw [hlook]; simp)).trans hlook
      cases next with
      | none => rw [events_of_last (hmessage _), events_of_last (hmessage _)]
      | some s' =>
        rw [events_of_next (hmessage _), events_of_next (hmessage _), List.drop_left,
          List.drop_left, hrest]

end Framing

/-! ## A slow receiver -/

/-- The number of messages handled after a number of pieces, when each piece lets one be handled if
there is one: `c` counts the messages that are complete. -/
def served (c : ℕ → ℕ) : ℕ → ℕ
  | 0 => 0
  | j + 1 => min (c (j + 1)) (served c j + 1)

theorem served_congr {c c' : ℕ → ℕ} {n : ℕ} (h : ∀ j ≤ n, c j = c' j) : served c n = served c' n := by
  induction n with
  | zero => rfl
  | succ n ih => rw [served, served, h (n + 1) le_rfl, ih fun j hj => h j (by omega)]

/-- Between two pieces a slow receiver handles one message for each piece at most. -/
theorem served_le_add (c : ℕ → ℕ) (n k : ℕ) : served c (n + k) ≤ c n + k := by
  induction k with
  | zero =>
    cases n with
    | zero => exact Nat.zero_le _
    | succ n => exact min_le_left _ _
  | succ k ih =>
    have hstep : served c (n + (k + 1)) ≤ served c (n + k) + 1 := min_le_right _ _
    omega

/-- A slow receiver has handled everything exactly when no run of last pieces completes more messages
than there are pieces in it. -/
theorem served_eq_iff (c : ℕ → ℕ) (hzero : c 0 = 0) (n : ℕ) :
    served c n = c n ↔ ∀ k ≤ n, c n ≤ c (n - k) + k := by
  constructor
  · intro h k hk
    have hle := served_le_add c (n - k) k
    rw [Nat.sub_add_cancel hk] at hle
    omega
  · intro h
    -- What is left to be handled fits the pieces that are left.
    have hslack (j : ℕ) (hj : j ≤ n) : c n ≤ served c j + (n - j) := by
      induction j with
      | zero =>
        have := h n le_rfl
        rw [Nat.sub_self, hzero] at this
        rw [served]
        omega
      | succ j ih =>
        have hprev := ih (by omega)
        have hlast := h (n - (j + 1)) (Nat.sub_le _ _)
        rw [Nat.sub_sub_self hj] at hlast
        rw [served]
        omega
    have hle := served_le_add c n 0
    have hge := hslack n le_rfl
    rw [Nat.sub_self] at hge
    exact le_antisymm hle hge

end AnyRpc.Library
