import AnyRpc.Library.Hoare
import AnyRpc.Connection.Process

/-! # Rules for connections

What the parts of a connection guarantee, as rules for pre- and postconditions: for a store, for
`Receive`, and for the loop of `Process`, whose invariant is kept when each of the functions keeps it
in the state that it is called in. -/

namespace AnyRpc

open Library

namespace ServerConnection

variable {ρ ω ε : Type} {s : ServerConnection ρ ω ε}

/-! ## Stores -/

/-- A store that lies inside its block. -/
theorem wp_store {f : MessageBuffer → Option MessageBuffer} {m : MessageBuffer}
    {Q : Unit → ServerConnection ρ ω ε → Prop} {E : Stop → ServerConnection ρ ω ε → Prop}
    (h : f s.message = some m) : wp (store f) Q E s ↔ Q () { s with message := m } := by
  simp only [wp, store, h]

/-- A store that returns has changed the buffer. -/
theorem wp_store_any {f : MessageBuffer → Option MessageBuffer}
    {Q : Unit → ServerConnection ρ ω ε → Prop} {E : Stop → ServerConnection ρ ω ε → Prop}
    (hQ : ∀ message, Q () { s with message }) (hE : E .outOfBounds s) : wp (store f) Q E s := by
  unfold wp store
  cases f s.message with
  | none => exact hE
  | some m => exact hQ m

/-- `Receive` waits, or hands over the beginning of what is unread. -/
theorem wp_receive {storeAt : Bytes → MessageBuffer → Option MessageBuffer} {maxLength : ℕ}
    {Q : Received → ServerConnection ρ ω ε → Prop} {E : Stop → ServerConnection ρ ω ε → Prop}
    (hpending : s.incoming.receive maxLength 0 = none → E .pending s)
    (hstore : ∀ r incoming, s.incoming.receive maxLength 0 = some (r, incoming) →
      Incoming.Outcome maxLength s.incoming r incoming → ∃ m,
        (if r.data = [] then some s.message else storeAt (r.data ++ [0]) s.message) = some m ∧
          Q r { s with
            incoming
            message := m
            received := if r.success then s.received ++ [r.data] else s.received }) :
    wp (receive storeAt maxLength) Q E s := by
  rw [receive, wp_bind, wp_get]
  cases hreceive : s.incoming.receive maxLength 0 with
  | none => exact hpending hreceive
  | some result =>
    obtain ⟨r, incoming⟩ := result
    obtain ⟨m, hm, hQ⟩ := hstore r incoming hreceive (Incoming.receive_outcome hreceive)
    simp only [wp_bind, wp_modify]
    rw [wp_store (m := m) hm]
    exact hQ

/-! ## The loop of `Process` -/

section

variable [Transport ρ] {readHeader executeRequest : ConnectionM ρ ω ε Bool}
  {I J : ServerConnection ρ ω ε → Prop} {E : Stop → ServerConnection ρ ω ε → Prop}

/-- What is guaranteed by a function that `Process` calls in one state: it keeps the invariant `I`,
or fails with `J`. -/
def KeptIn (I J : ServerConnection ρ ω ε → Prop) (E : Stop → ServerConnection ρ ω ε → Prop)
    (state : ConnectionState) (f : ConnectionM ρ ω ε Bool) : Prop :=
  ∀ s, I s → s.connectionState = state →
    wp f (fun success s' => if success then I s' else J s') E s

omit [Transport ρ] in
theorem wp_guarded {state : ConnectionState} {condition : Bool} {f : ConnectionM ρ ω ε Bool}
    (hf : KeptIn I J E state f) (hs : I s) (hcond : condition = true → s.connectionState = state) :
    wp (processState.guarded condition f) (fun success s' => if success then I s' else J s') E s := by
  rw [processState.guarded, wp_ite]
  exact ⟨fun h => hf s hs (hcond h), fun _ => hs⟩

omit [Transport ρ] in
theorem wp_inState {state : ConnectionState} {f : ConnectionM ρ ω ε Bool}
    (hf : KeptIn I J E state f) (hs : I s) :
    wp (processState.inState state f) (fun success s' => if success then I s' else J s') E s := by
  rw [processState.inState, wp_bind, wp_get]
  exact wp_guarded hf hs of_decide_eq_true

/-- A round of the loop keeps the invariant. -/
theorem wp_processState (hheader : KeptIn I J E .readHeader readHeader)
    (hrequest : KeptIn I J E .readRequest readRequest)
    (hexecute : KeptIn I J E .executeRequest executeRequest)
    (hwrite : KeptIn I J E .writeResponse writeResponse)
    (hclose : ∀ s, J s → I { s with connectionState := .closeConnection })
    (executeAfterRead : Bool) (hs : I s) :
    wp (processState readHeader executeRequest executeAfterRead) (fun _ => I) E s := by
  -- A function that fails is followed by `close`, and one that does not by the rest of the round.
  have hnext {p : ConnectionM ρ ω ε Bool} {success : Bool} {s' : ServerConnection ρ ω ε}
      (h : if success then I s' else J s') (hp : I s' → wp p (fun _ => I) E s') :
      wp (if !success then processState.close else p) (fun _ => I) E s' := by
    cases success with
    | true => exact hp h
    | false => exact hclose s' h
  unfold processState
  refine wp_seq (wp_inState hheader hs) fun ok s₁ h₁ => hnext h₁ fun h₁ => ?_
  refine wp_seq (wp_inState hrequest h₁) fun ok s₂ h₂ => hnext h₂ fun h₂ => ?_
  rw [wp_bind, wp_get]
  have hexecuting (h : (executeAfterRead && decide (s₂.connectionState = .executeRequest)) = true) :
      s₂.connectionState = .executeRequest := by
    rw [Bool.and_eq_true, decide_eq_true_eq] at h
    exact h.2
  refine wp_seq (wp_guarded hexecute h₂ hexecuting) fun ok s₃ h₃ => hnext h₃ fun h₃ => ?_
  rw [wp_bind, wp_get]
  refine wp_seq (wp_inState hwrite h₃) fun ok s₄ h₄ => hnext h₄ fun h₄ => ?_
  rw [wp_ite]
  exact ⟨fun _ => h₄, fun _ => h₄⟩

/-- The loop keeps the invariant. -/
theorem wp_processLoop {executeAfterRead : Bool}
    (hstate : ∀ s, I s → wp (processState readHeader executeRequest executeAfterRead)
      (fun _ => I) E s)
    (hpending : ∀ s, I s → E .pending s) (fuel : ℕ) (hs : I s) :
    wp (processLoop readHeader executeRequest executeAfterRead fuel) (fun _ => I) E s := by
  induction fuel generalizing s with
  | zero => exact hpending s hs
  | succ fuel ih =>
    rw [processLoop]
    refine wp_seq (hstate s hs) fun again s' h' => ?_
    cases again with
    | true => exact ih h'
    | false => exact h'

end

/-- A sequence of calls of `Process`, each with its `executeAfterRead`. -/
def serve (process : Bool → ConnectionM ρ ω ε Unit) : List Bool → ConnectionM ρ ω ε Unit
  | [] => pure ()
  | executeAfterRead :: calls => do
    process executeAfterRead
    serve process calls

/-- A sequence of calls keeps what one call keeps. -/
theorem wp_serve {I : ServerConnection ρ ω ε → Prop} {E : Stop → ServerConnection ρ ω ε → Prop}
    {process : Bool → ConnectionM ρ ω ε Unit}
    (hprocess : ∀ executeAfterRead s, I s → wp (process executeAfterRead) (fun _ => I) E s)
    (calls : List Bool) (hs : I s) : wp (serve process calls) (fun _ => I) E s := by
  induction calls generalizing s with
  | nil => exact hs
  | cons executeAfterRead calls ih =>
    rw [serve]
    exact wp_seq (hprocess executeAfterRead s hs) fun _ _ h => ih h

end ServerConnection

end AnyRpc
