import AnyRpc.Library.Framing
import AnyRpc.Connection.Contents
import AnyRpc.Connection.Wire

/-! # What a connection makes of a stream

A connection is to cut the stream that its peer sends into requests and to execute them in order; this
is a framing of the stream (`Service.framing`). The invariant says how far a connection is with it:
what was received is made into events, as far as these are executed and answered, and a rest, which
the members of the connection describe in the way that belongs to its state. -/

namespace AnyRpc

open Library

/-- What is found at the start of a message. -/
inductive Head (ρ : Type) where
  | incomplete
  | fault
  | complete (bodyStart contentLength : ℕ) (keepAlive : Bool) (derived : ρ)

/-- What the execution of a request leads to. -/
structure Execution (ρ ω ε : Type) where
  record : ε
  /-- Header and body of the response, if there is one. -/
  output : Option (WriteSegmentedStream × WriteSegmentedStream)
  derived : ρ
  world : ω

/-- What the derived classes of `Connection` are to do with requests: what they find in a header, and
how they execute a request. `Seen fresh derived q` says that the members are `derived`, after they
were `fresh` before a part of `q`. -/
structure Service (ρ ω ε : Type) [Transport ρ] where
  head : ρ → Bytes → Head ρ
  execute : ρ → Bool → Bytes → ω → Option (Execution ρ ω ε)
  Seen : ρ → ρ → Bytes → Prop
  head_nil (d : ρ) : head d [] = .incomplete
  bodyStart_le {d d' : ρ} {q : Bytes} {b n : ℕ} {k : Bool} (h : head d q = .complete b n k d') :
    0 < b ∧ b ≤ q.length
  head_append {d : ρ} {q : Bytes} (l : Bytes) (h : head d q ≠ .incomplete) :
    head d (q ++ l) = head d q
  seen_initializeData (d : ρ) (q : Bytes) :
    Seen (Transport.initializeData d) (Transport.initializeData d) q
  output_clear {d : ρ} {k : Bool} {request : Bytes} {w : ω} {x : Execution ρ ω ε}
    {header response : WriteSegmentedStream} (h : execute d k request w = some x)
    (houtput : x.output = some (header, response)) :
    header.clear = .newDefault ∧ response.clear = .newDefault

namespace Service

variable {ρ ω ε : Type} [Transport ρ] (S : Service ρ ω ε)

/-- What follows from the bytes of a message: an event is a request that is executed, with what is
sent for it. -/
def look (σ : ρ × ω) (q : Bytes) : Look (ρ × ω) (ε × Bytes) :=
  match S.head σ.1 (q.take maxBufferLength) with
  | .incomplete => .wait
  | .fault => .stop
  | .complete b n keepAlive d =>
    if maxContentLength < n then .stop
    else if q.length < b + n then .wait
    else
      match S.execute d keepAlive ((q.drop b).take n) σ.2 with
      | none => .stop
      | some x => .message (b + n) (x.record, responseWire x.output)
          (if x.output.isSome && !keepAlive then none
            else some (Transport.initializeData x.derived, x.world))

variable {S} {σ : ρ × ω} {q : Bytes}

theorem head_take {l : Bytes} (h : S.head σ.1 (q.take maxBufferLength) ≠ .incomplete) :
    S.head σ.1 ((q ++ l).take maxBufferLength) = S.head σ.1 (q.take maxBufferLength) := by
  rw [List.take_append]
  exact S.head_append _ h

/-- The header of a message stays what it is, when more is received behind it. -/
theorem head_of_append {l : Bytes} {r : Head ρ} (h : S.head σ.1 (q.take maxBufferLength) = r)
    (hr : r ≠ .incomplete) : S.head σ.1 ((q ++ l).take maxBufferLength) = r := by
  rw [head_take (by rw [h]; exact hr), h]

/-- The framing of a stream into requests. -/
def framing (S : Service ρ ω ε) : Framing UInt8 (ρ × ω) (ε × Bytes) where
  look := S.look
  look_message {σ q n e next} h := by
    unfold look at h
    cases hhead : S.head σ.1 (q.take maxBufferLength) with
    | incomplete =>
      rw [hhead] at h
      cases h
    | fault =>
      rw [hhead] at h
      cases h
    | complete b n k d =>
      rw [hhead] at h
      simp only at h
      obtain ⟨hpos, -⟩ := S.bodyStart_le hhead
      split at h
      · cases h
      · split at h
        · cases h
        · split at h
          · cases h
          · cases h
            omega
  look_append {σ q} l h := by
    unfold look at h ⊢
    have hne : S.head σ.1 (q.take maxBufferLength) ≠ .incomplete := by
      intro hhead
      rw [hhead] at h
      exact h rfl
    rw [head_take hne]
    cases hhead : S.head σ.1 (q.take maxBufferLength) with
    | incomplete => exact absurd hhead hne
    | fault => rfl
    | complete b n k d =>
      rw [hhead] at h
      simp only at h ⊢
      by_cases hmax : maxContentLength < n
      · rw [if_pos hmax, if_pos hmax]
      · rw [if_neg hmax] at h ⊢
        rw [if_neg hmax]
        by_cases hshort : q.length < b + n
        · rw [if_pos hshort] at h
          exact absurd rfl h
        · have hlong : ¬ (q ++ l).length < b + n := by
            rw [List.length_append]
            omega
          rw [if_neg hshort, if_neg hlong, List.drop_append_of_le_length (by omega),
            List.take_append_of_le_length (by rw [List.length_drop]; omega)]

end Service

end AnyRpc
