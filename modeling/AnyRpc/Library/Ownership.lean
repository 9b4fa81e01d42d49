import Mathlib.Logic.Function.Basic
import Mathlib.Logic.Relation

/-! # Who owns a resource

Resources that one thread creates and discards, and that it hands over to others by way of a queue.
At each time a resource has one owner: what is owned by the queue, or by a worker, is not discarded. -/

namespace AnyRpc.Library

/-- The owner of a resource: the thread that creates and discards resources, the queue between the
threads, or one of the workers. -/
inductive Owner (ι : Type*) where
  | root
  | queue
  | worker (w : ι)
  deriving DecidableEq

variable {α ι : Type*} [DecidableEq α]

/-- One step of the resources, of which `o a` is the owner as long as there is the resource `a`. -/
inductive Handover : (α → Option (Owner ι)) → (α → Option (Owner ι)) → Prop
  | create {o : α → Option (Owner ι)} {a : α} (h : o a = none) :
      Handover o (Function.update o a (some .root))
  | enqueue {o : α → Option (Owner ι)} {a : α} (h : o a = some .root) :
      Handover o (Function.update o a (some .queue))
  | take {o : α → Option (Owner ι)} {a : α} (w : ι) (h : o a = some .queue) :
      Handover o (Function.update o a (some (.worker w)))
  | giveBack {o : α → Option (Owner ι)} {a : α} (w : ι) (h : o a = some (.worker w)) :
      Handover o (Function.update o a (some .root))
  | discard {o : α → Option (Owner ι)} {a : α} (h : o a = some .root) :
      Handover o (Function.update o a none)

/-- A resource that is discarded was owned by the thread that discards it. -/
theorem Handover.owner_of_discarded {o o' : α → Option (Owner ι)} (h : Handover o o') {a : α}
    (ha : o a ≠ none) (ha' : o' a = none) : o a = some .root := by
  cases h with
  | @create b h =>
    by_cases hab : a = b
    · rw [hab] at ha
      exact absurd h ha
    · rw [Function.update_of_ne hab] at ha'
      exact absurd ha' ha
  | @enqueue b h | @take b w h | @giveBack b w h =>
    by_cases hab : a = b
    · rw [hab, Function.update_self] at ha'
      cases ha'
    · rw [Function.update_of_ne hab] at ha'
      exact absurd ha' ha
  | @discard b h =>
    by_cases hab : a = b
    · rw [hab]
      exact h
    · rw [Function.update_of_ne hab] at ha'
      exact absurd ha' ha

end AnyRpc.Library
