import AnyRpc.Library.StateError
import AnyRpc.Value.Basic

/-! # Handlers

A reader, or the traversal of a value, calls the functions of a `Handler`. A call is an `Event`, and
a handler is what it does to the state of an object on each of them. -/

namespace AnyRpc

/-- The calls that deliver a value which is neither a map nor an array. -/
inductive Scalar where
  | null
  | boolTrue
  | boolFalse
  | dateTime (dt : ℤ)
  | string (str : StrArg)
  | binary (str : StrArg)
  | int (i : BitVec 32)
  | uint (u : BitVec 32)
  | int64 (i64 : BitVec 64)
  | uint64 (u64 : BitVec 64)
  /-- A `float`, by its bits. -/
  | float (f : BitVec 32)
  /-- A `double`, by its bits. -/
  | double (d : BitVec 64)
  deriving DecidableEq, Repr

/-- The calls of the `Handler` interface. `StartMap` and `StartArray` exist with and without the
number of members or elements. -/
inductive Event where
  | scalar (s : Scalar)
  | startMap (memberCount : Option ℕ)
  | key (str : StrArg)
  | mapSeparator
  | endMap (memberCount : ℕ)
  | startArray (elementCount : Option ℕ)
  | arraySeparator
  | endArray (elementCount : ℕ)
  deriving DecidableEq, Repr

/-- An object that handles the calls. -/
class Handler (σ : Type) where
  /-- What one call does. -/
  handle : Event → Exec σ Unit
  /-- `StartDocument`. -/
  startDocument : σ → σ := id
  /-- `EndDocument`. -/
  endDocument : σ → σ := id

namespace Handler

variable {σ : Type} [Handler σ]

/-- A sequence of calls, up to the first one that faults. -/
def run : List Event → Exec σ Unit
  | [] => pure ()
  | e :: es => do
    handle e
    run es

@[simp] theorem run_nil : (run [] : Exec σ Unit) = pure () := rfl

theorem run_cons (e : Event) (es : List Event) :
    (run (e :: es) : Exec σ Unit) = (do handle e; run es) := rfl

@[simp] theorem run_singleton (e : Event) : (run [e] : Exec σ Unit) = handle e := by
  rw [run_cons, run_nil, bind_pure_unit]

/-- A sequence of calls in two parts. -/
theorem run_append (es fs : List Event) :
    (run (es ++ fs) : Exec σ Unit) = (do run es; run fs) := by
  induction es with
  | nil => simp
  | cons e es ih => rw [List.cons_append, run_cons, run_cons, ih, bind_assoc]

/-- The outcome of a sequence of calls. -/
def deliver (es : List Event) (s : σ) : Except Fault σ := Library.outcome (run es) s

@[simp] theorem deliver_nil (s : σ) : deliver [] s = .ok s := rfl

theorem deliver_cons (e : Event) (es : List Event) (s : σ) :
    deliver (e :: es) s = (Library.outcome (handle e) s).bind (deliver es) :=
  Library.outcome_seq _ _ s

/-- The outcome of a sequence of calls in two parts. -/
theorem deliver_append (es fs : List Event) (s : σ) :
    deliver (es ++ fs) s = (deliver es s).bind (deliver fs) := by
  rw [deliver, run_append, Library.outcome_seq]
  rfl

theorem deliver_singleton (e : Event) (s : σ) :
    deliver [e] s = Library.outcome (handle e) s := by
  rw [deliver, run_singleton]

/-- A fault within a sequence is the outcome of every longer one. -/
theorem deliver_append_of_error {es : List Event} {s : σ} {f : Fault}
    (h : deliver es s = .error f) (fs : List Event) : deliver (es ++ fs) s = .error f := by
  rw [deliver_append, h]
  rfl

/-- After a sequence that returns, the rest is delivered to the state reached. -/
theorem deliver_append_of_ok {es : List Event} {s s' : σ} (h : deliver es s = .ok s')
    (fs : List Event) : deliver (es ++ fs) s = deliver fs s' := by
  rw [deliver_append, h]
  rfl

end Handler

/-! ## Traversal -/

namespace Value

open Handler

variable {σ : Type} [Handler σ]

/-- The call for a number: the first of the integer types that the flags allow, in the order
`Int`, `Uint`, `Int64`, `Uint64`, before `Double` and `Float`. -/
def numberScalar (n : Number) : Scalar :=
  if n.isInt then .int (n.data.setWidth 32)
  else if n.isUint then .uint (n.data.setWidth 32)
  else if n.isInt64 then .int64 n.data
  else if n.isUint64 then .uint64 n.data
  else if n.isDouble then .double n.data
  else .float (n.data.setWidth 32)

mutual

/-- `TraverseInternal`. -/
def traverse : Value → Exec σ Unit
  | invalid => anyrpcThrow ErrorCode.accessInvalidValue (ascii "Invalid type during traverse")
  | null => handle (.scalar .null)
  | bool false => handle (.scalar .boolFalse)
  | bool true => handle (.scalar .boolTrue)
  | number n => handle (.scalar (numberScalar n))
  | dateTime dt => handle (.scalar (.dateTime dt))
  | string s => handle (.scalar (.string { bytes := s }))
  | binary s => handle (.scalar (.binary { bytes := s }))
  | array es _ => do
    handle (.startArray (some es.length))
    traverseElements es
    handle (.endArray es.length)
  | map ms _ => do
    handle (.startMap (some ms.length))
    traverseMembers ms
    handle (.endMap ms.length)

/-- The loop over the elements, with a separator after all but the last one. -/
def traverseElements : List Value → Exec σ Unit
  | [] => pure ()
  | v :: vs => do
    traverse v
    if vs.isEmpty then pure () else handle .arraySeparator
    traverseElements vs

/-- The loop over the members, with a separator after all but the last one. -/
def traverseMembers : List (Bytes × Value) → Exec σ Unit
  | [] => pure ()
  | (k, v) :: ms => do
    handle (.key { bytes := k })
    traverse v
    if ms.isEmpty then pure () else handle .mapSeparator
    traverseMembers ms

end

end Value

end AnyRpc
