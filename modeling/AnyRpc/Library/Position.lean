import Mathlib.Data.Nat.Notation

/-! # Positions in nested data

A type whose values have children at natural-number indices, and the access to a value below a root
through the list of indices that leads to it. Replacing what stands at a position is a lens: what
was put is read back, a second replacement hides the first, and replacing below a position is
replacing the value at that position. -/

namespace AnyRpc.Library

/-- Values with replaceable children. -/
class Nested (α : Type) where
  /-- The child at an index, where there is one. -/
  child? : α → ℕ → Option α
  /-- The value with another child at an index. -/
  setChild : α → ℕ → α → α
  child?_setChild {a b : α} {i : ℕ} (x : α) (h : child? a i = some b) :
    child? (setChild a i x) i = some x
  setChild_setChild (a : α) (i : ℕ) (x y : α) :
    setChild (setChild a i x) i y = setChild a i y
  setChild_child? {a b : α} {i : ℕ} (h : child? a i = some b) : setChild a i b = a

/-- A position below a root, outermost index first. -/
abbrev Path := List ℕ

namespace Nested

variable {α : Type} [Nested α]

/-- The value at a position. -/
def get? : Path → α → Option α
  | [], a => some a
  | i :: p, a => (child? a i).bind (get? p)

/-- The root with another value at a position; unchanged where the position does not exist. -/
def put : Path → α → α → α
  | [], _, x => x
  | i :: p, a, x =>
    match child? a i with
    | some b => setChild a i (put p b x)
    | none => a

@[simp] theorem get?_nil (a : α) : get? [] a = some a := rfl

@[simp] theorem put_nil (a x : α) : put [] a x = x := rfl

/-- Replacing at a position that starts at an existing child. -/
theorem put_cons {a b : α} {i : ℕ} (h : child? a i = some b) (p : Path) (x : α) :
    put (i :: p) a x = setChild a i (put p b x) := by
  simp only [put, h]

/-- Nothing is replaced where there is no child. -/
theorem put_cons_of_none {a : α} {i : ℕ} (h : child? a i = none) (p : Path) (x : α) :
    put (i :: p) a x = a := by
  simp only [put, h]

/-- What was put at an existing position is found there. -/
theorem get?_put {p : Path} {a b : α} (h : get? p a = some b) (x : α) :
    get? p (put p a x) = some x := by
  induction p generalizing a with
  | nil => rfl
  | cons i p ih =>
    rw [get?] at h
    cases hc : child? a i with
    | none =>
      rw [hc] at h
      cases h
    | some c =>
      rw [hc] at h
      rw [put_cons hc, get?, child?_setChild _ hc]
      exact ih h

/-- The second replacement at a position hides the first. -/
theorem put_put (p : Path) (a x y : α) : put p (put p a x) y = put p a y := by
  induction p generalizing a with
  | nil => rfl
  | cons i p ih =>
    cases hc : child? a i with
    | none => rw [put_cons_of_none hc p x]
    | some c =>
      rw [put_cons hc, put_cons hc, put_cons (child?_setChild _ hc), setChild_setChild, ih]

/-- Putting back what stands at a position changes nothing. -/
theorem put_get? {p : Path} {a b : α} (h : get? p a = some b) : put p a b = a := by
  induction p generalizing a with
  | nil => exact Option.some.inj h.symm
  | cons i p ih =>
    rw [get?] at h
    cases hc : child? a i with
    | none => rw [put_cons_of_none hc]
    | some c =>
      rw [hc] at h
      rw [put_cons hc, ih h, setChild_child? hc]

/-- A position is reached in two stages. -/
theorem get?_append (p q : Path) (a : α) : get? (p ++ q) a = (get? p a).bind (get? q) := by
  induction p generalizing a with
  | nil => rfl
  | cons i p ih =>
    rw [List.cons_append, get?, get?]
    cases child? a i with
    | none => rfl
    | some c => exact ih c

/-- Replacing below a position is replacing the value at that position. -/
theorem put_append {p : Path} {a b : α} (h : get? p a = some b) (q : Path) (x : α) :
    put (p ++ q) a x = put p a (put q b x) := by
  induction p generalizing a with
  | nil =>
    cases h
    rfl
  | cons i p ih =>
    rw [get?] at h
    cases hc : child? a i with
    | none =>
      rw [hc] at h
      cases h
    | some c =>
      rw [hc] at h
      rw [List.cons_append, put_cons hc, put_cons hc, ih h]

end Nested

end AnyRpc.Library
