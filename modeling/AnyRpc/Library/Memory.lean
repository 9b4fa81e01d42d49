import Mathlib.Data.List.TakeDrop

/-! # Memory

A block of memory is a list of cells. Storing replaces a run of cells from an index on, and a window
is the run of cells that is read back. Nothing here checks bounds: the lemmas that need them say so.
-/

namespace AnyRpc.Library

variable {α : Type}

/-- Memory whose cells have a value once they are written. -/
abbrev Cells (α : Type) := List (Option α)

/-- The cells of a block from an index on. -/
def window (m : List α) (i n : ℕ) : List α := (m.drop i).take n

/-- The block with other cells from an index on. -/
def overwrite (m : List α) (i : ℕ) (l : List α) : List α :=
  m.take i ++ l ++ m.drop (i + l.length)

/-- A write within the memory keeps its size. -/
theorem length_overwrite {m l : List α} {i : ℕ} (h : i + l.length ≤ m.length) :
    (overwrite m i l).length = m.length := by
  simp only [overwrite, List.length_append, List.length_take, List.length_drop]
  omega

/-- A window within the memory. -/
theorem length_window {m : List α} {i n : ℕ} (h : i + n ≤ m.length) :
    (window m i n).length = n := by
  simp only [window, List.length_take, List.length_drop]
  omega

/-- A window from the start on. -/
@[simp] theorem window_zero_left (m : List α) (n : ℕ) : window m 0 n = m.take n := rfl

/-- An empty window. -/
@[simp] theorem window_zero (m : List α) (i : ℕ) : window m i 0 = [] := List.take_zero

/-- Nothing is written. -/
@[simp] theorem overwrite_nil (m : List α) (i : ℕ) : overwrite m i [] = m := by
  simp [overwrite]

/-- Two windows side by side. -/
theorem window_add (m : List α) (i n k : ℕ) :
    window m i (n + k) = window m i n ++ window m (i + n) k := by
  rw [window, window, window, List.take_add, List.drop_drop]

/-- A window of what a window leaves. -/
theorem drop_window (m : List α) (i n k : ℕ) : (window m i n).drop k = window m (i + k) (n - k) := by
  rw [window, window, List.drop_take, List.drop_drop]

/-- The start of a window. -/
theorem take_window (m : List α) (i : ℕ) {n k : ℕ} (h : k ≤ n) :
    (window m i n).take k = window m i k := by
  rw [window, window, List.take_take, Nat.min_eq_left h]

/-- What is stored is read back. -/
theorem window_overwrite_self {m l : List α} {i : ℕ} (h : i ≤ m.length) :
    window (overwrite m i l) i l.length = l := by
  have hlength : (m.take i).length = i := List.length_take_of_le h
  rw [window, overwrite, List.append_assoc, List.drop_append_of_le_length (by omega),
    List.drop_of_length_le (by omega), List.nil_append, List.take_left]

/-- Storing leaves the cells before alone. -/
theorem window_overwrite_before {m l : List α} {i j n : ℕ} (hi : i ≤ m.length) (h : j + n ≤ i) :
    window (overwrite m i l) j n = window m j n := by
  have hlength : (m.take i).length = i := List.length_take_of_le hi
  rw [window, window, overwrite, List.append_assoc, List.drop_append_of_le_length (by omega),
    List.take_append_of_le_length (by rw [List.length_drop]; omega), List.drop_take,
    List.take_take, Nat.min_eq_left (by omega)]

/-- Storing leaves the cells behind alone. -/
theorem window_overwrite_after {m l : List α} {i j n : ℕ} (hi : i ≤ m.length)
    (h : i + l.length ≤ j) : window (overwrite m i l) j n = window m j n := by
  have hlength : (m.take i ++ l).length = i + l.length := by
    rw [List.length_append, List.length_take_of_le hi]
  obtain ⟨k, rfl⟩ := Nat.exists_eq_add_of_le h
  rw [window, window, overwrite, ← List.drop_drop, ← hlength, List.drop_left, List.drop_drop]

/-- What stands before an index, after storing there. -/
theorem take_overwrite {m l : List α} {i : ℕ} (h : i ≤ m.length) :
    (overwrite m i l).take (i + l.length) = m.take i ++ l := by
  have hlength : (m.take i ++ l).length = i + l.length := by
    rw [List.length_append, List.length_take_of_le h]
  rw [overwrite, ← hlength, List.take_left]

end AnyRpc.Library
