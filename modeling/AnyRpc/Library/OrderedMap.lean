import Mathlib.Data.List.Nodup

/-! # Ordered maps

A finite map as the list of its entries in the order of their first insertion. Putting a key replaces
its value where it stands, or adds the entry behind the others. -/

namespace AnyRpc.Library.OrderedMap

variable {α β γ : Type}

/-- The keys in order. -/
def keys (l : List (α × β)) : List α := l.map Prod.fst

@[simp] theorem keys_nil : keys ([] : List (α × β)) = [] := rfl

@[simp] theorem keys_cons (e : α × β) (l : List (α × β)) : keys (e :: l) = e.1 :: keys l := rfl

@[simp] theorem keys_append (l m : List (α × β)) : keys (l ++ m) = keys l ++ keys m :=
  List.map_append

variable [DecidableEq α]

/-- The value of a key. -/
def get? (k : α) (l : List (α × β)) : Option β := (l.find? fun e => e.1 = k).map Prod.snd

/-- The map with another value for a key. -/
def put (k : α) (b : β) : List (α × β) → List (α × β)
  | [] => [(k, b)]
  | e :: l => if e.1 = k then (e.1, b) :: l else e :: put k b l

/-- A list of keys with one more, in the order of first occurrence. -/
def insertKey (ks : List α) (k : α) : List α := if k ∈ ks then ks else ks ++ [k]

variable {k k' : α} {b : β} {l : List (α × β)}

/-- A key that is new comes behind the others. -/
theorem put_of_notMem (h : k ∉ keys l) (b : β) : put k b l = l ++ [(k, b)] := by
  induction l with
  | nil => rfl
  | cons e l ih =>
    rw [keys_cons, List.mem_cons, not_or] at h
    rw [put, if_neg (Ne.symm h.1), ih h.2, List.cons_append]

/-- The keys after putting one. -/
theorem keys_put (k : α) (b : β) (l : List (α × β)) : keys (put k b l) = insertKey (keys l) k := by
  by_cases h : k ∈ keys l
  · rw [insertKey, if_pos h]
    induction l with
    | nil => cases h
    | cons e l ih =>
      rw [put]
      split_ifs with he
      · rfl
      · rw [keys_cons, List.mem_cons] at h
        rw [keys_cons, keys_cons, ih (h.resolve_left (Ne.symm he))]
  · rw [put_of_notMem h, insertKey, if_neg h, keys_append]
    rfl

/-- The keys stay distinct. -/
theorem nodup_insertKey {ks : List α} (h : ks.Nodup) (k : α) : (insertKey ks k).Nodup := by
  rw [insertKey]
  split_ifs with hk
  · exact h
  · exact h.append (List.nodup_singleton k) (by simpa using hk)

/-- What was put is found. -/
theorem get?_put_self (k : α) (b : β) (l : List (α × β)) : get? k (put k b l) = some b := by
  induction l with
  | nil => simp [put, get?]
  | cons e l ih =>
    rw [put]
    split_ifs with he
    · simp [get?, he]
    · rw [← ih]
      simp [get?, he]

/-- The values of other keys stay. -/
theorem get?_put_of_ne (h : k' ≠ k) (b : β) (l : List (α × β)) :
    get? k' (put k b l) = get? k' l := by
  induction l with
  | nil => simp [put, get?, Ne.symm h]
  | cons e l ih =>
    rw [put]
    split_ifs with he
    · have he' : e.1 ≠ k' := fun h' => h (h' ▸ he)
      simp [get?, he']
    · simp only [get?] at ih ⊢
      rw [List.find?_cons, List.find?_cons]
      split
      · rfl
      · exact ih

/-- A key has a value exactly when it is one of the keys. -/
theorem get?_eq_none : get? k l = none ↔ k ∉ keys l := by
  rw [get?, Option.map_eq_none_iff, List.find?_eq_none, keys]
  constructor
  · intro h hk
    obtain ⟨e, he, rfl⟩ := List.mem_map.mp hk
    simpa using h e he
  · intro h e he
    simpa using fun hk : e.1 = k => h (List.mem_map.mpr ⟨e, he, hk⟩)

/-- The value of a key is that of its entry. -/
theorem get?_of_mem (hl : (keys l).Nodup) (h : (k, b) ∈ l) : get? k l = some b := by
  induction l with
  | nil => cases h
  | cons e l ih =>
    rw [keys_cons, List.nodup_cons] at hl
    rcases List.mem_cons.mp h with rfl | h
    · simp [get?]
    · have hk : k ∈ keys l := List.mem_map_of_mem (f := Prod.fst) h
      have he : e.1 ≠ k := fun he => hl.1 (he ▸ hk)
      rw [← ih hl.2 h]
      simp [get?, he]

/-- Putting commutes with a function on the values. -/
theorem map_put (f : β → γ) (k : α) (b : β) (l : List (α × β)) :
    (put k b l).map (Prod.map id f) = put k (f b) (l.map (Prod.map id f)) := by
  induction l with
  | nil => rfl
  | cons e l ih =>
    rw [put, List.map_cons, put]
    by_cases he : e.1 = k
    · rw [if_pos he, if_pos (show (Prod.map id f e).1 = k from he)]
      rfl
    · rw [if_neg he, if_neg (show ¬ (Prod.map id f e).1 = k from he), List.map_cons, ih]

end AnyRpc.Library.OrderedMap
