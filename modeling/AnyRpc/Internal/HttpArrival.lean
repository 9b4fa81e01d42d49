import AnyRpc.Internal.Http

/-! # The arrival of a header

`ProcessHeaderData` is called whenever more of a header has arrived, with all that is there. -/

namespace AnyRpc

namespace HttpHeader

variable {κ : Type} [HttpMessage κ]

/-- The calls of `ProcessHeaderData` on the beginnings of a buffer that have these lengths. -/
def processPrefixes (buffer : Bytes) (lengths : List ℕ) (h : HttpHeader κ) : HttpHeader κ :=
  lengths.foldl (fun h n => h.processHeaderData (buffer.take n) false) h

variable {buffer : Bytes}

/-- A call on what had arrived makes no difference to the next one. -/
theorem processHeaderData_take {m n : ℕ} (hmn : m ≤ n) :
    (processHeaderData (buffer.take m) false (initial : HttpHeader κ)).processHeaderData
        (buffer.take n) false =
      (initial : HttpHeader κ).processHeaderData (buffer.take n) false := by
  have hsplit : buffer.take n = buffer.take m ++ (buffer.take n).drop m := by
    conv_lhs => rw [← List.take_append_drop m (buffer.take n)]
    rw [List.take_take, Nat.min_eq_left hmn]
  rw [hsplit]
  exact processHeaderData_append (Nat.zero_le _) _

/-- All the calls do what the last of them would do on its own. -/
theorem processPrefixes_processHeaderData {m : ℕ} {lengths : List ℕ}
    (hincreasing : (m :: lengths).Pairwise (· ≤ ·)) :
    processPrefixes buffer lengths
        ((initial : HttpHeader κ).processHeaderData (buffer.take m) false) =
      (initial : HttpHeader κ).processHeaderData (buffer.take (lengths.getLastD m)) false := by
  induction lengths generalizing m with
  | nil => rfl
  | cons n lengths ih =>
    obtain ⟨hle, hincreasing⟩ := List.pairwise_cons.mp hincreasing
    have hmn : m ≤ n := hle n List.mem_cons_self
    have hlast : (n :: lengths).getLastD m = lengths.getLastD n := by
      cases lengths with
      | nil => rfl
      | cons _ _ => rfl
    rw [hlast, ← ih hincreasing, ← processHeaderData_take hmn]
    rfl

/-- The calls from the start on. Before the first of them nothing has arrived. -/
theorem processPrefixes_initial {lengths : List ℕ} (hincreasing : lengths.Pairwise (· ≤ ·)) :
    processPrefixes buffer lengths (initial : HttpHeader κ) =
      (initial : HttpHeader κ).processHeaderData (buffer.take (lengths.getLastD 0)) false :=
  processPrefixes_processHeaderData (List.pairwise_cons.mpr ⟨fun n _ => Nat.zero_le n, hincreasing⟩)

/-- Calls on longer and longer beginnings leave a header as it is that is complete, or faulty. -/
theorem processPrefixes_of_ne {h : HttpHeader κ} (hresult : h.headerResult ≠ .incomplete)
    {lengths : List ℕ} (hstart : ∀ n ∈ lengths, h.startIndex ≤ (buffer.take n).length) :
    processPrefixes buffer lengths h = h := by
  induction lengths with
  | nil => rfl
  | cons n lengths ih =>
    have hsame : h.processHeaderData (buffer.take n) false = h :=
      processHeaderData_of_ne (hstart n List.mem_cons_self) hresult
    show processPrefixes buffer lengths (h.processHeaderData (buffer.take n) false) = h
    rw [hsame]
    exact ih fun m hm => hstart m (List.mem_cons_of_mem _ hm)

/-- What is found in the beginning of a buffer lies in it. -/
theorem startIndex_processPrefixes {lengths : List ℕ} (hincreasing : lengths.Pairwise (· ≤ ·)) :
    (processPrefixes buffer lengths (initial : HttpHeader κ)).startIndex ≤
      (buffer.take (lengths.getLastD 0)).length := by
  rw [processPrefixes_initial hincreasing]
  exact startIndex_processLines _ (Nat.zero_le _)

/-- The last one of increasing numbers is the greatest. -/
theorem getLastD_le {ms ns : List ℕ} (hincreasing : (ms ++ ns).Pairwise (· ≤ ·)) {n : ℕ}
    (hn : n ∈ ns) : ms.getLastD 0 ≤ n := by
  rcases List.eq_nil_or_concat ms with rfl | ⟨init, m, rfl⟩
  · exact Nat.zero_le n
  · rw [List.concat_eq_append, List.getLastD_concat]
    exact (List.pairwise_append.mp hincreasing).2.2 m (by simp) n hn

/-- A header may arrive in any parts: the calls on longer and longer beginnings of it find together
what one call on all of it finds. After every call the body would start inside of what had arrived by
then, and the calls after one that has come to a result do nothing. -/
theorem processHeaderData_prefixes (buffer : Bytes) (lengths : List ℕ)
    (hincreasing : lengths.Pairwise (· ≤ ·)) (hlast : lengths.getLast? = some buffer.length) :
    processPrefixes buffer lengths (initial : HttpHeader κ) =
        (initial : HttpHeader κ).processHeaderData buffer false ∧
      ∀ earlier later rest, lengths = earlier ++ later ++ rest →
        (processPrefixes buffer earlier (initial : HttpHeader κ)).startIndex ≤
            earlier.getLastD 0 ∧
          ((processPrefixes buffer earlier (initial : HttpHeader κ)).headerResult ≠ .incomplete →
            processPrefixes buffer (earlier ++ later) (initial : HttpHeader κ) =
              processPrefixes buffer earlier initial) := by
  constructor
  · have hall : lengths.getLastD 0 = buffer.length := by
      rw [List.getLastD_eq_getLast?, hlast]
      rfl
    rw [processPrefixes_initial hincreasing, hall, List.take_length]
  · rintro earlier later rest rfl
    have hincreasing := (List.pairwise_append.mp hincreasing).1
    have hstart : (processPrefixes buffer earlier (initial : HttpHeader κ)).startIndex ≤
        (buffer.take (earlier.getLastD 0)).length :=
      startIndex_processPrefixes (List.pairwise_append.mp hincreasing).1
    rw [List.length_take] at hstart
    refine ⟨hstart.trans (Nat.min_le_left _ _), fun hresult => ?_⟩
    have hlater : processPrefixes buffer (earlier ++ later) (initial : HttpHeader κ) =
        processPrefixes buffer later (processPrefixes buffer earlier initial) :=
      List.foldl_append
    rw [hlater]
    refine processPrefixes_of_ne hresult fun n hn => ?_
    have hle := getLastD_le hincreasing hn
    rw [List.length_take]
    omega

/-- A request of which the first line arrives in three parts, cut before the line feed. -/
theorem processHeaderData_prefixes_request :
    let buffer := ascii "GET / HTTP/1.0\r\n\r\n"
    let _ : IntOverflow := .truncate
    processPrefixes buffer [3, 15, 18] (initial : HttpRequest) =
      (initial : HttpRequest).processHeaderData buffer false :=
  let _ : IntOverflow := .truncate
  (processHeaderData_prefixes (κ := RequestFields) (ascii "GET / HTTP/1.0\r\n\r\n") [3, 15, 18]
    (by decide) (by decide)).1

end HttpHeader

end AnyRpc
