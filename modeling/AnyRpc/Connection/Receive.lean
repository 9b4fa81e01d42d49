import AnyRpc.Connection.Connection

/-! # Receiving

`TcpSocket::Receive`. What arrives is a stream of bytes that the kernel hands over in pieces: each
answer of `recv` says how much of it has arrived by then. Where the next answer is still outstanding,
so is the computation. -/

namespace AnyRpc

/-- What the kernel's `recv` answers. -/
inductive KernelRecv where
  /-- It hands over what has arrived, of which there are so many bytes; where there are none, it
  reports that it would block. -/
  | arrived (n : ℕ)
  /-- It returns zero: the peer has shut down its sending side. -/
  | closed
  /-- It reports `ECONNRESET`. -/
  | reset
  /-- It reports another error that is fatal. -/
  | failed
  deriving DecidableEq, Repr

/-- One round of `Receive`: the kernel's answer, the time in milliseconds since `Receive` was called,
and whether `WaitReadable` finds the socket readable in the time that is left. -/
structure RecvAttempt where
  result : KernelRecv
  elapsed : ℕ := 0
  readable : Bool := true
  deriving DecidableEq, Repr

/-- What is still to be received, and the answers that the kernel is going to give. -/
structure Incoming where
  unread : Bytes := []
  attempts : List RecvAttempt := []
  deriving Repr

/-- What `Receive` returns, with `FatalError()` as it stands afterwards. -/
structure Received where
  success : Bool
  /-- The bytes that are stored, `bytesRead` of them. -/
  data : Bytes
  eof : Bool := false
  fatal : Bool := false
  deriving DecidableEq, Repr

namespace Incoming

/-- The loop of `Receive`, with the bytes that are already read. -/
def receiveLoop (maxLength timeout : ℕ) :
    List RecvAttempt → Bytes → Bytes → Option (Received × Incoming)
  | [], unread, data =>
    if data.length < maxLength then none else some (⟨true, data, false, false⟩, ⟨unread, []⟩)
  | attempt :: attempts, unread, data =>
    if data.length < maxLength then
      match attempt.result with
      | .closed => some (⟨false, data, true, false⟩, ⟨unread, attempts⟩)
      | .reset => some (⟨false, data, true, true⟩, ⟨unread, attempts⟩)
      | .failed => some (⟨false, data, false, true⟩, ⟨unread, attempts⟩)
      | .arrived n =>
        let numBytes := min n (maxLength - data.length)
        let data := data ++ unread.take numBytes
        let unread := unread.drop numBytes
        if maxLength ≤ data.length then some (⟨true, data, false, false⟩, ⟨unread, attempts⟩)
        else if attempt.elapsed < timeout && attempt.readable then
          receiveLoop maxLength timeout attempts unread data
        else some (⟨true, data, false, false⟩, ⟨unread, attempts⟩)
    else some (⟨true, data, false, false⟩, ⟨unread, attempt :: attempts⟩)

/-- `Receive(buffer, maxLength, bytesRead, eof, timeout)`. -/
def receive (maxLength timeout : ℕ) (i : Incoming) : Option (Received × Incoming) :=
  receiveLoop maxLength timeout i.attempts i.unread []

/-- What `Receive` returns is the beginning of what was still to be received, and no more than was
asked for; it fails exactly when it reports the end of the stream or a fatal error. -/
structure Outcome (maxLength : ℕ) (i : Incoming) (r : Received) (i' : Incoming) : Prop where
  unread_eq : i.unread = r.data ++ i'.unread
  length_le : r.data.length ≤ maxLength
  success_iff : r.success = true ↔ r.eof = false ∧ r.fatal = false

theorem receiveLoop_outcome {maxLength timeout : ℕ} {attempts : List RecvAttempt}
    {unread data : Bytes} {r : Received} {i' : Incoming} (hdata : data.length ≤ maxLength)
    (h : receiveLoop maxLength timeout attempts unread data = some (r, i')) :
    Outcome maxLength ⟨data ++ unread, attempts⟩ r i' := by
  induction attempts generalizing unread data with
  | nil =>
    rw [receiveLoop] at h
    split at h
    · cases h
    · cases h
      exact ⟨rfl, hdata, by simp⟩
  | cons attempt attempts ih =>
    rw [receiveLoop] at h
    by_cases hroom : data.length < maxLength
    · rw [if_pos hroom] at h
      cases hresult : attempt.result with
      | closed =>
        rw [hresult] at h
        cases h
        exact ⟨rfl, hdata, by simp⟩
      | reset =>
        rw [hresult] at h
        cases h
        exact ⟨rfl, hdata, by simp⟩
      | failed =>
        rw [hresult] at h
        cases h
        exact ⟨rfl, hdata, by simp⟩
      | arrived n =>
        rw [hresult] at h
        simp only at h
        -- The bytes that move from what is unread to what is read.
        have hmove : (data ++ unread.take (min n (maxLength - data.length))) ++
            unread.drop (min n (maxLength - data.length)) = data ++ unread := by
          rw [List.append_assoc, List.take_append_drop]
        have hlength : (data ++ unread.take (min n (maxLength - data.length))).length ≤
            maxLength := by
          rw [List.length_append, List.length_take]
          omega
        split at h
        · cases h
          exact ⟨hmove.symm, hlength, by simp⟩
        · split at h
          · have hrest := ih hlength h
            rw [hmove] at hrest
            exact ⟨hrest.unread_eq, hrest.length_le, hrest.success_iff⟩
          · cases h
            exact ⟨hmove.symm, hlength, by simp⟩
    · rw [if_neg hroom] at h
      cases h
      exact ⟨rfl, hdata, by simp⟩

theorem receive_outcome {maxLength timeout : ℕ} {i i' : Incoming} {r : Received}
    (h : i.receive maxLength timeout = some (r, i')) : Outcome maxLength i r i' :=
  receiveLoop_outcome (Nat.zero_le _) h

/-- Without a timeout, `Receive` uses up one answer of the kernel and succeeds when this is not the
end of the stream or an error. -/
theorem receive_now {maxLength : ℕ} (hpos : 0 < maxLength) {i i' : Incoming} {r : Received}
    (h : i.receive maxLength 0 = some (r, i')) :
    ∃ a, i.attempts = a :: i'.attempts ∧ (r.success = true ↔ ∃ n, a.result = .arrived n) ∧
      (r.success = false → r.data = []) := by
  obtain ⟨unread, attempts⟩ := i
  cases attempts with
  | nil =>
    rw [receive, receiveLoop, if_pos (by simpa using hpos)] at h
    cases h
  | cons a as =>
    rw [receive, receiveLoop, if_pos (by simpa using hpos)] at h
    refine ⟨a, ?_⟩
    cases hresult : a.result with
    | arrived n =>
      rw [hresult] at h
      simp only [Nat.not_lt_zero, decide_false, Bool.false_and, Bool.false_eq_true, if_false] at h
      split at h <;> cases h <;> exact ⟨rfl, by simp⟩
    | closed | reset | failed =>
      rw [hresult] at h
      cases h
      exact ⟨rfl, by simp⟩

/-- `Receive` waits only for an answer of the kernel. -/
theorem receive_eq_none {maxLength : ℕ} {i : Incoming} (h : i.receive maxLength 0 = none) :
    i.attempts = [] := by
  obtain ⟨unread, attempts⟩ := i
  cases attempts with
  | nil => rfl
  | cons a as =>
    rw [receive, receiveLoop] at h
    split at h
    · cases hresult : a.result with
      | arrived n =>
        rw [hresult] at h
        simp only [Nat.not_lt_zero, decide_false, Bool.false_and, Bool.false_eq_true, if_false] at h
        split at h <;> cases h
      | closed | reset | failed =>
        rw [hresult] at h
        cases h
    · cases h

/-- Where nothing is asked for, `Receive` succeeds at once. -/
theorem receive_zero {timeout : ℕ} (i : Incoming) :
    i.receive 0 timeout = some (⟨true, [], false, false⟩, i) := by
  obtain ⟨unread, attempts⟩ := i
  cases attempts <;> simp [receive, receiveLoop]

/-! ## Running out of time -/

end Incoming

/-- How many bytes have arrived, where the kernel hands over any. -/
def KernelRecv.amount : KernelRecv → ℕ
  | .arrived n => n
  | _ => 0

/-- After a round, `Receive` goes on to wait for more. -/
def RecvAttempt.InTime (timeout : ℕ) (a : RecvAttempt) : Prop :=
  a.elapsed < timeout ∧ a.readable = true

instance (timeout : ℕ) (a : RecvAttempt) : Decidable (a.InTime timeout) :=
  inferInstanceAs (Decidable (_ ∧ _))

namespace Incoming

/-- The time is over while the connection is open and fewer bytes have arrived than are missing. -/
def TimesOut (missing timeout : ℕ) (i : Incoming) : Prop :=
  ∃ earlier last later, i.attempts = earlier ++ last :: later ∧
    (∀ a ∈ earlier, a.InTime timeout) ∧ ¬ last.InTime timeout ∧
    (∀ a ∈ earlier ++ [last], a.result = .arrived a.result.amount) ∧
    min ((earlier ++ [last]).map fun a => a.result.amount).sum i.unread.length < missing

/-- The first round leaves less to be missed, unless it is the last one. -/
theorem timesOut_cons {missing timeout : ℕ} {unread : Bytes} {a : RecvAttempt}
    {attempts : List RecvAttempt} :
    TimesOut missing timeout ⟨unread, a :: attempts⟩ ↔
      a.result = .arrived a.result.amount ∧ min a.result.amount unread.length < missing ∧
      (a.InTime timeout → TimesOut (missing - min a.result.amount unread.length) timeout
        ⟨unread.drop (min a.result.amount unread.length), attempts⟩) := by
  constructor
  · rintro ⟨earlier, last, later, hattempts, hearlier, hlast, harrived, hsum⟩
    cases earlier with
    | nil =>
      obtain ⟨rfl, rfl⟩ := List.cons.inj hattempts
      refine ⟨harrived a (by simp), by simpa using hsum, ?_⟩
      intro h
      exact absurd h hlast
    | cons e earlier =>
      obtain ⟨rfl, rfl⟩ := List.cons.inj hattempts
      simp only [List.cons_append, List.map_cons, List.sum_cons] at hsum
      refine ⟨harrived a (by simp), by omega, ?_⟩
      intro _
      refine ⟨earlier, last, later, rfl, ?_, hlast, ?_, ?_⟩
      · intro b hb
        exact hearlier b (List.mem_cons_of_mem _ hb)
      · intro b hb
        exact harrived b (List.mem_cons_of_mem _ hb)
      · simp only [List.length_drop]
        omega
  · rintro ⟨ha, hmissing, hrest⟩
    by_cases hin : a.InTime timeout
    · obtain ⟨earlier, last, later, hattempts, hearlier, hlast, harrived, hsum⟩ := hrest hin
      refine ⟨a :: earlier, last, later, ?_, ?_, hlast, ?_, ?_⟩
      · simpa using hattempts
      · simpa using ⟨hin, hearlier⟩
      · intro b hb
        rcases List.mem_cons.mp hb with rfl | hb
        · exact ha
        · exact harrived b hb
      · simp only [List.length_drop] at hsum
        simp only [List.cons_append, List.map_cons, List.sum_cons]
        omega
    · exact ⟨[], a, attempts, rfl, by simp, hin, by simpa using ha, by simpa using hmissing⟩

theorem receiveLoop_timesOut {maxLength timeout : ℕ} {attempts : List RecvAttempt}
    {unread data : Bytes} {r : Received} {i' : Incoming} (hdata : data.length < maxLength)
    (h : receiveLoop maxLength timeout attempts unread data = some (r, i')) :
    r.success = true ∧ r.data.length < maxLength ↔
      TimesOut (maxLength - data.length) timeout ⟨unread, attempts⟩ := by
  induction attempts generalizing unread data with
  | nil =>
    rw [receiveLoop, if_pos hdata] at h
    cases h
  | cons attempt attempts ih =>
    rw [receiveLoop, if_pos hdata] at h
    rw [timesOut_cons]
    cases hresult : attempt.result with
    | closed | reset | failed =>
      rw [hresult] at h
      cases h
      simp
    | arrived n =>
      rw [hresult] at h
      simp only [List.length_append, List.length_take] at h
      simp only [KernelRecv.amount, true_and]
      -- Unless the bytes that are missing have arrived, all that has arrived is taken.
      split at h
      · cases h
        simp only [List.length_append, List.length_take]
        constructor
        · rintro ⟨-, hshort⟩
          omega
        · rintro ⟨hshort, -⟩
          omega
      · have htake : min n (maxLength - data.length) = n ∨ unread.length ≤ n := by omega
        have hdrop : unread.drop (min n (maxLength - data.length)) =
            unread.drop (min n unread.length) := by
          rcases htake with hn | hn
          · rw [hn]
            rcases Nat.le_total n unread.length with hle | hle
            · rw [Nat.min_eq_left hle]
            · rw [Nat.min_eq_right hle, List.drop_eq_nil_of_le hle, List.drop_length]
          · rw [Nat.min_eq_right hn, List.drop_length, List.drop_eq_nil_of_le (by omega)]
        by_cases hin : attempt.InTime timeout
        · rw [if_pos (by simpa [RecvAttempt.InTime] using hin)] at h
          have hrest := ih (by rw [List.length_append, List.length_take]; omega) h
          rw [hrest, hdrop, List.length_append, List.length_take,
            show maxLength - (data.length + min (min n (maxLength - data.length)) unread.length) =
              maxLength - data.length - min n unread.length by omega]
          constructor
          · intro hout
            exact ⟨by omega, fun _ => hout⟩
          · rintro ⟨-, hout⟩
            exact hout hin
        · rw [if_neg (by simpa [RecvAttempt.InTime] using hin)] at h
          cases h
          simp only [List.length_append, List.length_take]
          constructor
          · intro _
            exact ⟨by omega, fun hin' => absurd hin' hin⟩
          · intro _
            exact ⟨trivial, by omega⟩

/-- `Receive` succeeds with fewer bytes than it is asked for exactly when the time is over. -/
theorem receive_timesOut {missing timeout : ℕ} {i i' : Incoming} {r : Received}
    (hmissing : 0 < missing) (h : i.receive missing timeout = some (r, i')) :
    r.success = true ∧ r.data.length < missing ↔ i.TimesOut missing timeout := by
  have hdata : ([] : Bytes).length < missing := hmissing
  exact receiveLoop_timesOut hdata h

end Incoming

end AnyRpc
