import AnyRpc.MessagePack.Reader
import AnyRpc.Reader.Parse

/-! # What the parts of the MessagePack reader do

For each function below the recursion, the two ways it can end: it returns, and then what it calls
and what it leaves to be read is stated, or it throws and has called nothing. -/

namespace AnyRpc

open Library

namespace MessagePackReader

open Reader MessagePack

/-- The state of the reader. -/
abbrev State := ReaderState MessagePackReader

/-! ## States between two values -/

/-- What is left to be read is `r`, between two values. When the reader is ahead, the first byte of
it is already in the token; at the end of the stream the token is then a null byte that is not
there. -/
def Left (ahead : Bool) (s : State) (r : Bytes) : Prop :=
  s.is.region = none ∧
    if ahead then
      match r with
      | [] => s.sub = ⟨0, true⟩ ∧ s.is.rest = []
      | b :: r => s.sub = ⟨b, true⟩ ∧ s.is.rest = r
    else s.sub.tokenValid = false ∧ s.is.rest = r

/-! ## Calls -/

/-- One more call. -/
theorem events_of_calls {s s' : State} {e : Event} {tell : ℕ}
    (h : s'.calls = s.calls ++ [⟨e, tell⟩]) : s'.events = s.events ++ [e] := by
  rw [ReaderState.events, h, List.map_append]
  rfl

/-- A call for a scalar leaves no token. -/
theorem scalar_spec {s : State} {r : Bytes} (sc : Scalar) (hregion : s.is.region = none)
    (hrest : s.is.rest = r) :
    ∃ s', scalar sc s = .ok () s' ∧ Step s s' [.scalar sc] ∧ Left false s' r :=
  ⟨_, rfl, ⟨rfl, rfl, rfl, events_of_calls rfl⟩, hregion, rfl, hrest⟩

/-! ## Bytes -/

/-- Reading a number of bytes. -/
theorem readAll_cases (n : ℕ) (s : State) :
    (n ≤ s.is.rest.length ∧
      readAll n s = .ok (s.is.rest.take n) { s with is := s.is.advance n }) ∨
    (s.is.rest.length < n ∧ Throws (readAll n) s) := by
  by_cases hn : n ≤ s.is.rest.length
  · left
    refine ⟨hn, ?_⟩
    simp [readAll, List.length_take, Nat.min_eq_left hn]
  · right
    have hne : (s.is.rest.take n).length ≠ n := by
      rw [List.length_take]
      omega
    refine ⟨by omega, throws_bind_of_ok (read_apply s n) rfl ?_⟩
    rw [if_pos hne]
    exact (throws_termination _).bind _

/-- Reading one byte. -/
theorem getByte_cases (s : State) :
    (∃ b r, s.is.rest = b :: r ∧ getByte s = .ok b { s with is := s.is.advance 1 }) ∨
    (s.is.rest = [] ∧ Throws getByte s) := by
  cases hrest : s.is.rest with
  | nil =>
    right
    refine ⟨rfl, throws_bind_of_ok (eof_apply s) rfl ?_⟩
    rw [if_pos (by simp [ReadStream.eof, hrest])]
    exact (throws_termination _).bind _
  | cons b r =>
    left
    exact ⟨b, r, rfl, by simp [getByte, ReadStream.eof, hrest, ReadStream.peek]⟩

/-- A scalar that is read from a number of bytes. -/
theorem scalar_readAll_cases (n : ℕ) (f : Bytes → Scalar) {s : State} (hregion : s.is.region = none) :
    (n ≤ s.is.rest.length ∧ ∃ s', (do scalar (f (← readAll n)) : ReadM Unit) s = .ok () s' ∧
      Step s s' [.scalar (f (s.is.rest.take n))] ∧ Left false s' (s.is.rest.drop n)) ∨
    (s.is.rest.length < n ∧ Throws (do scalar (f (← readAll n))) s) := by
  rcases readAll_cases n s with ⟨hn, hrun⟩ | ⟨hn, hthrows⟩
  · left
    obtain ⟨s', hscalar, hstep, hleft⟩ := scalar_spec (s := { s with is := s.is.advance n })
      (f (s.is.rest.take n)) (s.is.region_advance hregion n) rfl
    exact ⟨hn, s', by rw [bind_of_ok hrun, hscalar],
      ⟨hstep.inSitu, hstep.copy, hstep.beyond, hstep.events⟩, hleft⟩
  · exact .inr ⟨hn, hthrows.bind _⟩

/-- A scalar that is read from one byte. -/
theorem scalar_getByte_cases (f : UInt8 → Scalar) {s : State} (hregion : s.is.region = none) :
    (∃ b r, s.is.rest = b :: r ∧ ∃ s', (do scalar (f (← getByte)) : ReadM Unit) s = .ok () s' ∧
      Step s s' [.scalar (f b)] ∧ Left false s' r) ∨
    (s.is.rest = [] ∧ Throws (do scalar (f (← getByte))) s) := by
  rcases getByte_cases s with ⟨b, r, hrest, hrun⟩ | ⟨hrest, hthrows⟩
  · left
    obtain ⟨s', hscalar, hstep, hleft⟩ := scalar_spec (s := { s with is := s.is.advance 1 })
      (r := r) (f b) (s.is.region_advance hregion 1) (by simp [hrest])
    exact ⟨b, r, hrest, s', by rw [bind_of_ok hrun, hscalar],
      ⟨hstep.inSitu, hstep.copy, hstep.beyond, hstep.events⟩, hleft⟩
  · exact .inr ⟨hrest, hthrows.bind _⟩

/-! ## Strings -/

/-- The state in which a string of `n` bytes has just been skipped in place. -/
def skipped (n : ℕ) (s : State) : State :=
  { s with is := { s.is with
    rest := s.is.rest.drop n
    region := some { written := s.is.rest.take n, gap := [] }
    tell := s.is.tell + n } }

/-- Skipping a number of bytes in place. -/
theorem skipAll_cases (n : ℕ) (s : State) :
    (n ≤ s.is.rest.length ∧ skipAll n s = .ok () (skipped n s)) ∨
    (s.is.rest.length < n ∧ Throws (skipAll n) s) := by
  by_cases hn : n ≤ s.is.rest.length
  · left
    refine ⟨hn, ?_⟩
    simp [skipAll, putBegin, skip, onStream, ReadStream.skip, ReadStream.putBegin, skipped,
      Nat.min_eq_left hn, List.take_take]
  · right
    have hne : n ≠ min n s.is.rest.length := by omega
    have hskip : skip n { s with is := s.is.putBegin } =
        .ok (min n s.is.rest.length) (skipped (min n s.is.rest.length) s) := by
      simp [skip, onStream, ReadStream.skip, ReadStream.putBegin, skipped, List.take_take]
    refine ⟨by omega, throws_bind_of_ok (modify_apply _ s) rfl ?_⟩
    refine throws_bind_of_ok hskip rfl ?_
    rw [if_pos hne]
    exact throws_termination _

/-- The state after the token that follows a string skipped in place is read and cleared. -/
theorem getClearToken_skipped {n : ℕ} {s : State} (hn : n ≤ s.is.rest.length) :
    ∃ s', getClearToken (skipped n s) = .ok () s' ∧ s'.events = s.events ∧
      s'.is.inSitu = s.is.inSitu ∧ s'.is.copy = s.is.copy ∧ s'.is.beyond = s.is.beyond ∧
      (s'.is.strArg n).bytes = s.is.rest.take n ∧ (s'.is.strArg n).copy = s.is.copy ∧
      (s'.is.strArg n).after = (if s.is.rest.drop n = [] then s.is.beyond else 0) ∧
      ∀ calls, Left true { s' with calls := calls, is := s'.is.putEnd.2 } (s.is.rest.drop n) := by
  have htake : (s.is.rest.take n).length = n := by simpa using hn
  cases hrest : s.is.rest.drop n with
  | nil =>
    refine ⟨_, rfl, rfl, ?_⟩
    simp [skipped, ReadStream.getClear, hrest, ReadStream.strArg, ReadStream.memory,
      ReadStream.putEnd, Left, htake, List.take_take]
  | cons b r =>
    refine ⟨_, rfl, rfl, ?_⟩
    simp [skipped, ReadStream.getClear, hrest, ReadStream.strArg, ReadStream.memory,
      ReadStream.putEnd, Left, List.take_append_of_le_length htake.ge, htake, List.take_take]

/-- Reading a string: it is terminated, or copied. -/
theorem parseStr_cases (n : ℕ) {s : State} (hregion : s.is.region = none) :
    (n ≤ s.is.rest.length ∧ ∃ arg s', parseStr n s = .ok () s' ∧
      Step s s' [.scalar (.string arg)] ∧ arg.bytes = s.is.rest.take n ∧ arg.terminated = true ∧
      Left s.is.inSitu s' (s.is.rest.drop n)) ∨
    (s.is.rest.length < n ∧ Throws (parseStr n) s) := by
  cases hmode : s.is.inSitu with
  | true =>
    rcases skipAll_cases n s with ⟨hn, hrun⟩ | ⟨hn, hthrows⟩
    · left
      obtain ⟨s', hclear, hevents, hinSitu, hcopy, hbeyond, hbytes, -, hafter, hleft⟩ :=
        getClearToken_skipped hn
      let arg : StrArg :=
        { s'.is.strArg n with copy := s.is.copy || (s.is.rest.drop n).isEmpty }
      refine ⟨hn, arg, { s' with
        calls := s'.calls ++ [⟨.scalar (.string arg), s'.is.tell⟩], is := s'.is.putEnd.2 }, ?_,
        ⟨?_, ?_, ?_, ?_⟩, hbytes, ?_, hleft _⟩
      · simp only [parseStr, bind_apply, get_apply, hmode, if_true, hrun, eof_apply, hclear,
          strArg, pure_apply, call_apply, putEnd]
        rfl
      · exact hinSitu
      · exact hcopy
      · exact hbeyond
      · rw [← hevents]
        exact events_of_calls rfl
      · show ((s.is.copy || (s.is.rest.drop n).isEmpty) || (s'.is.strArg n).after = 0) = true
        rw [hafter]
        cases s.is.rest.drop n <;> simp
    · right
      refine ⟨hn, ?_⟩
      rw [parseStr]
      refine throws_bind_of_ok (get_apply s) rfl ?_
      rw [if_pos hmode]
      exact hthrows.bind _
  | false =>
    have hrun : parseStr n s = (do scalar (.string { bytes := ← readAll n }) : ReadM Unit) s := by
      simp only [parseStr, bind_apply, get_apply, hmode, Bool.false_eq_true, if_false]
    rcases scalar_readAll_cases n (fun str => .string { bytes := str }) hregion with
      ⟨hn, s', hok, hstep, hleft⟩ | ⟨hn, f, s', hthrows⟩
    · exact .inl ⟨hn, _, s', hrun.trans hok, hstep, rfl, rfl, hleft⟩
    · exact .inr ⟨hn, f, s', hrun.trans hthrows.1, hthrows.2⟩

/-- Reading binary data. -/
theorem parseBin_cases (n : ℕ) {s : State} (hregion : s.is.region = none) :
    (n ≤ s.is.rest.length ∧ ∃ arg s', parseBin n s = .ok () s' ∧
      Step s s' [.scalar (.binary arg)] ∧ arg.bytes = s.is.rest.take n ∧
      Left false s' (s.is.rest.drop n)) ∨
    (s.is.rest.length < n ∧ Throws (parseBin n) s) := by
  cases hmode : s.is.inSitu with
  | true =>
    rcases skipAll_cases n s with ⟨hn, hrun⟩ | ⟨hn, hthrows⟩
    · left
      let arg := (skipped n s).is.strArg n
      let is := { (skipped n s).is with region := none }
      refine ⟨hn, arg, ⟨is, s.calls ++ [⟨.scalar (.binary arg), is.tell⟩], { s.sub with
        tokenValid := false }⟩, ?_, ⟨rfl, rfl, rfl, events_of_calls rfl⟩, ?_, rfl, rfl, rfl⟩
      · simp only [parseBin, bind_apply, get_apply, hmode, if_true, hrun, strArg, pure_apply, scalar,
          call_apply, resetToken, modify_apply, putEnd]
        rfl
      · show (s.is.rest.take n ++ [] ++ s.is.rest.drop n).take n = s.is.rest.take n
        rw [List.append_nil, List.take_append_drop]
    · right
      refine ⟨hn, ?_⟩
      rw [parseBin]
      refine throws_bind_of_ok (get_apply s) rfl ?_
      rw [if_pos hmode]
      exact hthrows.bind _
  | false =>
    have hrun : parseBin n s = (do scalar (.binary { bytes := ← readAll n }) : ReadM Unit) s := by
      simp only [parseBin, bind_apply, get_apply, hmode, Bool.false_eq_true, if_false]
    rcases scalar_readAll_cases n (fun str => .binary { bytes := str }) hregion with
      ⟨hn, s', hok, hstep, hleft⟩ | ⟨hn, f, s', hthrows⟩
    · exact .inl ⟨hn, _, s', hrun.trans hok, hstep, rfl, hleft⟩
    · exact .inr ⟨hn, f, s', hrun.trans hthrows.1, hthrows.2⟩

/-! ## Keys -/

/-- The length of a key and where its bytes start, given its token and what follows. -/
def keyForm (token : UInt8) (r : Bytes) : Option (ℕ × Bytes) :=
  if Format.fixStr ≤ token ∧ token < Format.nil then some ((token &&& 0x1f).toNat, r)
  else if token = Format.str8 then
    match r with
    | [] => none
    | length :: body => some (length.toNat, body)
  else none

/-- The length of a key is read, or there is none. -/
theorem keyLength_cases {s : State} (hregion : s.is.region = none) :
    (∃ n body s', keyForm s.sub.token s.is.rest = some (n, body) ∧ keyLength s = .ok n s' ∧
      Step s s' [] ∧ s'.is.region = none ∧ s'.sub = s.sub ∧ s'.is.rest = body) ∨
    (keyForm s.sub.token s.is.rest = none ∧ Throws keyLength s) := by
  unfold keyForm
  by_cases hfix : Format.fixStr ≤ s.sub.token ∧ s.sub.token < Format.nil
  · left
    refine ⟨_, _, s, if_pos hfix, ?_, Step.refl s, hregion, rfl, rfl⟩
    simp only [keyLength, bind_apply, get_apply, if_pos hfix, pure_apply]
  · rw [if_neg hfix]
    by_cases hstr : s.sub.token = Format.str8
    · rw [if_pos hstr]
      rcases getByte_cases s with ⟨b, r, hrest, hrun⟩ | ⟨hrest, hthrows⟩
      · left
        refine ⟨b.toNat, r, { s with is := s.is.advance 1 }, by rw [hrest], ?_,
          ⟨rfl, rfl, rfl, (List.append_nil _).symm⟩, s.is.region_advance hregion 1, rfl,
          by simp [hrest]⟩
        simp only [keyLength, bind_apply, get_apply, if_neg hfix, if_pos hstr, hrun, pure_apply]
      · right
        refine ⟨by rw [hrest], ?_⟩
        refine throws_bind_of_ok (get_apply s) rfl ?_
        simp only [if_neg hfix, if_pos hstr]
        exact hthrows.bind _
    · right
      refine ⟨by rw [if_neg hstr], throws_bind_of_ok (get_apply s) rfl ?_⟩
      simp only [if_neg hfix, if_neg hstr]
      exact throws_valueInvalid s

/-- A key that is skipped in place. -/
theorem parseKeyString_inSitu_cases (n : ℕ) {s : State} (hmode : s.is.inSitu = true) :
    (n ≤ s.is.rest.length ∧ ∃ arg s', parseKeyString n s = .ok () s' ∧ Step s s' [.key arg] ∧
      arg.bytes = s.is.rest.take n ∧
      (arg.terminated = true ↔ s.is.copy = true ∨ s.is.rest.drop n ≠ [] ∨ s.is.beyond = 0) ∧
      Left true s' (s.is.rest.drop n)) ∨
    (s.is.rest.length < n ∧ Throws (parseKeyString n) s) := by
  rcases skipAll_cases n s with ⟨hn, hrun⟩ | ⟨hn, hthrows⟩
  · left
    obtain ⟨s', hclear, hevents, hinSitu, hcopy, hbeyond, hbytes, hcopy', hafter, hleft⟩ :=
      getClearToken_skipped hn
    refine ⟨hn, s'.is.strArg n, { s' with
      calls := s'.calls ++ [⟨.key (s'.is.strArg n), s'.is.tell⟩], is := s'.is.putEnd.2 }, ?_,
      ⟨?_, ?_, ?_, ?_⟩, hbytes, ?_, hleft _⟩
    · simp only [parseKeyString, bind_apply, get_apply, hmode, if_true, hrun, hclear, strArg,
        pure_apply, call_apply, putEnd]
    · exact hinSitu
    · exact hcopy
    · exact hbeyond
    · rw [← hevents]
      exact events_of_calls rfl
    · rw [StrArg.terminated, hafter, hcopy']
      cases s.is.rest.drop n <;> simp
  · right
    refine ⟨hn, ?_⟩
    rw [parseKeyString]
    refine throws_bind_of_ok (get_apply s) rfl ?_
    rw [if_pos hmode]
    exact hthrows.bind _

/-- A key that is copied. -/
theorem parseKeyString_copy_cases {n : ℕ} (hn : 0 < n) {s : State} (hregion : s.is.region = none)
    (hmode : s.is.inSitu = false) :
    (n ≤ s.is.rest.length ∧ ∃ s', parseKeyString n s = .ok () s' ∧
      Step s s' [.key { bytes := s.is.rest.take n }] ∧ Left false s' (s.is.rest.drop n)) ∨
    (s.is.rest.length < n ∧ Throws (parseKeyString n) s) := by
  have hnot : ¬ s.is.inSitu = true := by simp [hmode]
  rcases readAll_cases n s with ⟨hle, hrun⟩ | ⟨hlt, hthrows⟩
  · left
    refine ⟨hle, ⟨s.is.advance n, s.calls ++ [⟨.key { bytes := s.is.rest.take n },
      (s.is.advance n).tell⟩], { s.sub with tokenValid := false }⟩, ?_,
      ⟨rfl, rfl, rfl, events_of_calls rfl⟩, s.is.region_advance hregion n, rfl, rfl⟩
    simp only [parseKeyString, bind_apply, get_apply, if_neg hnot, if_pos hn, hrun, call_apply,
      resetToken, modify_apply]
  · right
    refine ⟨hlt, throws_bind_of_ok (get_apply s) rfl ?_⟩
    rw [if_neg hnot, if_pos hn]
    exact hthrows.bind _

/-- An empty key that is copied changes nothing. -/
theorem parseKeyString_copy_zero {s : State} (hmode : s.is.inSitu = false) :
    parseKeyString 0 s = .ok () s := by
  simp [parseKeyString, hmode]

/-! ## Tokens -/

/-- Getting the token of what is left to be read. -/
theorem getToken_spec {ahead : Bool} {s : State} {b : UInt8} {r : Bytes}
    (h : Left ahead s (b :: r)) :
    ∃ s', getToken s = .ok () s' ∧ Step s s' [] ∧ Left true s' (b :: r) := by
  obtain ⟨hregion, h⟩ := h
  cases ahead with
  | true =>
    obtain ⟨hsub, hrest⟩ := h
    refine ⟨s, ?_, Step.refl s, hregion, hsub, hrest⟩
    simp [getToken, hsub]
  | false =>
    obtain ⟨hvalid, hrest⟩ := h
    refine ⟨{ s with is := s.is.advance 1, sub := ⟨b, true⟩ }, ?_,
      ⟨rfl, rfl, rfl, (List.append_nil _).symm⟩, s.is.region_advance hregion 1, rfl, ?_⟩
    · simp [getToken, hvalid, ReadStream.peek, hrest]
    · simp [hrest]

/-- `ParseKey` throws where the stream is at its end. -/
theorem parseKey_of_eof {s : State} (hrest : s.is.rest = []) : Throws parseKey s := by
  refine throws_bind_of_ok (eof_apply s) rfl ?_
  rw [if_pos (by simp [ReadStream.eof, hrest])]
  exact (throws_termination s).bind _

/-- `ParseKey` reads a token, and then the length that it calls for. -/
theorem parseKey_spec {ahead : Bool} {s : State} {b : UInt8} {r : Bytes}
    (h : Left ahead s (b :: r)) (hrest : s.is.rest ≠ []) :
    (∃ n body s', keyForm b r = some (n, body) ∧ parseKey s = parseKeyString n s' ∧
      Step s s' [] ∧ s'.is.region = none ∧ s'.sub = ⟨b, true⟩ ∧ s'.is.rest = body) ∨
    (keyForm b r = none ∧ Throws parseKey s) := by
  obtain ⟨s₁, hget, hstep, hregion, hsub, hrest₁⟩ := getToken_spec h
  have heof : (do if ← eof then throwTermination : ReadM Unit) s = .ok () s := by
    simp [ReadStream.eof, hrest]
  have hcases := keyLength_cases hregion
  rw [hsub, hrest₁] at hcases
  rcases hcases with ⟨n, body, s₂, hform, hrun, hstep₂, hregion₂, hsub₂, hbody⟩ | ⟨hform, hthrows⟩
  · refine .inl ⟨n, body, s₂, hform, ?_, hstep.trans hstep₂, hregion₂, hsub₂, hbody⟩
    simp [parseKey, ReadStream.eof, hrest, hget, hrun]
  · refine .inr ⟨hform, ?_⟩
    refine throws_bind_of_ok (eof_apply s) rfl ?_
    rw [if_neg (by simp [ReadStream.eof, hrest])]
    have hevents : s₁.events = s.events := by simpa using hstep.events
    exact throws_bind_of_ok hget hevents (hthrows.bind _)

/-- `ParseStream` throws where nothing is left to be read. -/
theorem parse_of_nil {s : State} (h : Left false s []) (depth : ℕ) :
    Throws (parse (depth + 1)) s := by
  obtain ⟨-, hvalid, hrest⟩ := h
  refine throws_bind_of_ok (get_apply s) rfl (throws_bind_of_ok (eof_apply s) rfl ?_)
  rw [if_pos (by simp [hvalid, ReadStream.eof, hrest])]
  exact throws_termination s

/-- `ParseStream` goes by the token. -/
theorem parse_of_cons {ahead : Bool} {s : State} {b : UInt8} {r : Bytes}
    (h : Left ahead s (b :: r)) (depth : ℕ) :
    ∃ s', parse (depth + 1) s = parseLookup (parse depth) b s' ∧ Step s s' [] ∧
      Left true s' (b :: r) := by
  obtain ⟨s', hget, hstep, hleft⟩ := getToken_spec h
  refine ⟨s', ?_, hstep, hleft⟩
  have hgo : (!s.sub.tokenValid && s.is.eof) = false := by
    obtain ⟨-, h⟩ := h
    cases ahead with
    | true => simp [h.1]
    | false => simp [h.2, ReadStream.eof]
  simp only [parse, bind_apply, get_apply, eof_apply, hgo, Bool.false_eq_true, if_false, hget,
    hleft.2.1]

/-- A token that is read ahead of the end of the stream stands for the number zero. -/
theorem parse_of_ahead {s : State} (h : Left true s []) (depth : ℕ) :
    ∃ s', parse (depth + 1) s = .ok () s' ∧ Step s s' [.scalar (.uint 0)] ∧ Left false s' [] := by
  obtain ⟨hregion, hsub, hrest⟩ := h
  obtain ⟨s', hscalar, hstep, hleft⟩ := scalar_spec (.uint 0) hregion hrest
  refine ⟨s', ?_, hstep, hleft⟩
  rw [← hscalar]
  simp [parse, getToken, hsub, parseLookup, parsePositiveFixInt]

/-! ## Loops -/

/-- An array is read in three parts: its start, its elements and its end. -/
theorem parseArray_eq (parse : ReadM Unit) (n : ℕ) :
    parseArray parse n = (do
      (do resetToken; call (.startArray (some n)))
      parseElements parse n
      call (.endArray n)) := rfl

/-- A map is read in three parts: its start, its members and its end. -/
theorem parseMap_eq (parse : ReadM Unit) (n : ℕ) :
    parseMap parse n = (do
      (do resetToken; call (.startMap (some n)))
      parseMembers parse n
      call (.endMap n)) := rfl

/-- One turn of the loop over the elements. -/
theorem parseElements_succ (parse : ReadM Unit) (n : ℕ) :
    parseElements parse (n + 1) = (do
      parse
      (if n ≠ 0 then call .arraySeparator else pure () : ReadM Unit)
      parseElements parse n) := by
  rw [parseElements]
  by_cases hn : n ≠ 0
  · simp only [if_pos hn]
  · simp only [if_neg hn, pure_bind]

/-- One turn of the loop over the members. -/
theorem parseMembers_succ (parse : ReadM Unit) (n : ℕ) :
    parseMembers parse (n + 1) = (do
      parseKey
      parse
      (if n ≠ 0 then call .mapSeparator else pure () : ReadM Unit)
      parseMembers parse n) := by
  rw [parseMembers]
  by_cases hn : n ≠ 0
  · simp only [if_pos hn]
  · simp only [if_neg hn, pure_bind]

end MessagePackReader

end AnyRpc
