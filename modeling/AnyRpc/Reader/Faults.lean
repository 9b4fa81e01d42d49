import AnyRpc.Document.Faults
import AnyRpc.Reader.NumberParse
import AnyRpc.Reader.Parse

/-! # What readers throw

What a reader throws has an error code, as what a document throws has. So where no parse error is
reported, the reader has returned and so has every call. -/

namespace AnyRpc

open Library Handler

/-- A fault with an error code is reported. -/
theorem Fault.IsError.reported {f : Fault} (h : f.IsError) : f.Reported := by
  obtain ⟨e, rfl, he⟩ := h
  rintro e' ⟨⟩
  exact he

namespace ParseNumber

/-! ## Numbers -/

/-- The faults of a number that is not well formed have error codes. -/
theorem syntaxFault_isError {f : Fault} (h : IsSyntaxFault f) : f.IsError := by
  rcases h with rfl | rfl | rfl
  · exact ⟨_, rfl, show ErrorCode.valueInvalid ≠ 0 by decide⟩
  · exact ⟨_, rfl, show ErrorCode.numberMissFraction ≠ 0 by decide⟩
  · exact ⟨_, rfl, show ErrorCode.numberMissExponent ≠ 0 by decide⟩

section

variable [Platform]

/-- The index into the table of powers is all that can be undefined. -/
theorem fastPath_fault {d : BitVec 64} {z : ℤ} {f : Fault} (h : fastPath d z = .error f) :
    f = .undefined := by
  have hpow {z : ℤ} {g : BitVec 64 → BitVec 64}
      (h : (do return g (← pow10 z) : Except Fault (BitVec 64)) = .error f) : f = .undefined := by
    unfold pow10 at h
    split_ifs at h
    · cases h
    · cases h
      rfl
  unfold fastPath at h
  split_ifs at h
  · exact hpow h
  · exact hpow h

/-- The double of a number is there, or it is undefined. -/
theorem double_fault {n : ParseNumber} {f : Fault} (h : n.double = .error f) : f = .undefined := by
  unfold double at h
  cases hcheck : checkInt (n.exp + n.expFrac) with
  | error f' =>
    rw [hcheck] at h
    cases h
    exact checkInt_fault hcheck
  | ok z =>
    rw [hcheck] at h
    have h : strtodNormalPrecision n.d z = .error f := h
    unfold strtodNormalPrecision at h
    split_ifs at h
    · cases hpath : fastPath n.d (-308) with
      | error f' =>
        rw [hpath] at h
        cases h
        exact fastPath_fault hpath
      | ok d =>
        rw [hpath] at h
        exact fastPath_fault h
    · exact fastPath_fault h

/-- A number is read, or what is thrown has an error code. -/
theorem reported_parse : FailsWith Fault.Reported parse := by
  intro s f r herror
  rcases (wp_parse_any s).of_error herror with rfl | rfl | hf
  · exact Fault.reported_undefined
  · exact Fault.reported_exception (by decide) _
  · exact (syntaxFault_isError hf).reported

end

end ParseNumber

namespace Reader

variable {τ : Type}

/-! ## Parts of a reader -/

/-- A part that works on the rest of the text. -/
theorem reported_onText {α : Type} {p : Exec Bytes α} (h : FailsWith Fault.Reported p) :
    FailsWith Fault.Reported (onText p : Reader τ α) := by
  intro s f s' herror
  rw [onText] at herror
  cases hrun : p s.is.rest with
  | ok a r =>
    rw [hrun] at herror
    cases herror
  | error f' r =>
    rw [hrun] at herror
    cases herror
    exact h _ _ _ hrun

/-- A part that works on the stream. -/
theorem reported_onStream {α : Type} {op : Exec ReadStream α} (h : FailsWith Fault.Reported op) :
    FailsWith Fault.Reported (onStream op : Reader τ α) := by
  intro s f s' herror
  rw [onStream] at herror
  cases hrun : op s.is with
  | ok a is =>
    rw [hrun] at herror
    cases herror
  | error f' is =>
    rw [hrun] at herror
    cases herror
    exact h _ _ _ hrun

/-- A call of the handler is recorded, and made later. -/
theorem reported_call (e : Event) : FailsWith Fault.Reported (call e : Reader τ Unit) :=
  .of_ok fun _ => ⟨_, _, rfl⟩

/-- `Put` asserts that the stream is in place and does not overrun itself. -/
theorem reported_putChar (c : UInt8) : FailsWith Fault.Reported (putChar c : Reader τ Unit) := by
  refine reported_onStream fun s f s' herror => ?_
  rw [ReadStream.put] at herror
  split at herror
  · cases herror
    exact Fault.reported_exception (by decide) _
  · split at herror
    · cases herror
    · cases herror
      exact Fault.reported_exception (by decide) _

/-- `Put` of a number of bytes. -/
theorem reported_putBytes (str : Bytes) :
    FailsWith Fault.Reported (onStream (ReadStream.putBytes str) : Reader τ Unit) := by
  refine reported_onStream fun s f s' herror => ?_
  rw [ReadStream.putBytes] at herror
  split at herror
  · cases herror
    exact Fault.reported_exception (by decide) _
  · split_ifs at herror
    cases herror
    exact Fault.reported_exception (by decide) _

/-! ## Parsing without a parse error -/

variable {σ : Type} [Handler σ]

/-- What the recorded calls throw is what a call of the handler throws. -/
theorem makeCalls_reported (hhandle : ∀ e, FailsWith Fault.Reported (handle e : Exec σ Unit))
    {cs : List Call} {h h' : σ} {f : Fault} {offset : ℕ}
    (herror : makeCalls cs h = .error (f, offset) h') : f.Reported := by
  induction cs generalizing h with
  | nil => cases herror
  | cons c cs ih =>
    rw [makeCalls] at herror
    cases hc : handle c.event h with
    | ok _ h₁ =>
      rw [hc] at herror
      exact ih herror
    | error f' h₁ =>
      rw [hc] at herror
      cases herror
      exact hhandle c.event h _ _ hc

/-- A reported fault leaves a parse error. -/
theorem hasParseError_of_faulted {f : Fault} (hf : f.Reported) {offset : ℕ} {h : σ}
    {s : ReaderState τ} {r : Parsed σ τ} (hr : faulted f offset h s = .ok r) :
    r.hasParseError = true := by
  cases f with
  | exception e =>
    cases hr
    simpa [Parsed.hasParseError, AnyRpcException.isErrorSet] using hf e rfl
  | undefined | outOfFuel => cases hr

/-- Without a parse error, all calls of a reader that returns have returned. -/
theorem delivered_of_parseStream (hhandle : ∀ e, FailsWith Fault.Reported (handle e : Exec σ Unit))
    {parse : Reader τ Unit} {s s' : ReaderState τ} (hrun : parse { s with calls := [] } = .ok () s')
    {h : σ} {r : Parsed σ τ} (hr : parseStream parse s h = .ok r) (hok : r.hasParseError = false) :
    ∃ h', deliver s'.events (startDocument h) = .ok h' ∧
      r = { handler := endDocument h', reader := s' } := by
  rw [parseStream, hrun] at hr
  cases hdeliver : deliver s'.events (startDocument h) with
  | ok h' =>
    rw [reached_ok, makeCalls_of_ok hdeliver] at hr
    cases hr
    exact ⟨h', rfl, rfl⟩
  | error f =>
    obtain ⟨offset, h', hcalls⟩ := makeCalls_of_error hdeliver
    rw [reached_ok, hcalls] at hr
    have herror := hasParseError_of_faulted (makeCalls_reported hhandle hcalls) hr
    cases herror.symm.trans hok

/-- Without a parse error, the reader and all calls have returned. -/
theorem returns_of_parseStream (hhandle : ∀ e, FailsWith Fault.Reported (handle e : Exec σ Unit))
    {parse : Reader τ Unit} (hparse : FailsWith Fault.Reported parse) {s : ReaderState τ} {h : σ}
    {r : Parsed σ τ} (hr : parseStream parse s h = .ok r) (hok : r.hasParseError = false) :
    ∃ s' h', parse { s with calls := [] } = .ok () s' ∧
      deliver s'.events (startDocument h) = .ok h' ∧
      r = { handler := endDocument h', reader := s' } := by
  cases hrun : parse { s with calls := [] } with
  | ok _ s' =>
    obtain ⟨h', hdeliver, hr'⟩ := delivered_of_parseStream hhandle hrun hr hok
    exact ⟨s', h', rfl, hdeliver, hr'⟩
  | error f s' =>
    rw [parseStream, hrun] at hr
    cases hdeliver : deliver s'.events (startDocument h) with
    | ok h' =>
      rw [reached_error, makeCalls_of_ok hdeliver] at hr
      have herror := hasParseError_of_faulted (hparse _ _ _ hrun) hr
      cases herror.symm.trans hok
    | error f' =>
      obtain ⟨offset, h', hcalls⟩ := makeCalls_of_error hdeliver
      rw [reached_error, hcalls] at hr
      have herror := hasParseError_of_faulted (makeCalls_reported hhandle hcalls) hr
      cases herror.symm.trans hok

end Reader

end AnyRpc
