import AnyRpc.Client.ReadResponse
import AnyRpc.Connection.ResponseHeader

/-! # What a client has sent when it gives up

`Call`, `Post` and `Notify` write a request a second time, to another connection, when the first
`WriteRequest` gives up. What that one has put on the wire by then is a part of the message. -/

namespace AnyRpc

open Library

/-! ## Sending -/

namespace TcpSocket

/-- `Send` has written a part of its argument when it gives up. -/
theorem sendLoop_failure {buffer : Bytes} {timeout : ℕ} {attempts : List SendAttempt}
    {bytesWritten n : ℕ} {sent : Bytes} {socket : TcpSocket} (hlt : bytesWritten < buffer.length)
    (h : sendLoop buffer timeout attempts bytesWritten sent = .ok (false, n) socket) :
    ∃ part, part <+: buffer.drop bytesWritten ∧ part ≠ buffer.drop bytesWritten ∧
      socket.sent = sent ++ part := by
  have hne : ([] : Bytes) ≠ buffer.drop bytesWritten := fun hnil => by
    have hle := List.drop_eq_nil_iff.mp hnil.symm
    omega
  induction attempts generalizing bytesWritten sent with
  | nil => cases h
  | cons attempt attempts ih =>
    rw [sendLoop] at h
    cases hresult : attempt.result with
    | failed fatal =>
      rw [hresult] at h
      simp only at h
      split at h
      · exact ih hlt h hne
      · cases h
        exact ⟨[], List.nil_prefix, hne, (List.append_nil _).symm⟩
    | accepted left =>
      rw [hresult] at h
      simp only at h
      by_cases hall : buffer.length ≤ bytesWritten + (buffer.length - bytesWritten - left)
      · rw [if_pos hall] at h
        cases h
      · rw [if_neg hall] at h
        -- The bytes that this answer accepts, and those behind them.
        have hsplit : (buffer.drop bytesWritten).take (buffer.length - bytesWritten - left) ++
            buffer.drop (bytesWritten + (buffer.length - bytesWritten - left)) =
              buffer.drop bytesWritten := by
          rw [← List.drop_drop, List.take_append_drop]
        have hbehind : buffer.drop (bytesWritten + (buffer.length - bytesWritten - left)) ≠ [] :=
          fun hnil => hall (List.drop_eq_nil_iff.mp hnil)
        split at h
        · obtain ⟨part, hpart, hcut, hsent⟩ := ih (not_le.mp hall) h hbehind.symm
          refine ⟨_, ?_, fun heq => ?_, hsent.trans (List.append_assoc _ _ _)⟩
          · have hmore := (List.prefix_append_right_inj ((buffer.drop bytesWritten).take
              (buffer.length - bytesWritten - left))).mpr hpart
            rwa [hsplit] at hmore
          · exact hcut (List.append_cancel_left (heq.trans hsplit.symm))
        · cases h
          refine ⟨_, List.take_prefix _ _, fun heq => hbehind ?_, rfl⟩
          rw [heq] at hsplit
          exact List.append_right_eq_self.mp hsplit

end TcpSocket

namespace Client

variable {ρ υ π : Type}

/-- A part of a text is put on the wire: all of it on success, and else less than all. -/
def Sends (text : Bytes) (s : Client ρ υ) (success : Bool) (s' : Client ρ υ) : Prop :=
  ∃ part, s'.socket.sent = s.socket.sent ++ part ∧
    if success then part = text else part <+: text ∧ part ≠ text

theorem wp_getTimeLeft_of {Q : ℕ → Client ρ υ → Prop} {s : Client ρ υ}
    (h : ∀ t timeLeft, Q t { s with timeLeft }) : wp getTimeLeft Q (fun _ _ => True) s := by
  unfold wp getTimeLeft
  cases s.timeLeft with
  | nil => trivial
  | cons t timeLeft => exact h t timeLeft

/-- A call of `Send` puts a part of its argument on the wire. -/
theorem send_sends {buffer : Bytes} (hne : buffer ≠ []) (timeout : ℕ) (s : Client ρ υ) :
    wp (send buffer timeout)
      (fun r s' => Sends buffer s r.1 s' ∧ (r.1 = true → r.2 = buffer.length))
      (fun _ _ => True) s := by
  unfold wp send
  cases hsend : TcpSocket.send buffer { s.socket with timeout } with
  | error e socket => trivial
  | ok r socket =>
    obtain ⟨success, n⟩ := r
    cases success with
    | true =>
      obtain ⟨hn, hsent⟩ := TcpSocket.sendLoop_success (Nat.zero_le _) hsend
      exact ⟨⟨buffer, hsent, rfl⟩, fun _ => hn⟩
    | false =>
      obtain ⟨part, hpart, hcut, hsent⟩ :=
        TcpSocket.sendLoop_failure (List.length_pos_iff.mpr hne) hsend
      exact ⟨⟨part, hsent, hpart, hcut⟩, fun h => by cases h⟩

/-- What is sent in two parts. -/
theorem Sends.trans {first rest : Bytes} {s s₁ s₂ : Client ρ υ} {success : Bool}
    (hfirst : Sends first s true s₁) (hrest : Sends rest s₁ success s₂) :
    Sends (first ++ rest) s success s₂ := by
  obtain ⟨part₁, hsent₁, hall⟩ := hfirst
  obtain rfl : part₁ = first := hall
  obtain ⟨part, hsent₂, hpart⟩ := hrest
  refine ⟨part₁ ++ part, by rw [hsent₂, hsent₁, List.append_assoc], ?_⟩
  cases success with
  | true => exact congrArg (part₁ ++ ·) hpart
  | false =>
    exact ⟨(List.prefix_append_right_inj _).mpr hpart.1, fun h => hpart.2 (List.append_cancel_left h)⟩

/-- A part that is not all is a part when more follows. -/
theorem Sends.append {first : Bytes} {s s' : Client ρ υ} (h : Sends first s false s') (rest : Bytes) :
    Sends (first ++ rest) s false s' := by
  obtain ⟨part, hsent, hpart, hcut⟩ := h
  refine ⟨part, hsent, hpart.trans (List.prefix_append _ _), fun heq => hcut ?_⟩
  refine hpart.eq_of_length_le ?_
  rw [heq, List.length_append]
  exact Nat.le_add_right _ _

/-- A loop of `WriteRequest` sends what is left of its stream. -/
theorem writeStream_sends (stream : WriteSegmentedStream) (fuel bytesWritten : ℕ) (s : Client ρ υ) :
    wp (writeStream stream fuel bytesWritten) (Sends (stream.bytes.drop bytesWritten) s)
      (fun _ _ => True) s := by
  induction fuel generalizing bytesWritten s with
  | zero => trivial
  | succ fuel ih =>
    rw [writeStream, wp_ite]
    refine ⟨fun hlt => ?_, fun hge => ?_⟩
    · obtain ⟨hne, rest, hrest⟩ := stream.getBuffer_spec hlt
      rw [wp_bind]
      refine wp_getTimeLeft_of fun t timeLeft => ?_
      refine wp_seq (send_sends hne t _) ?_
      rintro ⟨success, written⟩ s₁ ⟨hsends, hall⟩
      have hsends : Sends (stream.getBuffer bytesWritten) s success s₁ := hsends
      rw [← hrest]
      cases success with
      | true =>
        obtain rfl : written = (stream.getBuffer bytesWritten).length := hall rfl
        have hbehind : stream.bytes.drop
            (bytesWritten + (stream.getBuffer bytesWritten).length) = rest := by
          rw [← List.drop_drop, ← hrest, List.drop_left]
        refine wp_mono (ih _ s₁) (fun success s₂ h => ?_) fun _ _ h => h
        rw [hbehind] at h
        exact hsends.trans h
      | false => exact hsends.append rest
    · rw [wp_pure]
      have hnil : stream.bytes.drop bytesWritten = [] := List.drop_of_length_le (not_lt.mp hge)
      rw [hnil]
      exact ⟨[], (List.append_nil _).symm, rfl⟩

/-- `WriteRequest` sends the header and the request. -/
theorem writeRequest_sends (peer : Peer) (s : Client ρ υ) :
    wp (writeRequest peer) (Sends (s.header.bytes ++ s.request.bytes) s) (fun _ _ => True) s := by
  rw [writeRequest, wp_bind, wp_get]
  refine wp_seq (writeStream_sends s.header _ 0 s) fun success s₁ h₁ => ?_
  rw [List.drop_zero] at h₁
  cases success with
  | false => exact h₁.append _
  | true =>
    refine (wp_bind _ _).mpr ?_
    rw [wp_get]
    refine wp_seq (writeStream_sends s.request _ 0 s₁) fun success s₂ h₂ => ?_
    rw [List.drop_zero] at h₂
    have hsends := h₁.trans h₂
    cases success with
    | false => exact hsends
    | true => exact hsends

/-! ## The first attempt -/

variable (transport : ClientTransport ρ υ) (handler : ClientHandler π υ) (peer : Peer) (p : π)
  (notification : Bool)

/-- What `Call`, `Post` and `Notify` do before the first `WriteRequest`. -/
def prepareRequest : ClientM ρ υ Bool := do
  modify fun s => { s with result := .invalid }
  preserveReceiveBuffer
  resetTransaction transport
  if !(← connect transport) then return false
  else if !(← generateRequest handler p notification) then return false
  else
    generateHeader transport
    return true

/-- What is generated for a request, and what is written for it. -/
def generated (s : Client ρ υ) : Bytes := (handler.generateRequest p notification s.nextId).request

/-- The streams of a client hold the message for a request. -/
def Prepared (request : Bytes) (s : Client ρ υ) : Prop :=
  ∃ header stream : WriteSegmentedStream, header.bytes = [] ∧ stream.bytes = request ∧
    (s.header, s.request) = transport.generateHeader header stream

theorem leaves_streams_connect :
    Leaves (fun s : Client ρ υ => (s.header, s.request, s.nextId)) (connect transport) := by
  refine .bind (leaves_isConnected_of fun _ _ => rfl) fun connected => .ite (.pure _) ?_
  refine .bind (.modify fun _ => rfl) fun _ => .bind (.modify fun _ => rfl) fun _ => ?_
  refine .bind (.modify fun _ => rfl) fun _ => .bind (leaves_getTimeLeft_of fun _ _ => rfl) fun _ => ?_
  refine .bind (leaves_isConnected_of fun _ _ => rfl) fun connected => .ite (.pure _) ?_
  exact .bind (.modify fun _ => rfl) fun _ => .pure _

theorem prepareRequest_prepared (s : Client ρ υ) :
    wp (prepareRequest transport handler p notification)
      (fun success s₁ => success = true → Prepared transport (generated handler p notification s) s₁)
      (fun _ _ => True) s := by
  rw [prepareRequest, wp_bind, wp_modify, preserveReceiveBuffer, bind_assoc, wp_bind]
  refine wp_store (fun _ => trivial) fun message _ => ?_
  rw [wp_bind, wp_modify, resetTransaction, wp_bind, wp_modify]
  rw [wp_bind]
  refine wp_mono ((leaves_streams_connect transport).and wp_true) ?_ fun _ _ _ => trivial
  rintro connected s₁ ⟨hstreams, -⟩
  obtain ⟨hheader, hrequest, hnext⟩ : s₁.header = s.header.clear ∧ s₁.request = s.request.clear ∧
    s₁.nextId = s.nextId := by
      simpa using hstreams
  cases connected with
  | false => exact fun h => by cases h
  | true =>
    simp only [Bool.not_true, Bool.false_eq_true, if_false]
    rw [generateRequest, bind_assoc, wp_bind, wp_get, bind_assoc, wp_bind, wp_modify, pure_bind]
    cases (handler.generateRequest p notification s₁.nextId).success with
    | false => exact fun h => by cases h
    | true =>
      refine fun _ => ⟨s₁.header, _, ?_, ?_, rfl⟩
      · rw [hheader]
        rfl
      · rw [WriteSegmentedStream.bytes_put, hrequest, hnext]
        rfl

/-- The first `WriteRequest` of an operation gives up, with a part of the message delivered. -/
def GivesUp (s : Client ρ υ) (delivered : Bytes) : Prop :=
  ∃ s₁ s₂, prepareRequest transport handler p notification s = .ok true s₁ ∧
    writeRequest peer s₁ = .ok false s₂ ∧ s₂.socket.sent = s₁.socket.sent ++ delivered

/-- A run on a fixed state shows that the first `WriteRequest` gives up. -/
theorem givesUp_of_wp {transport : ClientTransport ρ υ} {handler : ClientHandler π υ} {peer : Peer}
    {p : π} {notification : Bool} {s : Client ρ υ} {delivered : Bytes}
    (h : wp (prepareRequest transport handler p notification)
      (fun prepared s₁ => prepared = true ∧ wp (writeRequest peer)
        (fun written s₂ => written = false ∧ s₂.socket.sent = s₁.socket.sent ++ delivered)
        (fun _ _ => False) s₁)
      (fun _ _ => False) s) : GivesUp transport handler peer p notification s delivered := by
  unfold wp at h
  cases hprepare : prepareRequest transport handler p notification s with
  | error e s₁ =>
    rw [hprepare] at h
    exact h.elim
  | ok prepared s₁ =>
    rw [hprepare] at h
    obtain ⟨rfl, h⟩ := h
    cases hwrite : writeRequest peer s₁ with
    | error e s₂ =>
      rw [hwrite] at h
      exact h.elim
    | ok written s₂ =>
      rw [hwrite] at h
      obtain ⟨rfl, hsent⟩ := h
      exact ⟨s₁, s₂, hprepare, hwrite, hsent⟩

/-- What is delivered is not all of the message. -/
theorem GivesUp.cut {transport : ClientTransport ρ υ} {handler : ClientHandler π υ} {peer : Peer}
    {p : π} {notification : Bool} {s : Client ρ υ} {delivered : Bytes}
    (h : GivesUp transport handler peer p notification s delivered) :
    ∃ s₁, Prepared transport (generated handler p notification s) s₁ ∧
      delivered <+: s₁.header.bytes ++ s₁.request.bytes ∧
        delivered ≠ s₁.header.bytes ++ s₁.request.bytes := by
  obtain ⟨s₁, s₂, hprepare, hwrite, hsent⟩ := h
  obtain ⟨part, hpart, hcut⟩ := (writeRequest_sends peer s₁).of_ok hwrite
  obtain rfl : delivered = part := List.append_cancel_left (hsent.symm.trans hpart)
  exact ⟨s₁, (prepareRequest_prepared transport handler p notification s).of_ok hprepare rfl, hcut⟩

end Client

end AnyRpc
