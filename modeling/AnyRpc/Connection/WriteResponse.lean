import AnyRpc.Connection.Connection

/-! # The bytes that a response puts on the wire

`WriteResponse` keeps what is sent a prefix of header and body as long as the header lies in one
buffer and the kernel accepts all that it is offered. A kernel that accepts less ends the response:
`Send` then reports a timeout, and the connection is closed. -/

namespace AnyRpc

open Library

namespace Connection

/-! ## A kernel that accepts everything -/

/-- All the answers of the kernel accept what they are offered. -/
def AcceptsAll (c : Connection) : Prop := ∀ a ∈ c.socket.attempts, a.result = .accepted 0

/-- The connection after a call of `Send` that wrote all of its argument. -/
def afterSend (buffer : Bytes) (c : Connection) : Connection :=
  { c with socket := { c.socket with
    sent := c.socket.sent ++ buffer
    attempts := c.socket.attempts.tail } }

/-- A call of `Send` waits for the kernel, or it writes all of its argument. -/
theorem send_of_acceptsAll {c : Connection} (h : c.AcceptsAll) (buffer : Bytes) :
    send buffer c = .error .pending c ∨
      send buffer c = .ok (true, buffer.length) (c.afterSend buffer) := by
  obtain ⟨⟨sent, attempts, timeout⟩, _, _, _, _, _, _, _, _, _, _⟩ := c
  cases attempts with
  | nil => exact .inl rfl
  | cons a as =>
    have ha : a.result = .accepted 0 := h a List.mem_cons_self
    right
    simp [send, TcpSocket.send, TcpSocket.sendLoop, ha, afterSend]

/-! ## Progress -/

/-- The connection is writing its response, of which it has sent the given numbers of bytes of the
header and of the body, and the kernel accepts everything. -/
structure Progress (header response : WriteSegmentedStream) (sent₀ : Bytes) (h r : ℕ)
    (c : Connection) : Prop where
  state : c.connectionState = .writeResponse
  header_eq : c.header = header
  response_eq : c.response = response
  headerWritten : c.headerBytesWritten = h
  resultWritten : c.resultBytesWritten = r
  sent : c.socket.sent = sent₀ ++ (header.bytes.take h ++ response.bytes.take r)
  accepts : c.AcceptsAll

section

variable {header response : WriteSegmentedStream} {sent₀ : Bytes} {c : Connection}

/-- The header is written in one call, when it lies in one buffer. -/
theorem writeHeader_spec (hfront : header.front = []) (fuel : ℕ) {h : ℕ}
    (hh : h = 0 ∨ h = header.length) (hc : Progress header response sent₀ h 0 c) :
    match writeHeader fuel c with
    | .ok result c' => result = none ∧ Progress header response sent₀ header.length 0 c'
    | .error _ c' => ∃ h', Progress header response sent₀ h' 0 c' := by
  induction fuel generalizing h c with
  | zero => exact ⟨h, hc⟩
  | succ fuel ih =>
    simp only [writeHeader, bind_apply, get_apply, hc.headerWritten, hc.header_eq]
    by_cases hlt : h < header.length
    · have h0 : h = 0 := hh.resolve_right (by omega)
      subst h0
      rw [if_pos hlt, hc.resultWritten, WriteSegmentedStream.getBuffer_zero hfront hlt]
      rcases send_of_acceptsAll hc.accepts header.bytes with hsend | hsend
      · simp only [hsend, bind_apply]
        exact ⟨0, hc⟩
      · simp only [bind_apply, hsend, Bool.not_true, Bool.false_eq_true, if_false,
          modify_apply, lt_irrefl]
        refine ih (.inr rfl) ⟨hc.state, hc.header_eq, hc.response_eq, ?_, hc.resultWritten, ?_, ?_⟩
        · show c.headerBytesWritten + header.bytes.length = header.length
          rw [hc.headerWritten, zero_add]
          rfl
        · show c.socket.sent ++ header.bytes = _
          rw [hc.sent]
          simp [WriteSegmentedStream.length]
        · exact fun a ha => hc.accepts a (List.mem_of_mem_tail ha)
    · have hend : h = header.length := by
        rcases hh with rfl | hh
        · have hempty : header.length = 0 := by omega
          exact hempty.symm
        · exact hh
      rw [if_neg hlt]
      exact ⟨rfl, hend ▸ hc⟩

/-- The body is written buffer by buffer. -/
theorem writeBody_spec (fuel : ℕ) {r : ℕ} (hr : r ≤ response.length)
    (hc : Progress header response sent₀ header.length r c) :
    match writeBody fuel c with
    | .ok result c' =>
      result = none ∧ Progress header response sent₀ header.length response.length c'
    | .error _ c' => ∃ r', Progress header response sent₀ header.length r' c' := by
  induction fuel generalizing r c with
  | zero => exact ⟨r, hc⟩
  | succ fuel ih =>
    simp only [writeBody, bind_apply, get_apply, hc.resultWritten, hc.response_eq]
    by_cases hlt : r < response.length
    · obtain ⟨-, rest, hrest⟩ := response.getBuffer_spec hlt
      have hle : r + (response.getBuffer r).length ≤ response.length := by
        have hlength := congrArg List.length hrest
        rw [List.length_append, List.length_drop] at hlength
        rw [WriteSegmentedStream.length] at hlt ⊢
        omega
      have htake : response.bytes.take (r + (response.getBuffer r).length) =
          response.bytes.take r ++ response.getBuffer r := by
        rw [List.take_add, ← hrest, List.take_left]
      rw [if_pos hlt]
      rcases send_of_acceptsAll hc.accepts (response.getBuffer r) with hsend | hsend
      · simp only [hsend, bind_apply]
        exact ⟨r, hc⟩
      · simp only [bind_apply, hsend, Bool.not_true, Bool.false_eq_true, if_false,
          modify_apply, lt_irrefl]
        refine ih hle ⟨hc.state, hc.header_eq, hc.response_eq, hc.headerWritten, ?_, ?_, ?_⟩
        · show c.resultBytesWritten + _ = _
          rw [hc.resultWritten]
        · show c.socket.sent ++ response.getBuffer r = _
          rw [hc.sent, htake, List.append_assoc, List.append_assoc]
        · exact fun a ha => hc.accepts a (List.mem_of_mem_tail ha)
    · have hend : r = response.length := by omega
      rw [if_neg hlt]
      exact ⟨rfl, hend ▸ hc⟩

/-! ## The whole response -/

/-- What is sent is a prefix of the response; the connection leaves `WRITE_RESPONSE` only when all
of it is sent, and it is closed only when it is not to be kept alive. -/
structure InOrder (all sent₀ : Bytes) (c : Connection) : Prop where
  sent_prefix : ∃ k, c.socket.sent = sent₀ ++ all.take k
  complete : c.connectionState ≠ .writeResponse → c.socket.sent = sent₀ ++ all
  closed : c.connectionState = .closeConnection → c.keepAlive = false

/-- Progress keeps the order. -/
theorem Progress.inOrder {h r : ℕ} (hc : Progress header response sent₀ h r c)
    (hh : r = 0 ∨ h = header.length) :
    InOrder (header.bytes ++ response.bytes) sent₀ c where
  sent_prefix := by
    rcases hh with rfl | rfl
    · refine ⟨min h header.bytes.length, ?_⟩
      rw [hc.sent, List.take_append_of_le_length (min_le_right _ _), List.take_zero,
        List.append_nil, ← List.take_eq_take_min]
    · refine ⟨header.bytes.length + r, ?_⟩
      rw [hc.sent, WriteSegmentedStream.length, List.take_length, List.take_length_add_append]
  complete hne := absurd hc.state hne
  closed hclose := by
    rw [hc.state] at hclose
    cases hclose

/-- A whole `WriteResponse` keeps the order, and when it returns, all is sent. -/
theorem writeResponse_spec (hfront : header.front = []) (hc : Progress header response sent₀ 0 0 c) :
    match writeResponse c with
    | .ok result c' => c'.connectionState = .readHeader ∧
        c'.socket.sent = sent₀ ++ (header.bytes ++ response.bytes) ∧ c'.keepAlive = result
    | .error _ c' => InOrder (header.bytes ++ response.bytes) sent₀ c' := by
  have hheader := writeHeader_spec hfront (c.socket.attempts.length + 1) (.inl rfl) hc
  simp only [writeResponse, bind_apply, get_apply]
  cases hrun : writeHeader (c.socket.attempts.length + 1) c with
  | error e c' =>
    rw [hrun] at hheader
    obtain ⟨h', hc'⟩ := hheader
    exact hc'.inOrder (.inl rfl)
  | ok result c' =>
    rw [hrun] at hheader
    obtain ⟨rfl, hc'⟩ := hheader
    have hbody := writeBody_spec (c'.socket.attempts.length + 1) (Nat.zero_le _) hc'
    simp only [bind_apply, get_apply]
    cases hrun' : writeBody (c'.socket.attempts.length + 1) c' with
    | error e c'' =>
      rw [hrun'] at hbody
      obtain ⟨r', hc''⟩ := hbody
      exact hc''.inOrder (.inr rfl)
    | ok result c'' =>
      rw [hrun'] at hbody
      obtain ⟨rfl, hc''⟩ := hbody
      refine ⟨rfl, ?_, rfl⟩
      show c''.socket.sent = _
      rw [hc''.sent, WriteSegmentedStream.length, WriteSegmentedStream.length, List.take_length,
        List.take_length]

variable (readHeader readRequest executeRequest : EStateM Pending Connection Bool)

/-- A round of `Process` in `WRITE_RESPONSE` keeps the order, and ends in another state. -/
theorem processState_spec (hfront : header.front = []) (hc : Progress header response sent₀ 0 0 c)
    (executeAfterRead : Bool) :
    match processState readHeader readRequest executeRequest executeAfterRead c with
    | .ok _ c' => InOrder (header.bytes ++ response.bytes) sent₀ c' ∧
        c'.connectionState ≠ .writeResponse
    | .error _ c' => InOrder (header.bytes ++ response.bytes) sent₀ c' := by
  have hwrite := writeResponse_spec hfront hc
  simp only [processState, bind_apply, get_apply, hc.state, reduceCtorEq, if_false, if_true,
    decide_false, Bool.and_false, Bool.false_eq_true]
  cases hrun : writeResponse c with
  | error e c' =>
    rw [hrun] at hwrite
    exact hwrite
  | ok result c' =>
    rw [hrun] at hwrite
    obtain ⟨hstate, hsent, hkeep⟩ := hwrite
    have hpre : ∃ k, c'.socket.sent = sent₀ ++ (header.bytes ++ response.bytes).take k :=
      ⟨(header.bytes ++ response.bytes).length, by rw [hsent, List.take_length]⟩
    cases result with
    | true =>
      refine ⟨⟨hpre, fun _ => hsent, fun hclose => ?_⟩, ?_⟩
      · exact absurd (hstate.symm.trans hclose) (by decide)
      · exact fun hne => absurd (hstate.symm.trans hne) (by decide)
    | false => exact ⟨⟨hpre, fun _ => hsent, fun _ => hkeep⟩, by simp⟩

/-- Over every run of a connection that starts to write a response whose header lies in one buffer,
with a kernel that accepts all it is offered, the response is sent in order. -/
theorem serve_inOrder (hfront : header.front = []) (hc : Progress header response sent₀ 0 0 c)
    (executeAfterRead : Bool) (rounds : ℕ) :
    InOrder (header.bytes ++ response.bytes) sent₀
      (reached (serve readHeader readRequest executeRequest executeAfterRead rounds c)) := by
  cases rounds with
  | zero => exact hc.inOrder (.inl rfl)
  | succ n =>
    have hround := processState_spec readHeader readRequest executeRequest hfront hc
      executeAfterRead
    simp only [serve, bind_apply, get_apply, hc.state, if_true]
    cases hrun : processState readHeader readRequest executeRequest executeAfterRead c with
    | error e c' =>
      rw [hrun] at hround
      exact hround
    | ok _ c' =>
      rw [hrun] at hround
      obtain ⟨horder, hne⟩ := hround
      have hstop : serve readHeader readRequest executeRequest executeAfterRead n c' =
          .ok () c' := by
        cases n with
        | zero => rfl
        | succ n => simp [serve, hne]
      simp only [hstop, reached_ok]
      exact horder

end

/-- A connection that is about to write a response. -/
def responding (header response : List Bytes) (keepAlive : Bool) (attempts : List SendAttempt)
    (sent₀ : Bytes) : Connection where
  socket := { sent := sent₀, attempts }
  connectionState := .writeResponse
  keepAlive := keepAlive
  header := .written header
  response := .written response

/-- Where the header fits the first buffer of its stream and the kernel accepts all it is offered,
every run sends the response in order, leaves `WRITE_RESPONSE` only when all of it is sent, and
closes only a connection that is not to be kept alive. -/
theorem responding_inOrder (readHeader readRequest executeRequest : EStateM Pending Connection Bool)
    (header response : List Bytes) (keepAlive : Bool) (attempts : List SendAttempt) (sent₀ : Bytes)
    (hheader : header.flatten.length ≤ 1023) (hsend : ∀ a ∈ attempts, a.result = .accepted 0)
    (executeAfterRead : Bool) (rounds : ℕ) :
    InOrder (header.flatten ++ response.flatten) sent₀
      (reached (serve readHeader readRequest executeRequest executeAfterRead rounds
        (responding header response keepAlive attempts sent₀))) := by
  have hstart : Progress (.written header) (.written response) sent₀ 0 0
      (responding header response keepAlive attempts sent₀) :=
    ⟨rfl, rfl, rfl, rfl, rfl, by simp [responding], hsend⟩
  have horder := serve_inOrder readHeader readRequest executeRequest
    (WriteSegmentedStream.front_written hheader) hstart executeAfterRead rounds
  rwa [WriteSegmentedStream.bytes_written, WriteSegmentedStream.bytes_written] at horder

/-- A header and a body of one byte each. -/
theorem responding_inOrder_two : InOrder [0x41, 0x42] []
    (reached (serve (pure true) (pure true) (pure true) true 1
      (responding [[0x41]] [[0x42]] true [⟨.accepted 0, 0, true⟩, ⟨.accepted 0, 0, true⟩] []))) :=
  responding_inOrder (pure true) (pure true) (pure true) [[0x41]] [[0x42]] true _ []
    (by decide) (by decide) true 1

/-- A kernel that accepts one byte of two: the connection is closed and the other byte is lost. -/
theorem responding_short_write :
    let c := reached (serve (pure true) (pure true) (pure true) true 1
      (responding [[0x41, 0x42]] [] true [⟨.accepted 1, 0, true⟩] []))
    c.connectionState = .closeConnection ∧ c.keepAlive = true ∧ c.socket.sent = [0x41] ∧
      ¬ InOrder [0x41, 0x42] [] c := by
  have hheader : WriteSegmentedStream.written [[0x41, 0x42]] = _ :=
    WriteSegmentedStream.written_singleton (by decide)
  simp only [responding, hheader]
  refine ⟨rfl, rfl, rfl, fun horder => ?_⟩
  exact absurd (horder.closed rfl) (by decide)

end Connection

end AnyRpc
