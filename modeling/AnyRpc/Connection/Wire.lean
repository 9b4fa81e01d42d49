import AnyRpc.Connection.WriteResponse
import AnyRpc.Library.Hoare

/-! # What a response puts on the wire

Where the kernel accepts all that it is offered, what `WriteResponse` sends is determined by the
header and the body: the loop over the header sends the same buffer until enough bytes are counted,
and the loop over the body sends the body. -/

namespace AnyRpc

open Library

/-- What the loop over the header sends while a number of bytes is still to be counted. -/
def headerWire (buffer : Bytes) (n : ℕ) : Bytes :=
  if 0 < n ∧ buffer ≠ [] then buffer ++ headerWire buffer (n - buffer.length) else []
termination_by n
decreasing_by
  have := List.length_pos_iff.mpr (by tauto : buffer ≠ [])
  omega

/-- What `WriteResponse` sends, for a response with a header and a body, if there is one. -/
def responseWire : Option (WriteSegmentedStream × WriteSegmentedStream) → Bytes
  | none => []
  | some (header, response) => headerWire (header.getBuffer 0) header.length ++ response.bytes

/-- What is sent of a header: its first buffer, as often as it takes for its length. -/
def sentHeader (header : WriteSegmentedStream) : Bytes :=
  headerWire (header.getBuffer 0) header.length

theorem headerWire_zero (buffer : Bytes) : headerWire buffer 0 = [] := by
  rw [headerWire, if_neg fun h => lt_irrefl 0 h.1]

/-- A header that fits the first buffer is sent once. -/
theorem sentHeader_of_le {header : WriteSegmentedStream} (h : header.FillsStatic)
    (hle : header.length ≤ WriteSegmentedStream.staticBufferSize - 1) :
    sentHeader header = header.bytes := by
  rw [sentHeader]
  by_cases hpos : 0 < header.length
  · have hne : header.bytes ≠ [] := List.length_pos_iff.mp hpos
    rw [h.getBuffer_zero hpos, List.take_of_length_le hle, headerWire, if_pos ⟨hpos, hne⟩,
      WriteSegmentedStream.length, Nat.sub_self, headerWire_zero, List.append_nil]
  · have hzero : header.length = 0 := Nat.eq_zero_of_not_pos hpos
    rw [hzero, headerWire_zero, List.length_eq_zero_iff.mp hzero]

namespace Connection

/-- A loop of `WriteResponse` has sent so many bytes, at least one for each answer of the kernel, and
goes on with the same streams. -/
structure Sent (c : Connection) (wire : Bytes) (c' : Connection) : Prop where
  header : c'.header = c.header
  response : c'.response = c.response
  sent : c'.socket.sent = c.socket.sent ++ wire
  accepts : c'.AcceptsAll
  attempts_le : c.socket.attempts.length ≤ c'.socket.attempts.length + wire.length

/-- A call of `Send` writes all of its argument, unless the kernel has no more answers. -/
theorem send_cases {c : Connection} (hc : c.AcceptsAll) (buffer : Bytes) :
    c.socket.attempts = [] ∧ send buffer c = .error .pending c ∨
      c.socket.attempts ≠ [] ∧ send buffer c = .ok (true, buffer.length) (c.afterSend buffer) := by
  obtain ⟨⟨sent, attempts, timeout⟩, _, _, _, _, _, _, _, _, _, _⟩ := c
  cases attempts with
  | nil => exact .inl ⟨rfl, rfl⟩
  | cons a as =>
    have ha : a.result = .accepted 0 := hc a List.mem_cons_self
    refine .inr ⟨List.cons_ne_nil _ _, ?_⟩
    simp [send, TcpSocket.send, TcpSocket.sendLoop, ha, afterSend]

theorem acceptsAll_afterSend {c : Connection} (hc : c.AcceptsAll) (buffer : Bytes) :
    (c.afterSend buffer).AcceptsAll :=
  fun a ha => hc a (List.mem_of_mem_tail ha)

/-- The loop over the header. It waits for the kernel only with fewer answers than bytes. -/
theorem writeHeader_wire (fuel : ℕ) {c : Connection} (hfuel : c.socket.attempts.length < fuel)
    (hc : c.AcceptsAll) (hresult : c.resultBytesWritten = 0) :
    wp (writeHeader fuel) (fun result c' => result = none ∧ c'.resultBytesWritten = 0 ∧
        c.Sent (headerWire (c.header.getBuffer 0) (c.header.length - c.headerBytesWritten)) c')
      (fun _ c' => c'.socket.attempts = [] ∧ c.socket.attempts.length <
        (headerWire (c.header.getBuffer 0) (c.header.length - c.headerBytesWritten)).length) c := by
  induction fuel generalizing c with
  | zero => exact absurd hfuel (Nat.not_lt_zero _)
  | succ fuel ih =>
    rw [writeHeader, wp_bind, wp_get, wp_ite]
    constructor
    · intro hlt
      rw [hresult, wp_bind]
      have hne : c.header.getBuffer 0 ≠ [] := (c.header.getBuffer_spec (by omega)).1
      have hwire : headerWire (c.header.getBuffer 0) (c.header.length - c.headerBytesWritten) =
          c.header.getBuffer 0 ++ headerWire (c.header.getBuffer 0)
            (c.header.length - (c.headerBytesWritten + (c.header.getBuffer 0).length)) := by
        rw [headerWire, if_pos ⟨by omega, hne⟩, Nat.sub_sub]
      have hbytes := List.length_pos_iff.mpr hne
      rcases send_cases hc (c.header.getBuffer 0) with ⟨hnil, hsend⟩ | ⟨hcons, hsend⟩
      · rw [wp, hsend]
        refine ⟨hnil, ?_⟩
        rw [hnil, hwire, List.length_append, List.length_nil]
        omega
      · rw [wp, hsend]
        simp only [Bool.not_true, Bool.false_eq_true, if_false, lt_irrefl]
        rw [wp_bind, wp_modify]
        have htail : (c.afterSend (c.header.getBuffer 0)).socket.attempts.length + 1 =
            c.socket.attempts.length := by
          have hpos := List.length_pos_iff.mpr hcons
          show c.socket.attempts.tail.length + 1 = _
          rw [List.length_tail]
          omega
        have hlength : (c.afterSend (c.header.getBuffer 0)).socket.attempts.length < fuel := by
          omega
        refine wp_mono (ih hlength (acceptsAll_afterSend hc _) hresult) ?_ ?_
        · rintro result c' ⟨rfl, hresult', hsent⟩
          refine ⟨rfl, hresult', hsent.header, hsent.response, ?_, hsent.accepts, ?_⟩
          · rw [hsent.sent, hwire, ← List.append_assoc]
            rfl
          · have hle : (c.afterSend (c.header.getBuffer 0)).socket.attempts.length ≤
              c'.socket.attempts.length + (headerWire (c.header.getBuffer 0) (c.header.length -
                (c.headerBytesWritten + (c.header.getBuffer 0).length))).length := hsent.attempts_le
            rw [hwire, List.length_append]
            omega
        · rintro e c' ⟨hnil, hfew⟩
          have hfew' : (c.afterSend (c.header.getBuffer 0)).socket.attempts.length <
            (headerWire (c.header.getBuffer 0) (c.header.length -
              (c.headerBytesWritten + (c.header.getBuffer 0).length))).length := hfew
          refine ⟨hnil, ?_⟩
          rw [hwire, List.length_append]
          omega
    · intro hge
      rw [wp_pure]
      refine ⟨rfl, hresult, rfl, rfl, ?_, hc, Nat.le_add_right _ _⟩
      rw [headerWire, if_neg (by omega), List.append_nil]

/-- The loop over the body. It waits for the kernel only with fewer answers than bytes. -/
theorem writeBody_wire (fuel : ℕ) {c : Connection} (hfuel : c.socket.attempts.length < fuel)
    (hc : c.AcceptsAll) :
    wp (writeBody fuel) (fun result c' => result = none ∧
        c.Sent (c.response.bytes.drop c.resultBytesWritten) c')
      (fun _ c' => c'.socket.attempts = [] ∧
        c.socket.attempts.length < (c.response.bytes.drop c.resultBytesWritten).length) c := by
  induction fuel generalizing c with
  | zero => exact absurd hfuel (Nat.not_lt_zero _)
  | succ fuel ih =>
    rw [writeBody, wp_bind, wp_get, wp_ite]
    constructor
    · intro hlt
      rw [wp_bind]
      obtain ⟨hne, rest, hrest⟩ := c.response.getBuffer_spec hlt
      have hwire : c.response.bytes.drop c.resultBytesWritten =
          c.response.getBuffer c.resultBytesWritten ++ c.response.bytes.drop
            (c.resultBytesWritten + (c.response.getBuffer c.resultBytesWritten).length) := by
        rw [← List.drop_drop, ← hrest, List.drop_left]
      have hbytes := List.length_pos_iff.mpr hne
      rcases send_cases hc (c.response.getBuffer c.resultBytesWritten) with
        ⟨hnil, hsend⟩ | ⟨hcons, hsend⟩
      · rw [wp, hsend]
        refine ⟨hnil, ?_⟩
        rw [hnil, hwire, List.length_append, List.length_nil]
        omega
      · rw [wp, hsend]
        simp only [Bool.not_true, Bool.false_eq_true, if_false, lt_irrefl]
        rw [wp_bind, wp_modify]
        have htail : (c.afterSend
            (c.response.getBuffer c.resultBytesWritten)).socket.attempts.length + 1 =
              c.socket.attempts.length := by
          have hpos := List.length_pos_iff.mpr hcons
          show c.socket.attempts.tail.length + 1 = _
          rw [List.length_tail]
          omega
        have hlength : (c.afterSend
            (c.response.getBuffer c.resultBytesWritten)).socket.attempts.length < fuel := by
          omega
        refine wp_mono (ih hlength (acceptsAll_afterSend hc _)) ?_ ?_
        · rintro result c' ⟨rfl, hsent⟩
          refine ⟨rfl, hsent.header, hsent.response, ?_, hsent.accepts, ?_⟩
          · rw [hsent.sent, hwire, ← List.append_assoc]
            rfl
          · have hle : (c.afterSend
                (c.response.getBuffer c.resultBytesWritten)).socket.attempts.length ≤
              c'.socket.attempts.length + (c.response.bytes.drop (c.resultBytesWritten +
                (c.response.getBuffer c.resultBytesWritten).length)).length := hsent.attempts_le
            rw [hwire, List.length_append]
            omega
        · rintro e c' ⟨hnil, hfew⟩
          have hfew' : (c.afterSend
              (c.response.getBuffer c.resultBytesWritten)).socket.attempts.length <
            (c.response.bytes.drop (c.resultBytesWritten +
              (c.response.getBuffer c.resultBytesWritten).length)).length := hfew
          refine ⟨hnil, ?_⟩
          rw [hwire, List.length_append]
          omega
    · intro hge
      rw [wp_pure]
      refine ⟨rfl, rfl, rfl, ?_, hc, Nat.le_add_right _ _⟩
      rw [List.drop_of_length_le (by rw [WriteSegmentedStream.length] at hge; omega),
        List.append_nil]

end Connection

end AnyRpc
