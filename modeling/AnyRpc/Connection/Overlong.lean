import AnyRpc.Connection.Http
import AnyRpc.Connection.Tcp

/-! # Headers that do not fit the buffer

`ReadHeader` asks `Receive` for as many bytes as there is room in the buffer. Where this is full of a
header that is not complete, it asks for none, and nothing changes any more. What a connection has in
its buffer is what its stream leaves behind the messages so far, whatever becomes of the responses. -/

namespace AnyRpc

open Library ServerConnection

variable {ρ ω ε : Type} [Transport ρ] {S : Service ρ ω ε} {start : ρ × ω} {stream : Bytes}
  {s : ServerConnection ρ ω ε}

/-- There is a message in a stream whose header is not complete within the bytes that fit the buffer. -/
def Service.Overlong (S : Service ρ ω ε) (start : ρ × ω) (stream : Bytes) : Prop :=
  ∃ es σ q, S.framing.Receives start stream es (some (σ, q)) ∧ maxBufferLength ≤ q.length ∧
    S.head σ.1 (q.take maxBufferLength) = .incomplete

section

variable (S : Service ρ ω ε) (start : ρ × ω) (stream : Bytes) (s : ServerConnection ρ ω ε)

/-- What was received is the beginning of the stream, and leaves a rest in a state. -/
structure Tracks (σ : ρ × ω) (q : Bytes) : Prop where
  stream_eq : stream = s.received.flatten ++ s.incoming.unread
  receives : ∃ es, S.framing.Receives start s.received.flatten es (some (σ, q))

/-- How far a connection is with its stream, whatever becomes of the responses. -/
inductive Framed : Prop
  | header {σ : ρ × ω} {q : Bytes} (hstate : s.connectionState = .readHeader)
      (h : Tracks S start stream s σ q) (hworld : s.world = σ.2) (hidle : Idle s)
      (hlength : s.message.buffer.length = maxBufferLength + 1) (hcontent : s.message.content = .null)
      (hdata : s.message.data = q) (hbuffer : s.message.bufferLength = q.length)
      (hle : q.length ≤ maxBufferLength)
      (hfull : q.length = maxBufferLength → S.head σ.1 q = .incomplete)
      (hseen : S.Seen σ.1 s.derived q)
  | body {σ : ρ × ω} {q : Bytes} {b n : ℕ} (hstate : s.connectionState = .readRequest ∨
        s.connectionState = .executeRequest ∧ b + n ≤ q.length)
      (h : Tracks S start stream s σ q) (hworld : s.world = σ.2) (hidle : Idle s)
      (hhead : S.head σ.1 (q.take maxBufferLength) = .complete b n s.keepAlive s.derived)
      (hle : n ≤ maxContentLength) (hholds : s.message.Holds q b n)
  | response {σ : ρ × ω} {q : Bytes} {n : ℕ} {e : ε × Bytes}
      (hstate : s.connectionState = .writeResponse) (h : Tracks S start stream s σ q)
      (hlook : S.look σ q = .message n e
        (if !s.keepAlive then none else some (Transport.initializeData s.derived, s.world)))
      (hbehind : s.message.Behind (q.drop n)) (hshort : (q.drop n).length < maxBufferLength)
      (hheader : s.header.clear = .newDefault) (hresponse : s.response.clear = .newDefault)
  | closed (hstate : s.connectionState = .closeConnection)

end

/-! ## The parts of a step -/

/-- Something is received. -/
theorem Tracks.receive {σ : ρ × ω} {q : Bytes} (h : Tracks S start stream s σ q) {maxLength : ℕ}
    {r : Received} {incoming : Incoming} {s' : ServerConnection ρ ω ε}
    (hreceive : s.incoming.receive maxLength 0 = some (r, incoming))
    (hmoved : Moved s incoming [r.data] s') : Tracks S start stream s' σ (q ++ r.data) where
  stream_eq := by
    have hunread := (Incoming.receive_outcome hreceive).unread_eq
    rw [hmoved.received, hmoved.incoming, h.stream_eq, hunread]
    simp
  receives := by
    obtain ⟨es, hes⟩ := h.receives
    refine ⟨es, ?_⟩
    rw [hmoved.received]
    simpa using hes.append r.data

/-- The rest begins with a message. -/
theorem Tracks.next {σ σ' : ρ × ω} {q : Bytes} {n : ℕ} {e : ε × Bytes}
    (h : Tracks S start stream s σ q) (hlook : S.look σ q = .message n e (some σ'))
    {s' : ServerConnection ρ ω ε} (hreceived : s'.received = s.received)
    (hincoming : s'.incoming = s.incoming) : Tracks S start stream s' σ' (q.drop n) where
  stream_eq := by
    rw [hreceived, hincoming]
    exact h.stream_eq
  receives := by
    obtain ⟨es, hes⟩ := h.receives
    rw [hreceived]
    exact ⟨_, hes.trans (.next hlook (.start _ _))⟩

theorem Tracks.same {σ : ρ × ω} {q : Bytes} (h : Tracks S start stream s σ q)
    {s' : ServerConnection ρ ω ε} (hreceived : s'.received = s.received)
    (hincoming : s'.incoming = s.incoming) : Tracks S start stream s' σ q where
  stream_eq := by
    rw [hreceived, hincoming]
    exact h.stream_eq
  receives := by
    rw [hreceived]
    exact h.receives

/-- A buffer that is full of a header is one of the stream. -/
theorem Framed.overlong (h : Framed S start stream s) (hstate : s.connectionState = .readHeader)
    (hfull : maxBufferLength ≤ s.message.bufferLength) : S.Overlong start stream := by
  cases h with
  | body hstate' =>
    rcases hstate' with hstate' | ⟨hstate', -⟩
    · cases hstate.symm.trans hstate'
    · cases hstate.symm.trans hstate'
  | response hstate' => cases hstate.symm.trans hstate'
  | closed hstate' => cases hstate.symm.trans hstate'
  | @header σ q _ h hworld hidle hlength hcontent hdata hbuffer hle hhead hseen =>
    obtain ⟨es, hes⟩ := h.receives
    have hq : q.length = maxBufferLength := by omega
    refine ⟨es, σ, q ++ s.incoming.unread, ?_, ?_, ?_⟩
    · rw [h.stream_eq]
      exact hes.append _
    · rw [List.length_append]
      omega
    · rw [List.take_left' hq]
      exact hhead hq

/-! ## The functions of a connection -/

/-- A function keeps the connection with its stream, or fails. -/
abbrev KeepsFramed (S : Service ρ ω ε) (start : ρ × ω) (stream : Bytes) (state : ConnectionState)
    (f : ConnectionM ρ ω ε Bool) : Prop :=
  KeptIn (Framed S start stream) (fun _ => True) (fun _ _ => True) state f

theorem wp_giveUp_framed :
    wp giveUp (fun success s' => if success then Framed S start stream s' else True)
      (fun _ _ => True) s := by
  refine wp_mono (wp_giveUp_moved s) ?_ fun _ _ h => h
  rintro success s' ⟨rfl, -⟩
  trivial

theorem readHeader_framed {readHeader : ConnectionM ρ ω ε Bool} (hspec : HeaderSpec S readHeader) :
    KeepsFramed S start stream .readHeader readHeader := by
  intro s hs hstate
  cases hs with
  | body hstate' =>
    rcases hstate' with hstate' | ⟨hstate', -⟩
    · cases hstate.symm.trans hstate'
    · cases hstate.symm.trans hstate'
  | response hstate' => cases hstate.symm.trans hstate'
  | closed hstate' => cases hstate.symm.trans hstate'
  | @header σ q _ h hworld hidle hlength hcontent hdata hbuffer hle hhead hseen =>
  refine wp_mono (hspec s σ.1 q hstate hlength hcontent hdata hbuffer hle hseen) ?_
    fun _ _ _ => trivial
  rintro success s' ⟨r, incoming, hreceive, hdone⟩
  have hfit : (q ++ r.data).length ≤ maxBufferLength := by
    have := (Incoming.receive_outcome hreceive).length_le
    rw [List.length_append]
    omega
  cases hdone with
  | ended hr hmoved => trivial
  | fault hr hmoved hhead => trivial
  | waiting hr hmoved hunsent hhead hstate' hlength hcontent hdata hbuffer hseen =>
    exact .header hstate' (h.receive hreceive hmoved) (hunsent.world.trans hworld)
      (hidle.unsent hunsent) hlength hcontent hdata hbuffer hfit (fun _ => hhead) hseen
  | found hr hmoved hunsent hhead hn hstate' hholds =>
    refine .body (.inl hstate') (h.receive hreceive hmoved) (hunsent.world.trans hworld)
      (hidle.unsent hunsent) ?_ hn hholds
    rw [List.take_of_length_le hfit]
    exact hhead

/-- The body is there, and the request is executed next. -/
theorem wp_finish_framed {σ : ρ × ω} {q : Bytes} {b n : ℕ} (h : Tracks S start stream s σ q)
    (hworld : s.world = σ.2) (hidle : Idle s)
    (hhead : S.head σ.1 (q.take maxBufferLength) = .complete b n s.keepAlive s.derived)
    (hle : n ≤ maxContentLength) (hholds : s.message.Holds q b n) (hn : b + n ≤ q.length) :
    wp readRequest.finish (fun success s' => if success then Framed S start stream s' else True)
      (fun _ _ => True) s := by
  obtain ⟨m, hm, hholds⟩ := hholds.terminate
  rw [readRequest.finish, wp_bind, wp_get, wp_bind, wp_store hm, wp_bind, wp_modify, wp_pure]
  exact .body (.inr ⟨rfl, hn⟩) (h.same rfl rfl) hworld
    ⟨hidle.header, hidle.response, hidle.headerBytesWritten, hidle.resultBytesWritten⟩ hhead hle hholds

theorem readRequest_framed :
    KeepsFramed S start stream .readRequest readRequest := by
  intro s hs hstate
  cases hs with
  | header hstate' => cases hstate.symm.trans hstate'
  | response hstate' => cases hstate.symm.trans hstate'
  | closed hstate' => cases hstate.symm.trans hstate'
  | @body σ q b n _ h hworld hidle hhead hle hholds =>
  have havail := hholds.contentAvail
  have hlength := hholds.contentLength
  have hstart := hholds.start_le
  rw [readRequest, wp_bind, wp_get, wp_ite]
  constructor
  · intro hmore
    rw [wp_bind]
    refine wp_receive (fun _ => trivial) fun r incoming hreceive houtcome => ?_
    have hfit := houtcome.length_le
    rw [hlength, havail] at hfit
    obtain ⟨m, hm, hholds'⟩ := hholds.receiveStored (d := r.data) (by omega)
    refine ⟨m, hm, ?_⟩
    cases hr : r.success with
    | false => exact wp_giveUp_framed
    | true =>
      simp only [Bool.not_true, Bool.false_eq_true, if_false, if_true]
      rw [wp_bind, wp_modify]
      -- The connection after the bytes have arrived.
      have htracks : Tracks S start stream { s with
          incoming
          message := { m with contentAvail := s.message.contentAvail + r.data.length }
          received := s.received ++ [r.data] } σ (q ++ r.data) :=
        h.receive hreceive ⟨rfl, rfl, rfl, rfl⟩
      have hidle' : Idle { s with
          incoming
          message := { m with contentAvail := s.message.contentAvail + r.data.length }
          received := s.received ++ [r.data] } :=
        ⟨hidle.header, hidle.response, hidle.headerBytesWritten, hidle.resultBytesWritten⟩
      have hhead' := Service.head_of_append (l := r.data) hhead (by simp)
      have hholds'' : MessageBuffer.Holds
          { m with contentAvail := s.message.contentAvail + r.data.length } (q ++ r.data) b n := by
        rw [havail]
        exact hholds'
      rw [wp_ite]
      constructor
      · intro _
        rw [wp_ite]
        constructor
        · intro _
          exact wp_giveUp_framed
        · intro _
          exact .body (.inl hstate) htracks hworld hidle' hhead' hle hholds''
      · intro hdone
        refine wp_finish_framed htracks hworld hidle' hhead' hle hholds'' ?_
        rw [List.length_append]
        omega
  · intro hdone
    exact wp_finish_framed h hworld hidle hhead hle hholds (by omega)

theorem executeRequest_framed {executeRequest : ConnectionM ρ ω ε Bool}
    (hspec : ExecuteSpec S executeRequest) :
    KeepsFramed S start stream .executeRequest executeRequest := by
  intro s hs hstate
  cases hs with
  | header hstate' => cases hstate.symm.trans hstate'
  | response hstate' => cases hstate.symm.trans hstate'
  | closed hstate' => cases hstate.symm.trans hstate'
  | @body σ q b n hstate' h hworld hidle hhead hle hholds =>
  have hn : b + n ≤ q.length := by
    rcases hstate' with hstate' | ⟨-, hn⟩
    · cases hstate.symm.trans hstate'
    · exact hn
  have hlook := look_of_complete hhead hle hn
  have hshort := hholds.rest_lt (S.bodyStart_le hhead).1
  refine wp_mono (hspec s _ hstate (hholds.behind hn) hidle) ?_ fun _ _ h => h.elim
  intro success s' hdone
  rw [hholds.body hn] at hdone
  cases hdone with
  | rejected hmoved hexecute => trivial
  | @silent _ x hexecute houtput hexecuted hmoved hworld' hidle' hstate' hlength hcontent hdata hbuffer
      hderived =>
    rw [hworld] at hexecute
    rw [hexecute] at hlook
    simp only [houtput, Option.isSome_none, Bool.false_and, Bool.false_eq_true, if_false] at hlook
    refine .header hstate' (h.next hlook (by simpa using hmoved.received) hmoved.incoming) hworld' hidle'
      hlength hcontent hdata hbuffer hshort.le (fun hfull => absurd hfull hshort.ne) ?_
    rw [hderived]
    exact S.seen_initializeData _ _
  | @response _ x hexecute houtput hexecuted hmoved hworld' hstate' hbehind hheader hresult hderived
      hkeep =>
    rw [hworld] at hexecute
    obtain ⟨hclear, hclear'⟩ := S.output_clear hexecute houtput
    rw [hexecute] at hlook
    simp only [houtput, Option.isSome_some, Bool.true_and] at hlook
    rw [← hkeep, ← hderived, ← hworld'] at hlook
    exact .response hstate' (h.same (by simpa using hmoved.received) hmoved.incoming) hlook hbehind hshort
      hclear hclear'

namespace Connection

variable {c : Connection}

/-- The streams of a response are as before. -/
def SameStreams (c c' : Connection) : Prop := c'.header = c.header ∧ c'.response = c.response

theorem send_sameStreams (buffer : Bytes) :
    wp (send buffer) (fun _ => c.SameStreams) (fun _ _ => True) c := by
  unfold wp send
  cases c.socket.send buffer with
  | ok r socket => exact ⟨rfl, rfl⟩
  | error e socket => trivial

/-- Unless it gives up, a loop of `WriteResponse` leaves the streams of the response. -/
theorem writeHeader_sameStreams (fuel : ℕ) :
    wp (writeHeader fuel) (fun result c' => result = some false ∨ c.SameStreams c')
      (fun _ _ => True) c := by
  induction fuel generalizing c with
  | zero => trivial
  | succ fuel ih =>
    rw [writeHeader, wp_bind, wp_get, wp_ite]
    constructor
    · intro _
      refine wp_seq (send_sameStreams _) ?_
      rintro ⟨success, bytesWritten⟩ c₁ hsame
      cases success with
      | false => exact .inl rfl
      | true =>
        simp only [Bool.not_true, Bool.false_eq_true, if_false]
        rw [wp_bind, wp_modify, wp_ite]
        constructor
        · intro _
          exact .inr hsame
        · intro _
          refine wp_mono ih ?_ fun _ _ h => h
          rintro result c' (hfalse | hnext)
          · exact .inl hfalse
          · exact .inr ⟨hnext.1.trans hsame.1, hnext.2.trans hsame.2⟩
    · intro _
      exact .inr ⟨rfl, rfl⟩

theorem writeBody_sameStreams (fuel : ℕ) :
    wp (writeBody fuel) (fun result c' => result = some false ∨ c.SameStreams c')
      (fun _ _ => True) c := by
  induction fuel generalizing c with
  | zero => trivial
  | succ fuel ih =>
    rw [writeBody, wp_bind, wp_get, wp_ite]
    constructor
    · intro _
      refine wp_seq (send_sameStreams _) ?_
      rintro ⟨success, bytesWritten⟩ c₁ hsame
      cases success with
      | false => exact .inl rfl
      | true =>
        simp only [Bool.not_true, Bool.false_eq_true, if_false]
        rw [wp_bind, wp_modify, wp_ite]
        constructor
        · intro _
          exact .inr hsame
        · intro _
          refine wp_mono ih ?_ fun _ _ h => h
          rintro result c' (hfalse | hnext)
          · exact .inl hfalse
          · exact .inr ⟨hnext.1.trans hsame.1, hnext.2.trans hsame.2⟩
    · intro _
      exact .inr ⟨rfl, rfl⟩

end Connection

theorem writeResponse_framed :
    KeepsFramed S start stream .writeResponse writeResponse := by
  intro s hs hstate
  cases hs with
  | header hstate' => cases hstate.symm.trans hstate'
  | body hstate' =>
    rcases hstate' with hstate' | ⟨hstate', -⟩
    · cases hstate.symm.trans hstate'
    · cases hstate.symm.trans hstate'
  | closed hstate' => cases hstate.symm.trans hstate'
  | @response σ q n e _ h hlook hbehind hshort hheader hresponse =>
  -- The connection is as before, except for its socket and what is counted.
  have hsame {s' : ServerConnection ρ ω ε} {c : Connection} (hc : s.sending.SameStreams c)
      (hs' : s' = { s with
        socket := c.socket
        header := c.header
        headerBytesWritten := c.headerBytesWritten
        response := c.response
        resultBytesWritten := c.resultBytesWritten }) : Framed S start stream s' := by
    subst hs'
    refine .response hstate (h.same rfl rfl) hlook hbehind hshort ?_ ?_
    · show c.header.clear = _
      rw [hc.1]
      exact hheader
    · show c.response.clear = _
      rw [hc.2]
      exact hresponse
  rw [writeResponse, wp_bind, wp_get, wp_bind]
  refine wp_liftSending_of (Connection.writeHeader_sameStreams _) ?_ fun _ _ _ => trivial
  rintro result c hc
  cases result with
  | some result =>
    cases result with
    | false => exact wp_giveUp_framed
    | true =>
      rcases hc with hc | hc
      · cases hc
      · exact hsame hc rfl
  | none =>
    have hc : s.sending.SameStreams c := hc.resolve_left (by simp)
    simp only
    rw [wp_bind, wp_get, wp_bind]
    refine wp_liftSending_of (Connection.writeBody_sameStreams _) ?_ fun _ _ _ => trivial
    rintro result c' hc'
    have htrans (h' : Connection.SameStreams (ServerConnection.sending { s with
        socket := c.socket
        header := c.header
        headerBytesWritten := c.headerBytesWritten
        response := c.response
        resultBytesWritten := c.resultBytesWritten }) c') : s.sending.SameStreams c' :=
      ⟨h'.1.trans hc.1, h'.2.trans hc.2⟩
    cases result with
    | some result =>
      cases result with
      | false => exact wp_giveUp_framed
      | true =>
        rcases hc' with hc' | hc'
        · cases hc'
        · exact hsame (htrans hc') rfl
    | none =>
      have hc' := htrans (hc'.resolve_left (by simp))
      simp only
      rw [wp_bind, wp_modify, wp_bind, wp_get]
      cases hk : s.keepAlive with
      | true =>
        rw [hk] at hlook
        obtain ⟨m, hm, hdata, hbuffer, hlength⟩ := hbehind.preserve
        rw [initializeData, wp_bind, wp_bind, wp_store (m := m.clear) (by simp [hm]), wp_modify,
          wp_pure]
        refine .header rfl (h.next hlook rfl rfl) rfl ⟨?_, ?_, rfl, rfl⟩ hlength rfl hdata hbuffer
          hshort.le (fun hfull => absurd hfull hshort.ne) (S.seen_initializeData _ _)
        · show c'.header.clear = _
          rw [hc'.1]
          exact hheader
        · show c'.response.clear = _
          rw [hc'.2]
          exact hresponse
      | false =>
        rw [initializeData, wp_bind, wp_bind, wp_store (m := s.message.discard.clear) rfl, wp_modify,
          wp_pure]
        trivial

/-! ## Every run -/

/-- Every call of `Process` keeps a connection with its stream. -/
theorem process_framed {readHeader executeRequest : ConnectionM ρ ω ε Bool}
    (hheader : HeaderSpec S readHeader) (hexecute : ExecuteSpec S executeRequest)
    (executeAfterRead : Bool) (hs : Framed S start stream s) :
    wp (process readHeader executeRequest executeAfterRead) (fun _ => Framed S start stream)
      (fun _ _ => True) s := by
  rw [process, wp_bind, wp_get]
  refine wp_processLoop (fun s hs => ?_) (fun _ _ => trivial) _ hs
  exact wp_processState (readHeader_framed hheader) readRequest_framed (executeRequest_framed hexecute)
    writeResponse_framed (fun _ _ => .closed rfl) executeAfterRead hs

theorem framed_accepted {buffer : Bytes} (hbuffer : buffer.length = maxBufferLength + 1)
    (heap : ℕ → UInt8) (socket : TcpSocket) (incoming : Incoming) {derived : ρ}
    (hseen : S.Seen derived derived []) (world : ω) :
    Framed S (derived, world) incoming.unread
      (ServerConnection.accepted buffer heap socket incoming derived world) :=
  .header rfl ⟨rfl, [], .start _ _⟩ rfl ⟨rfl, rfl, rfl, rfl⟩ hbuffer rfl rfl rfl (Nat.zero_le _)
    (fun _ => S.head_nil _) hseen

/-- Every sequence of calls of `Process` leaves room in a buffer that a header is read to, if every
header of the stream fits the buffer. -/
theorem serve_lt {readHeader executeRequest : ConnectionM ρ ω ε Bool}
    (hheader : HeaderSpec S readHeader) (hexecute : ExecuteSpec S executeRequest) (calls : List Bool)
    (hfits : ¬ S.Overlong start stream) (hs : Framed S start stream s) :
    wp (serve (process readHeader executeRequest) calls)
      (fun _ s => s.connectionState = .readHeader → s.message.bufferLength < maxBufferLength)
      (fun _ _ => True) s := by
  refine wp_mono (wp_serve (fun executeAfterRead s hs => process_framed hheader hexecute
    executeAfterRead hs) calls hs) ?_ fun _ _ _ => trivial
  intro _ s' hs' hstate
  by_contra hfull
  exact hfits (hs'.overlong hstate (Nat.not_lt.mp hfull))

/-- A stream that fits the buffer has no header that does not. -/
theorem not_overlong_of_length_lt (h : stream.length < maxBufferLength) : ¬ S.Overlong start stream := by
  rintro ⟨es, σ, q, hreceives, hq, -⟩
  have hle := hreceives.length_le
  omega

omit [Transport ρ] in
/-- Whatever the kernel answers and whichever calls of `Process` are made, a connection that waits for a
header has room for more of it, if every header of the peer's stream fits the buffer. -/
theorem process_leaves_room [IntOverflow] {ω : Type} (handler : RpcHandler ω)
    (handlers : List (RpcContentHandler ω)) (world : ω) (buffer : Bytes)
    (hbuffer : buffer.length = maxBufferLength + 1) (heap : ℕ → UInt8) (socket : TcpSocket)
    (incoming : Incoming) (calls : List Bool) :
    (¬ (TcpConnection.service handler).Overlong ({}, world) incoming.unread →
      wp (serve (TcpConnection.process handler) calls)
        (fun _ s => s.connectionState = .readHeader → s.message.bufferLength < maxBufferLength)
        (fun _ _ => True) (.accepted buffer heap socket incoming {} world)) ∧
    (¬ HttpConnection.service.Overlong (⟨.initial, handlers⟩, world) incoming.unread →
      wp (serve HttpConnection.process calls)
        (fun _ s => s.connectionState = .readHeader → s.message.bufferLength < maxBufferLength)
        (fun _ _ => True) (.accepted buffer heap socket incoming ⟨.initial, handlers⟩ world)) := by
  constructor
  · intro hfits
    exact serve_lt (TcpConnection.readHeader_spec handler) (TcpConnection.executeRequest_spec handler)
      calls hfits (framed_accepted hbuffer heap socket incoming rfl world)
  · intro hfits
    exact serve_lt HttpConnection.readHeader_spec HttpConnection.executeRequest_spec calls hfits
      (framed_accepted hbuffer heap socket incoming
        (HttpConnection.service.seen_initializeData ⟨.initial, handlers⟩ []) world)

omit [Transport ρ] in
/-- A request in two pieces over TCP. -/
theorem process_leaves_room_two :
    let _ := IntOverflow.truncate
    let handler : RpcHandler Unit := fun request world => ⟨request, [], false, world, rfl⟩
    let incoming : Incoming := ⟨TcpClient.frame (ascii "a"), [⟨.arrived 1, 0, true⟩]⟩
    wp (serve (TcpConnection.process handler) [true])
      (fun _ s => s.connectionState = .readHeader → s.message.bufferLength < maxBufferLength)
      (fun _ _ => True)
      (.accepted (List.replicate (maxBufferLength + 1) 0) (fun _ => 0) {} incoming {} ()) := by
  intro _ handler incoming
  exact (process_leaves_room handler [] () (List.replicate (maxBufferLength + 1) 0)
    List.length_replicate (fun _ => 0) {} incoming [true]).1 (not_overlong_of_length_lt (by decide +kernel))

omit [Transport ρ] in
/-- A peer over TCP sends digits without an end. When they fill the buffer, the connection goes on to
wait for a header, and another call of `Process` receives nothing of what has arrived. -/
theorem process_leaves_no_room :
    let _ := IntOverflow.truncate
    let handler : RpcHandler Unit := fun request world => ⟨request, [], false, world, rfl⟩
    let incoming : Incoming := ⟨List.replicate 3000 0x31, [⟨.arrived 3000, 0, true⟩]⟩
    wp (serve (TcpConnection.process handler) [true, true])
      (fun _ s => s.connectionState = .readHeader ∧ s.message.bufferLength = maxBufferLength ∧
        s.received = [List.replicate maxBufferLength 0x31, []] ∧ s.incoming.unread.length = 952)
      (fun _ _ => False)
      (.accepted (List.replicate (maxBufferLength + 1) 0) (fun _ => 0) {} incoming {} ()) := by
  decide +kernel

end AnyRpc
