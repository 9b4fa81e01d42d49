import AnyRpc.Connection.Service

/-! # A connection follows the framing of its stream

The functions of a connection keep the invariant that what was received is made into events as far as
these are executed and answered (`Inv`). What a derived class has to guarantee of its own functions
is stated for one call (`HeaderDone`, `ExecuteDone`); from it, `Process` follows the framing over every
run, and stops only where nothing more can be done with what was received (`Quiet`). -/

namespace AnyRpc

open Library ServerConnection

variable {ρ ω ε : Type} [Transport ρ]

/-! ## The environment -/

/-- What a connection starts with: its state, the bytes that its peer is going to send, those that it
has sent itself, and the answers of the kernel. -/
structure Session (ρ ω : Type) where
  start : ρ × ω
  stream : Bytes
  sent : Bytes
  attempts : List RecvAttempt

/-- The kernel is going to report the end of the stream, or an error. -/
def Session.Ends (T : Session ρ ω) : Prop := ∃ a ∈ T.attempts, ∀ n, a.result ≠ .arrived n

/-- What is received is the beginning of the stream, and the kernel accepts all that is sent. -/
structure Environment (T : Session ρ ω) (s : ServerConnection ρ ω ε) : Prop where
  stream_eq : T.stream = s.received.flatten ++ s.incoming.unread
  attempts : ∀ a ∈ s.incoming.attempts, a ∈ T.attempts
  accepts : ∀ a ∈ s.socket.attempts, a.result = .accepted 0

/-- The requests that are executed, and what was sent for them. -/
structure Log (T : Session ρ ω) (es : List (ε × Bytes)) (s : ServerConnection ρ ω ε) : Prop where
  executed : s.executed = es.map Prod.fst
  sent : s.socket.sent = T.sent ++ (es.map Prod.snd).flatten

/-- No response is written. -/
structure Idle (s : ServerConnection ρ ω ε) : Prop where
  header : s.header = .newDefault
  response : s.response = .newDefault
  headerBytesWritten : s.headerBytesWritten = 0
  resultBytesWritten : s.resultBytesWritten = 0

/-! ## Counting -/

/-- The number of requests that are complete after a number of results of `Receive`. -/
def complete (S : Service ρ ω ε) (T : Session ρ ω) (chunks : List Bytes) (j : ℕ) : ℕ :=
  (S.framing.events T.start (chunks.take j).flatten).length

/-- The number of requests that are executed, when each result of `Receive` lets one be executed. -/
def handled (S : Service ρ ω ε) (T : Session ρ ω) (chunks : List Bytes) : ℕ :=
  served (complete S T chunks) chunks.length

/-- The number of requests that are ready to be executed, which is one at most. -/
def ready (S : Service ρ ω ε) (σ : ρ × ω) (q : Bytes) : ℕ :=
  match S.look σ q with
  | .message .. => 1
  | _ => 0

theorem ready_of_wait {S : Service ρ ω ε} {σ : ρ × ω} {q : Bytes} (h : S.look σ q = .wait) :
    ready S σ q = 0 := by
  rw [ready, h]

theorem ready_of_stop {S : Service ρ ω ε} {σ : ρ × ω} {q : Bytes} (h : S.look σ q = .stop) :
    ready S σ q = 0 := by
  rw [ready, h]

theorem ready_of_message {S : Service ρ ω ε} {σ : ρ × ω} {q : Bytes} {n : ℕ} {e : ε × Bytes}
    {next : Option (ρ × ω)} (h : S.look σ q = .message n e next) : ready S σ q = 1 := by
  rw [ready, h]

/-- A result of `Receive` lets the next request be executed, if it is complete then. -/
theorem handled_receive {S : Service ρ ω ε} {T : Session ρ ω} {chunks : List Bytes}
    {es : List (ε × Bytes)} {σ : ρ × ω} {q : Bytes}
    (h : S.framing.Receives T.start chunks.flatten es (some (σ, q)))
    (hes : es.length = handled S T chunks) (d : Bytes) :
    handled S T (chunks ++ [d]) = es.length + ready S σ (q ++ d) := by
  have hflatten : (chunks ++ [d]).flatten = chunks.flatten ++ d := by simp
  have hd := h.append d
  -- The results before the last one count as before.
  have hbefore : served (complete S T (chunks ++ [d])) chunks.length = es.length := by
    rw [hes, handled]
    refine served_congr fun j hj => ?_
    rw [complete, complete, List.take_append_of_le_length hj]
  have hlast : complete S T (chunks ++ [d]) (chunks.length + 1) =
      (S.framing.events T.start (chunks.flatten ++ d)).length := by
    rw [complete, ← hflatten, List.take_of_length_le (by simp)]
  rw [handled, List.length_append, List.length_singleton, served, hbefore, hlast]
  cases hlook : S.look σ (q ++ d) with
  | wait =>
    rw [← hd.eq_events (by exact hlook), ready_of_wait hlook]
    omega
  | stop =>
    have hstop := hd.trans (.stop (q := q ++ d) (s := σ) hlook)
    rw [List.append_nil] at hstop
    rw [← hstop.eq_events trivial, ready_of_stop hlook]
    omega
  | message n e next =>
    have hmore : ∃ rest, S.framing.Receives T.start (chunks.flatten ++ d) (es ++ [e]) rest := by
      cases next with
      | none => exact ⟨_, hd.trans (.last hlook)⟩
      | some σ' => exact ⟨_, hd.trans (.next hlook (.start _ _))⟩
    obtain ⟨rest, hmore⟩ := hmore
    have hle := hmore.prefix_events.length_le
    rw [List.length_append, List.length_singleton] at hle
    rw [ready_of_message hlook]
    omega

/-! ## The invariant -/

section

variable (S : Service ρ ω ε) (T : Session ρ ω) (s : ServerConnection ρ ω ε)

/-- The requests that are executed make up what was received, except for a rest `q` that is left in
the state `σ`; nothing is being answered. -/
structure Reading (es : List (ε × Bytes)) (σ : ρ × ω) (q : Bytes) : Prop where
  receives : S.framing.Receives T.start s.received.flatten es (some (σ, q))
  environment : Environment T s
  log : Log T es s
  world : s.world = σ.2
  idle : Idle s

/-- The rest is in the buffer, which is not full before the header is looked at. -/
structure AtHeader (es : List (ε × Bytes)) (σ : ρ × ω) (q : Bytes) : Prop
    extends Reading S T s es σ q where
  length_buffer : s.message.buffer.length = maxBufferLength + 1
  content : s.message.content = .null
  data : s.message.data = q
  bufferLength : s.message.bufferLength = q.length
  le : q.length ≤ maxBufferLength
  full : q.length = maxBufferLength → S.head σ.1 q = .incomplete
  seen : S.Seen σ.1 s.derived q
  handled : es.length = handled S T s.received

/-- The header of the rest is complete, and the body is read to its place. -/
structure AtBody (es : List (ε × Bytes)) (σ : ρ × ω) (q : Bytes) (b n : ℕ) : Prop
    extends Reading S T s es σ q where
  head : S.head σ.1 (q.take maxBufferLength) = .complete b n s.keepAlive s.derived
  le : n ≤ maxContentLength
  holds : s.message.Holds q b n
  handled : es.length + ready S σ q = handled S T s.received

/-- The first request of the rest is executed, and its response is to be sent. -/
structure AtResponse (es : List (ε × Bytes)) (σ : ρ × ω) (q : Bytes) (n : ℕ) (record : ε) :
    Prop where
  receives : S.framing.Receives T.start s.received.flatten es (some (σ, q))
  environment : Environment T s
  executed : s.executed = es.map Prod.fst ++ [record]
  sent : s.socket.sent = T.sent ++ (es.map Prod.snd).flatten
  look : S.look σ q = .message n (record, responseWire (some (s.header, s.response)))
    (if !s.keepAlive then none else some (Transport.initializeData s.derived, s.world))
  behind : s.message.Behind (q.drop n)
  short : (q.drop n).length < maxBufferLength
  header : s.header.clear = .newDefault
  response : s.response.clear = .newDefault
  headerBytesWritten : s.headerBytesWritten = 0
  resultBytesWritten : s.resultBytesWritten = 0
  handled : es.length + 1 = handled S T s.received

/-- The connection is closed where its stream says so, or because the kernel does. -/
structure Closed (es : List (ε × Bytes)) (rest : Option ((ρ × ω) × Bytes)) : Prop where
  receives : S.framing.Receives T.start s.received.flatten es rest
  environment : Environment T s
  log : Log T es s
  handled : es.length = handled S T s.received
  reason : rest = none ∨ T.Ends

/-- How far a connection is with its stream, by the state it is in. -/
inductive Inv : Prop
  | header {es : List (ε × Bytes)} {σ : ρ × ω} {q : Bytes}
      (hstate : s.connectionState = .readHeader) (h : AtHeader S T s es σ q)
  | body {es : List (ε × Bytes)} {σ : ρ × ω} {q : Bytes} {b n : ℕ}
      (hstate : s.connectionState = .readRequest) (h : AtBody S T s es σ q b n)
  | request {es : List (ε × Bytes)} {σ : ρ × ω} {q : Bytes} {b n : ℕ}
      (hstate : s.connectionState = .executeRequest) (h : AtBody S T s es σ q b n)
      (hn : b + n ≤ q.length)
  | response {es : List (ε × Bytes)} {σ : ρ × ω} {q : Bytes} {n : ℕ} {record : ε}
      (hstate : s.connectionState = .writeResponse) (h : AtResponse S T s es σ q n record)
  | closed {es : List (ε × Bytes)} {rest : Option ((ρ × ω) × Bytes)}
      (hstate : s.connectionState = .closeConnection) (h : Closed S T s es rest)

/-- How a stream ends for a connection that does nothing any more: it is closed or not as the stream
says, and where the buffer is full of an incomplete header, nothing that follows matters. -/
structure Ending (rest : Option ((ρ × ω) × Bytes)) : Prop where
  settled : S.framing.Settled rest
  closed_iff : s.connectionState = .closeConnection ↔ rest = none
  full (hstate : s.connectionState = .readHeader)
    (hfull : s.message.bufferLength = maxBufferLength) (l : Bytes) :
    S.framing.Settled (rest.map fun r => (r.1, r.2 ++ l))

/-- Everything that was received is executed, as far as it is complete. -/
structure Quiet (es : List (ε × Bytes)) (rest : Option ((ρ × ω) × Bytes)) : Prop where
  receives : S.framing.Receives T.start s.received.flatten es rest
  environment : Environment T s
  log : Log T es s
  handled : es.length = handled S T s.received
  ending : Ending S s rest ∨ s.connectionState = .closeConnection ∧ T.Ends

end

/-! ## What the functions of a derived class guarantee -/

/-- Something was received, and what was sent and executed is as before. -/
structure Moved (s : ServerConnection ρ ω ε) (incoming : Incoming) (chunks : List Bytes)
    (s' : ServerConnection ρ ω ε) : Prop where
  incoming : s'.incoming = incoming
  received : s'.received = s.received ++ chunks
  socket : s'.socket = s.socket
  executed : s'.executed = s.executed

/-- A response that is not sent yet is as before, and so is what the methods keep. -/
structure Unsent (s s' : ServerConnection ρ ω ε) : Prop where
  world : s'.world = s.world
  header : s'.header = s.header
  response : s'.response = s.response
  headerBytesWritten : s'.headerBytesWritten = s.headerBytesWritten
  resultBytesWritten : s'.resultBytesWritten = s.resultBytesWritten

/-- What `ReadHeader` does with a result of `Receive`, where `q` was in the buffer. -/
inductive HeaderDone (S : Service ρ ω ε) (s : ServerConnection ρ ω ε) (fresh : ρ) (q : Bytes)
    (r : Received) (incoming : Incoming) : Bool → ServerConnection ρ ω ε → Prop
  | ended {s' : ServerConnection ρ ω ε} (hr : r.success = false) (h : Moved s incoming [] s') :
      HeaderDone S s fresh q r incoming false s'
  | fault {s' : ServerConnection ρ ω ε} (hr : r.success = true) (h : Moved s incoming [r.data] s')
      (hhead : S.head fresh (q ++ r.data) = .fault ∨ ∃ b n k d,
        S.head fresh (q ++ r.data) = .complete b n k d ∧ maxContentLength < n) :
      HeaderDone S s fresh q r incoming false s'
  | waiting {s' : ServerConnection ρ ω ε} (hr : r.success = true)
      (h : Moved s incoming [r.data] s') (hunsent : Unsent s s')
      (hhead : S.head fresh (q ++ r.data) = .incomplete)
      (hstate : s'.connectionState = .readHeader)
      (hlength : s'.message.buffer.length = maxBufferLength + 1)
      (hcontent : s'.message.content = .null) (hdata : s'.message.data = q ++ r.data)
      (hbuffer : s'.message.bufferLength = (q ++ r.data).length)
      (hseen : S.Seen fresh s'.derived (q ++ r.data)) : HeaderDone S s fresh q r incoming true s'
  | found {s' : ServerConnection ρ ω ε} {b n : ℕ} (hr : r.success = true)
      (h : Moved s incoming [r.data] s') (hunsent : Unsent s s')
      (hhead : S.head fresh (q ++ r.data) = .complete b n s'.keepAlive s'.derived)
      (hn : n ≤ maxContentLength) (hstate : s'.connectionState = .readRequest)
      (hholds : s'.message.Holds (q ++ r.data) b n) : HeaderDone S s fresh q r incoming true s'

/-- `ReadHeader` does what the service says of the header, or waits for the kernel. -/
def HeaderSpec (S : Service ρ ω ε) (readHeader : ConnectionM ρ ω ε Bool) : Prop :=
  ∀ (s : ServerConnection ρ ω ε) (fresh : ρ) (q : Bytes), s.connectionState = .readHeader →
    s.message.buffer.length = maxBufferLength + 1 → s.message.content = .null →
    s.message.data = q → s.message.bufferLength = q.length → q.length ≤ maxBufferLength →
    S.Seen fresh s.derived q →
    wp readHeader
      (fun success s' => ∃ r incoming,
        s.incoming.receive (maxBufferLength - q.length) 0 = some (r, incoming) ∧
          HeaderDone S s fresh q r incoming success s')
      (fun stop s' => stop = .pending ∧
        s.incoming.receive (maxBufferLength - q.length) 0 = none ∧ s' = s) s

/-- What `ExecuteRequest` does with a request, where `rest` is behind it. -/
inductive ExecuteDone (S : Service ρ ω ε) (s : ServerConnection ρ ω ε) (request rest : Bytes) :
    Bool → ServerConnection ρ ω ε → Prop
  | rejected {s' : ServerConnection ρ ω ε} (h : Moved s s.incoming [] s')
      (hexecute : S.execute s.derived s.keepAlive request s.world = none) :
      ExecuteDone S s request rest false s'
  | silent {s' : ServerConnection ρ ω ε} {x : Execution ρ ω ε}
      (hexecute : S.execute s.derived s.keepAlive request s.world = some x)
      (houtput : x.output = none) (hexecuted : s'.executed = s.executed ++ [x.record])
      (h : Moved s s.incoming [] { s' with executed := s.executed }) (hworld : s'.world = x.world)
      (hidle : Idle s') (hstate : s'.connectionState = .readHeader)
      (hlength : s'.message.buffer.length = maxBufferLength + 1)
      (hcontent : s'.message.content = .null) (hdata : s'.message.data = rest)
      (hbuffer : s'.message.bufferLength = rest.length)
      (hderived : s'.derived = Transport.initializeData x.derived) :
      ExecuteDone S s request rest true s'
  | response {s' : ServerConnection ρ ω ε} {x : Execution ρ ω ε}
      (hexecute : S.execute s.derived s.keepAlive request s.world = some x)
      (houtput : x.output = some (s'.header, s'.response))
      (hexecuted : s'.executed = s.executed ++ [x.record])
      (h : Moved s s.incoming [] { s' with executed := s.executed }) (hworld : s'.world = x.world)
      (hstate : s'.connectionState = .writeResponse) (hbehind : s'.message.Behind rest)
      (hheader : s'.headerBytesWritten = s.headerBytesWritten)
      (hresult : s'.resultBytesWritten = s.resultBytesWritten)
      (hderived : s'.derived = x.derived) (hkeep : s'.keepAlive = s.keepAlive) :
      ExecuteDone S s request rest true s'

/-- `ExecuteRequest` does what the service says of the request. -/
def ExecuteSpec (S : Service ρ ω ε) (executeRequest : ConnectionM ρ ω ε Bool) : Prop :=
  ∀ (s : ServerConnection ρ ω ε) (rest : Bytes), s.connectionState = .executeRequest →
    s.message.Behind rest → Idle s →
    wp executeRequest (ExecuteDone S s (s.message.body s.message.contentLength) rest)
      (fun _ _ => False) s

/-- `Initialize(false)` and a result of `false` leave alone what was received, sent and executed. -/
theorem wp_giveUp_moved (s : ServerConnection ρ ω ε) {E : Stop → ServerConnection ρ ω ε → Prop} :
    wp giveUp (fun success s' => success = false ∧ Moved s s.incoming [] s') E s := by
  rw [giveUp, wp_bind, initializeData, wp_bind, wp_store (m := s.message.discard.clear) rfl, wp_modify,
    wp_pure]
  exact ⟨rfl, rfl, by simp, rfl, rfl⟩

/-- The function for the header gives up when the kernel does. -/
theorem wp_giveUp_ended {S : Service ρ ω ε} {s s' : ServerConnection ρ ω ε} {fresh : ρ} {q : Bytes}
    {r : Received} {incoming : Incoming} (hr : r.success = false) (h : Moved s incoming [] s')
    {E : Stop → ServerConnection ρ ω ε → Prop} :
    wp giveUp (HeaderDone S s fresh q r incoming) E s' := by
  refine wp_mono (wp_giveUp_moved s') ?_ fun _ _ h => h
  rintro success s'' ⟨rfl, hmoved⟩
  exact .ended hr ⟨hmoved.incoming.trans h.incoming, by rw [hmoved.received, h.received]; simp,
    hmoved.socket.trans h.socket, hmoved.executed.trans h.executed⟩

/-- The function for the header gives up because of what was received. -/
theorem wp_giveUp_fault {S : Service ρ ω ε} {s s' : ServerConnection ρ ω ε} {fresh : ρ} {q : Bytes}
    {r : Received} {incoming : Incoming} (hr : r.success = true) (h : Moved s incoming [r.data] s')
    (hhead : S.head fresh (q ++ r.data) = .fault ∨ ∃ b n k d,
      S.head fresh (q ++ r.data) = .complete b n k d ∧ maxContentLength < n)
    {E : Stop → ServerConnection ρ ω ε → Prop} :
    wp giveUp (HeaderDone S s fresh q r incoming) E s' := by
  refine wp_mono (wp_giveUp_moved s') ?_ fun _ _ h => h
  rintro success s'' ⟨rfl, hmoved⟩
  exact .fault hr ⟨hmoved.incoming.trans h.incoming, by rw [hmoved.received, h.received]; simp,
    hmoved.socket.trans h.socket, hmoved.executed.trans h.executed⟩ hhead

/-! ## One step -/

section

variable {S : Service ρ ω ε} {T : Session ρ ω} {s s' : ServerConnection ρ ω ε}
  {es : List (ε × Bytes)} {σ : ρ × ω} {q : Bytes} {b n : ℕ}

/-- What a connection has made of the beginning of a stream comes first among its events. -/
theorem prefix_stream {rest : Option ((ρ × ω) × Bytes)} (henv : Environment T s)
    (h : S.framing.Receives T.start s.received.flatten es rest) :
    es <+: S.framing.events T.start T.stream := by
  rw [henv.stream_eq]
  exact (h.append _).prefix_events

/-- What follows once the response is sent. -/
theorem AtResponse.receives_next {record : ε} (h : AtResponse S T s es σ q n record) :
    S.framing.Receives T.start s.received.flatten
      (es ++ [(record, responseWire (some (s.header, s.response)))])
      (if s.keepAlive then some ((Transport.initializeData s.derived, s.world), q.drop n)
        else none) := by
  have hlook := h.look
  cases hk : s.keepAlive with
  | true =>
    rw [hk] at hlook
    exact h.receives.trans (.next hlook (.start _ _))
  | false =>
    rw [hk] at hlook
    exact h.receives.trans (.last hlook)

/-- The requests that are executed come first among those of the stream. -/
theorem Inv.executed_prefix (h : Inv S T s) :
    s.executed <+: (S.framing.events T.start T.stream).map Prod.fst := by
  cases h with
  | header hstate h =>
    rw [h.log.executed]
    exact (prefix_stream h.environment h.receives).map _
  | body hstate h =>
    rw [h.log.executed]
    exact (prefix_stream h.environment h.receives).map _
  | request hstate h hn =>
    rw [h.log.executed]
    exact (prefix_stream h.environment h.receives).map _
  | response hstate h =>
    rw [h.executed]
    simpa using (prefix_stream h.environment h.receives_next).map Prod.fst
  | closed hstate h =>
    rw [h.log.executed]
    exact (prefix_stream h.environment h.receives).map _

omit [Transport ρ] in
/-- A successful result of `Receive` moves bytes from what is unread to what was received. -/
theorem Environment.moved {r : Received} {incoming : Incoming} {maxLength : ℕ}
    (henv : Environment T s) (hreceive : s.incoming.receive maxLength 0 = some (r, incoming))
    (h : Moved s incoming [r.data] s') : Environment T s' where
  stream_eq := by
    rw [henv.stream_eq, h.received, h.incoming,
      (Incoming.receive_outcome hreceive).unread_eq]
    simp
  attempts a ha := by
    rw [h.incoming] at ha
    rcases Nat.eq_zero_or_pos maxLength with rfl | hpos
    · rw [Incoming.receive_zero] at hreceive
      cases hreceive
      exact henv.attempts a ha
    · obtain ⟨b, hb, -⟩ := Incoming.receive_now hpos hreceive
      exact henv.attempts a (hb ▸ List.mem_cons_of_mem _ ha)
  accepts := h.socket ▸ henv.accepts

omit [Transport ρ] in
/-- A result of `Receive` that is no success leaves the stream alone, and is the kernel's doing. -/
theorem Environment.ended {r : Received} {incoming : Incoming} {maxLength : ℕ}
    (henv : Environment T s) (hreceive : s.incoming.receive maxLength 0 = some (r, incoming))
    (hr : r.success = false) (h : Moved s incoming [] s') : Environment T s' ∧ T.Ends := by
  have hpos : 0 < maxLength := by
    rcases Nat.eq_zero_or_pos maxLength with rfl | hpos
    · rw [Incoming.receive_zero] at hreceive
      cases hreceive
      cases hr
    · exact hpos
  obtain ⟨a, ha, hsuccess, hdata⟩ := Incoming.receive_now hpos hreceive
  refine ⟨⟨?_, ?_, h.socket ▸ henv.accepts⟩, a, henv.attempts a (ha ▸ List.mem_cons_self), ?_⟩
  · have hunread := (Incoming.receive_outcome hreceive).unread_eq
    rw [hdata hr, List.nil_append] at hunread
    rw [henv.stream_eq, h.received, h.incoming, hunread, List.append_nil]
  · intro a' ha'
    rw [h.incoming] at ha'
    exact henv.attempts a' (ha ▸ List.mem_cons_of_mem _ ha')
  · intro n hn
    exact absurd (hsuccess.mpr ⟨n, hn⟩) (by rw [hr]; simp)

omit [Transport ρ] in
theorem Log.moved {incoming : Incoming} {chunks : List Bytes} (hlog : Log T es s)
    (h : Moved s incoming chunks s') : Log T es s' where
  executed := h.executed.trans hlog.executed
  sent := by rw [h.socket, hlog.sent]

omit [Transport ρ] in
theorem Idle.unsent (hidle : Idle s) (h : Unsent s s') : Idle s' where
  header := h.header.trans hidle.header
  response := h.response.trans hidle.response
  headerBytesWritten := h.headerBytesWritten.trans hidle.headerBytesWritten
  resultBytesWritten := h.resultBytesWritten.trans hidle.resultBytesWritten

/-- The result of `Receive` is added to what is left of the stream. -/
theorem Reading.moved {r : Received} {incoming : Incoming} {maxLength : ℕ}
    (hs : Reading S T s es σ q) (hreceive : s.incoming.receive maxLength 0 = some (r, incoming))
    (h : Moved s incoming [r.data] s') (hunsent : Unsent s s') :
    Reading S T s' es σ (q ++ r.data) where
  receives := by
    rw [h.received, List.flatten_append, List.flatten_singleton]
    exact hs.receives.append r.data
  environment := hs.environment.moved hreceive h
  log := hs.log.moved h
  world := hunsent.world.trans hs.world
  idle := hs.idle.unsent hunsent

/-- The connection gives up because of what was received. -/
theorem closed_of_stop {r : Received} {incoming : Incoming} {maxLength : ℕ}
    (hs : Reading S T s es σ q) (hhandled : es.length = AnyRpc.handled S T s.received)
    (hreceive : s.incoming.receive maxLength 0 = some (r, incoming))
    (h : Moved s incoming [r.data] s') (hlook : S.look σ (q ++ r.data) = .stop) :
    Closed S T s' es none where
  receives := by
    rw [h.received, List.flatten_append, List.flatten_singleton]
    simpa using (hs.receives.append r.data).trans (.stop hlook)
  environment := hs.environment.moved hreceive h
  log := hs.log.moved h
  handled := by
    rw [h.received, handled_receive hs.receives hhandled, ready_of_stop hlook, Nat.add_zero]
  reason := .inl rfl

/-- The connection gives up because the kernel does. -/
theorem closed_of_ended {r : Received} {incoming : Incoming} {maxLength : ℕ}
    (hs : Reading S T s es σ q) (hhandled : es.length = AnyRpc.handled S T s.received)
    (hreceive : s.incoming.receive maxLength 0 = some (r, incoming)) (hr : r.success = false)
    (h : Moved s incoming [] s') : Closed S T s' es (some (σ, q)) where
  receives := by
    rw [h.received, List.append_nil]
    exact hs.receives
  environment := (hs.environment.ended hreceive hr h).1
  log := hs.log.moved h
  handled := by
    rw [h.received, List.append_nil]
    exact hhandled
  reason := .inr (hs.environment.ended hreceive hr h).2

/-- Where a request is not complete, the connection waits for more. -/
theorem look_of_incomplete (hle : q.length ≤ maxBufferLength) (h : S.head σ.1 q = .incomplete) :
    S.look σ q = .wait := by
  rw [Service.look, List.take_of_length_le hle, h]

/-- Where the header is not complete, the connection is at its end for the time being. -/
theorem ending_of_incomplete (hstate : s.connectionState = .readHeader)
    (hbuffer : s.message.bufferLength = q.length) (hle : q.length ≤ maxBufferLength)
    (h : S.head σ.1 q = .incomplete) : Ending S s (some (σ, q)) where
  settled := look_of_incomplete hle h
  closed_iff := by simp [hstate]
  full _ hfull l := by
    show S.look σ (q ++ l) = .wait
    rw [Service.look, List.take_left' (hbuffer.symm.trans hfull), h]

/-- A connection that is closed where its stream says so. -/
theorem ending_none (hstate : s.connectionState = .closeConnection) : Ending S s none where
  settled := trivial
  closed_iff := by simp [hstate]
  full _ _ _ := trivial

theorem look_of_short {k : Bool} {d : ρ}
    (h : S.head σ.1 (q.take maxBufferLength) = .complete b n k d) (hn : n ≤ maxContentLength)
    (hshort : q.length < b + n) : S.look σ q = .wait := by
  rw [Service.look, h]
  simp only
  rw [if_neg (by omega), if_pos hshort]

/-- A request that is complete is executed as the service says. -/
theorem look_of_complete {k : Bool} {d : ρ}
    (h : S.head σ.1 (q.take maxBufferLength) = .complete b n k d) (hn : n ≤ maxContentLength)
    (hlong : b + n ≤ q.length) :
    S.look σ q = match S.execute d k ((q.drop b).take n) σ.2 with
      | none => .stop
      | some x => .message (b + n) (x.record, responseWire x.output)
          (if x.output.isSome && !k then none
            else some (Transport.initializeData x.derived, x.world)) := by
  rw [Service.look, h]
  simp only
  rw [if_neg (by omega)]
  exact if_neg (by omega)

/-- What is behind a request is shorter than the buffer. -/
theorem AtBody.rest_lt (h : AtBody S T s es σ q b n) : (q.drop (b + n)).length < maxBufferLength :=
  h.holds.rest_lt (S.bodyStart_le h.head).1

end

/-- A computation that ends before it returns waits for the kernel, and has executed a beginning of
the requests of the stream. -/
def Waiting (S : Service ρ ω ε) (T : Session ρ ω) (stop : Stop) (s : ServerConnection ρ ω ε) : Prop :=
  stop = .pending ∧ (s.incoming.attempts = [] ∨ s.socket.attempts = []) ∧
    s.executed <+: (S.framing.events T.start T.stream).map Prod.fst

/-- A function of the state machine keeps the invariant, and leaves the state in the way `R`; or it
fails, and the connection may be closed. -/
def Follows (S : Service ρ ω ε) (T : Session ρ ω) (state : ConnectionState)
    (f : ConnectionM ρ ω ε Bool) (R : ServerConnection ρ ω ε → ServerConnection ρ ω ε → Prop) :
    Prop :=
  ∀ s, Inv S T s → s.connectionState = state →
    wp f (fun success s' => if success then Inv S T s' ∧ R s s' else ∃ es rest, Closed S T s' es rest)
      (Waiting S T) s

variable {S : Service ρ ω ε} {T : Session ρ ω}

/-- `ReadHeader` waits for more of the header, or goes on to the body with an answer of the kernel
used up. -/
theorem readHeader_follows {readHeader : ConnectionM ρ ω ε Bool} (hspec : HeaderSpec S readHeader) :
    Follows S T .readHeader readHeader fun s s' =>
      s'.connectionState = .readHeader ∧ (∃ es rest, Quiet S T s' es rest) ∨
        s'.connectionState = .readRequest ∧
          s'.incoming.attempts.length < s.incoming.attempts.length := by
  intro s hs hstate
  have hprefix := hs.executed_prefix
  cases hs with
  | body hstate' h => cases hstate.symm.trans hstate'
  | request hstate' h hn => cases hstate.symm.trans hstate'
  | response hstate' h => cases hstate.symm.trans hstate'
  | closed hstate' h => cases hstate.symm.trans hstate'
  | @header es σ q _ h =>
  refine wp_mono (hspec s σ.1 q hstate h.length_buffer h.content h.data h.bufferLength h.le h.seen)
    ?_ ?_
  · rintro success s' ⟨r, incoming, hreceive, hdone⟩
    have hfit : (q ++ r.data).length ≤ maxBufferLength := by
      have := (Incoming.receive_outcome hreceive).length_le
      have := h.le
      rw [List.length_append]
      omega
    have hhandled := handled_receive h.receives h.handled r.data
    cases hdone with
    | ended hr hmoved => exact ⟨_, _, closed_of_ended h.toReading h.handled hreceive hr hmoved⟩
    | fault hr hmoved hhead =>
      refine ⟨_, _, closed_of_stop h.toReading h.handled hreceive hmoved ?_⟩
      rw [Service.look, List.take_of_length_le hfit]
      rcases hhead with hhead | ⟨b, n, k, d, hhead, hn⟩
      · rw [hhead]
      · rw [hhead]
        simp only
        rw [if_pos hn]
    | waiting hr hmoved hunsent hhead hstate' hlength hcontent hdata hbuffer hseen =>
      have hreading := h.toReading.moved hreceive hmoved hunsent
      have hlook := look_of_incomplete hfit hhead
      have hcount : es.length = handled S T s'.received := by
        rw [hmoved.received, hhandled, ready_of_wait hlook, Nat.add_zero]
      exact ⟨.header hstate' ⟨hreading, hlength, hcontent, hdata, hbuffer, hfit, fun _ => hhead, hseen,
        hcount⟩, .inl ⟨hstate', _, _, hreading.receives, hreading.environment, hreading.log, hcount,
        .inl (ending_of_incomplete hstate' hbuffer hfit hhead)⟩⟩
    | @found _ b n hr hmoved hunsent hhead hn hstate' hholds =>
      have hreading := h.toReading.moved hreceive hmoved hunsent
      have hcount : es.length + ready S σ (q ++ r.data) = handled S T s'.received := by
        rw [hmoved.received, hhandled]
      refine ⟨.body hstate' ⟨hreading, ?_, hn, hholds, hcount⟩, .inr ⟨hstate', ?_⟩⟩
      · rw [List.take_of_length_le hfit]
        exact hhead
      · -- A buffer that was full would have been looked at before.
        have hpos : 0 < maxBufferLength - q.length := by
          rcases Nat.eq_zero_or_pos (maxBufferLength - q.length) with hzero | hpos
          · have hfull : q.length = maxBufferLength := by
              have := h.le
              omega
            rw [hzero, Incoming.receive_zero] at hreceive
            cases hreceive
            rw [List.append_nil, h.full hfull] at hhead
            cases hhead
          · exact hpos
        obtain ⟨a, ha, -⟩ := Incoming.receive_now hpos hreceive
        rw [hmoved.incoming, ha, List.length_cons]
        exact Nat.lt_succ_self _
  · rintro stop s' ⟨hstop, hreceive, rfl⟩
    exact ⟨hstop, .inl (Incoming.receive_eq_none hreceive), hprefix⟩

/-- The body is there: it is terminated, and the request is executed next. -/
theorem wp_finish {s : ServerConnection ρ ω ε} {es : List (ε × Bytes)} {σ : ρ × ω} {q : Bytes}
    {b n : ℕ} (h : AtBody S T s es σ q b n) (hn : b + n ≤ q.length)
    {E : Stop → ServerConnection ρ ω ε → Prop} :
    wp readRequest.finish (fun success s' => success = true ∧ Inv S T s' ∧
      s'.connectionState = .executeRequest ∧ s'.incoming = s.incoming) E s := by
  obtain ⟨m, hm, hholds⟩ := h.holds.terminate
  rw [readRequest.finish, wp_bind, wp_get, wp_bind, wp_store hm, wp_bind, wp_modify, wp_pure]
  refine ⟨rfl, .request rfl ⟨⟨h.receives, ?_, ?_, h.world, ?_⟩, h.head, h.le, hholds, h.handled⟩ hn,
    rfl, rfl⟩
  · exact ⟨h.environment.stream_eq, h.environment.attempts, h.environment.accepts⟩
  · exact ⟨h.log.executed, h.log.sent⟩
  · exact ⟨h.idle.header, h.idle.response, h.idle.headerBytesWritten, h.idle.resultBytesWritten⟩

/-- `ReadRequest` waits for more of the body, or goes on to execute the request. -/
theorem readRequest_follows :
    Follows S T .readRequest readRequest fun s s' =>
      s'.incoming.attempts.length ≤ s.incoming.attempts.length ∧
        (s'.connectionState = .readRequest ∧ (∃ es rest, Quiet S T s' es rest) ∨
          s'.connectionState = .executeRequest) := by
  intro s hs hstate
  have hprefix := hs.executed_prefix
  cases hs with
  | header hstate' h => cases hstate.symm.trans hstate'
  | request hstate' h hn => cases hstate.symm.trans hstate'
  | response hstate' h => cases hstate.symm.trans hstate'
  | closed hstate' h => cases hstate.symm.trans hstate'
  | @body es σ q b n _ h =>
  have havail := h.holds.contentAvail
  have hlength := h.holds.contentLength
  have hstart := h.holds.start_le
  rw [readRequest, wp_bind, wp_get, wp_ite]
  constructor
  · intro hmore
    rw [havail, hlength] at hmore
    have hshort : q.length < b + n := by omega
    have hcount : es.length = handled S T s.received := by
      rw [← h.handled, ready_of_wait (look_of_short h.head h.le hshort), Nat.add_zero]
    rw [wp_bind]
    refine wp_receive (fun hreceive => ⟨rfl, .inl (Incoming.receive_eq_none hreceive), hprefix⟩)
      fun r incoming hreceive houtcome => ?_
    have hle := houtcome.length_le
    rw [hlength, havail] at hle
    obtain ⟨m, hm, hholds⟩ := h.holds.receiveStored (d := r.data) (by omega)
    refine ⟨m, hm, ?_⟩
    cases hr : r.success with
    | false =>
      simp only [Bool.not_false, if_true, Bool.false_eq_true, if_false]
      refine wp_mono (wp_giveUp_moved _) ?_ fun _ _ h => h
      rintro success s' ⟨rfl, hmoved⟩
      exact ⟨_, _, closed_of_ended h.toReading hcount hreceive hr
        ⟨hmoved.incoming, hmoved.received, hmoved.socket, hmoved.executed⟩⟩
    | true =>
      simp only [Bool.not_true, Bool.false_eq_true, if_false, if_true]
      have heof : r.eof = false := (houtcome.success_iff.mp hr).1
      rw [wp_bind, wp_modify]
      -- The connection after the bytes have arrived.
      have hbody : AtBody S T { s with
          incoming
          message := { m with contentAvail := s.message.contentAvail + r.data.length }
          received := s.received ++ [r.data] } es σ (q ++ r.data) b n := by
        refine ⟨h.toReading.moved hreceive ⟨rfl, rfl, rfl, rfl⟩ ⟨rfl, rfl, rfl, rfl, rfl⟩,
          Service.head_of_append h.head (by simp), h.le, ?_, ?_⟩
        · show MessageBuffer.Holds { m with contentAvail := s.message.contentAvail + r.data.length } _ _ _
          rw [havail]
          exact hholds
        · exact (handled_receive h.receives hcount r.data).symm
      have hused : incoming.attempts.length ≤ s.incoming.attempts.length := by
        obtain ⟨a, ha, -⟩ := Incoming.receive_now (by omega) hreceive
        rw [ha, List.length_cons]
        exact Nat.le_succ _
      rw [wp_ite]
      constructor
      · intro hmore'
        rw [havail, hlength] at hmore'
        rw [heof]
        simp only [Bool.false_eq_true, if_false]
        rw [wp_pure]
        refine ⟨.body hstate hbody, hused, .inl ⟨hstate, es, some (σ, q ++ r.data), ?_⟩⟩
        have hlook : S.look σ (q ++ r.data) = .wait := by
          refine look_of_short hbody.head hbody.le ?_
          rw [List.length_append]
          omega
        refine ⟨hbody.receives, hbody.environment, hbody.log, ?_, .inl ⟨hlook, ?_, ?_⟩⟩
        rotate_left
        · simp [hstate]
        · intro hstate'
          cases hstate.symm.trans hstate'
        have hready := hbody.handled
        rwa [ready_of_wait hlook, Nat.add_zero] at hready
      · intro hdone
        rw [havail, hlength] at hdone
        refine wp_mono (wp_finish hbody ?_) ?_ fun _ _ h => h
        · rw [List.length_append]
          omega
        · rintro success s' ⟨rfl, hinv, hstate', hincoming⟩
          exact ⟨hinv, by rw [hincoming]; exact hused, .inr hstate'⟩
  · intro hdone
    rw [havail, hlength] at hdone
    refine wp_mono (wp_finish h (by omega)) ?_ fun _ _ h => h
    rintro success s' ⟨rfl, hinv, hstate', hincoming⟩
    exact ⟨hinv, by rw [hincoming], .inr hstate'⟩

/-- `ExecuteRequest` executes the request, and goes on to the response or to the next header. -/
theorem executeRequest_follows {executeRequest : ConnectionM ρ ω ε Bool}
    (hspec : ExecuteSpec S executeRequest) :
    Follows S T .executeRequest executeRequest fun s s' =>
      s'.incoming.attempts.length ≤ s.incoming.attempts.length ∧
        (s'.connectionState = .readHeader ∨ s'.connectionState = .writeResponse) := by
  intro s hs hstate
  cases hs with
  | header hstate' h => cases hstate.symm.trans hstate'
  | body hstate' h => cases hstate.symm.trans hstate'
  | response hstate' h => cases hstate.symm.trans hstate'
  | closed hstate' h => cases hstate.symm.trans hstate'
  | @request es σ q b n _ h hn =>
  have hlook := look_of_complete h.head h.le hn
  have hrequest := h.holds.body hn
  refine wp_mono (hspec s _ hstate (h.holds.behind hn) h.idle) ?_ fun _ _ h => h.elim
  intro success s' hdone
  rw [hrequest] at hdone
  cases hdone with
  | rejected hmoved hexecute =>
    rw [h.world] at hexecute
    rw [hexecute] at hlook
    simp only at hlook
    have hreceived : s'.received = s.received := by simpa using hmoved.received
    refine ⟨es, none, ?_, ?_, h.log.moved hmoved, ?_, .inl rfl⟩
    · rw [hreceived]
      simpa using h.receives.trans (.stop hlook)
    · exact ⟨by rw [hreceived, hmoved.incoming]; exact h.environment.stream_eq,
        by rw [hmoved.incoming]; exact h.environment.attempts,
        by rw [hmoved.socket]; exact h.environment.accepts⟩
    · rw [hreceived, ← h.handled, ready_of_stop hlook, Nat.add_zero]
  | @silent _ x hexecute houtput hexecuted hmoved hworld hidle hstate' hlength hcontent hdata hbuffer
      hderived =>
    rw [h.world] at hexecute
    rw [hexecute] at hlook
    simp only [houtput, Option.isSome_none, Bool.false_and, Bool.false_eq_true, if_false] at hlook
    have hreceived : s'.received = s.received := by simpa using hmoved.received
    have hincoming : s'.incoming = s.incoming := hmoved.incoming
    have hsocket : s'.socket = s.socket := hmoved.socket
    suffices hnext : AtHeader S T s' (es ++ [(x.record, responseWire none)])
        (Transport.initializeData x.derived, x.world) (q.drop (b + n)) from
      ⟨.header hstate' hnext, hincoming ▸ le_rfl, .inl hstate'⟩
    refine ⟨⟨?_, ?_, ⟨?_, ?_⟩, hworld, hidle⟩, hlength, hcontent, hdata, hbuffer, h.rest_lt.le, ?_, ?_,
      ?_⟩
    · rw [hreceived]
      exact h.receives.trans (.next hlook (.start _ _))
    · exact ⟨by rw [hreceived, hincoming]; exact h.environment.stream_eq,
        by rw [hincoming]; exact h.environment.attempts,
        by rw [hsocket]; exact h.environment.accepts⟩
    · rw [hexecuted, h.log.executed, List.map_append, List.map_singleton]
    · rw [hsocket, h.log.sent, List.map_append, List.map_singleton, List.flatten_append,
        List.flatten_singleton]
      simp [responseWire]
    · intro hfull
      exact absurd hfull h.rest_lt.ne
    · rw [hderived]
      exact S.seen_initializeData _ _
    · rw [hreceived, ← h.handled, ready_of_message hlook, List.length_append, List.length_singleton]
  | @response _ x hexecute houtput hexecuted hmoved hworld hstate' hbehind hheader hresult hderived
      hkeep =>
    rw [h.world] at hexecute
    obtain ⟨hclear, hclear'⟩ := S.output_clear hexecute houtput
    rw [hexecute] at hlook
    simp only [houtput, Option.isSome_some, Bool.true_and] at hlook
    have hreceived : s'.received = s.received := by simpa using hmoved.received
    have hincoming : s'.incoming = s.incoming := hmoved.incoming
    have hsocket : s'.socket = s.socket := hmoved.socket
    suffices hnext : AtResponse S T s' es σ q (b + n) x.record from
      ⟨.response hstate' hnext, hincoming ▸ le_rfl, .inr hstate'⟩
    refine ⟨?_, ?_, ?_, ?_, ?_, hbehind, h.rest_lt, hclear, hclear',
      hheader.trans h.idle.headerBytesWritten, hresult.trans h.idle.resultBytesWritten, ?_⟩
    · rw [hreceived]
      exact h.receives
    · exact ⟨by rw [hreceived, hincoming]; exact h.environment.stream_eq,
        by rw [hincoming]; exact h.environment.attempts,
        by rw [hsocket]; exact h.environment.accepts⟩
    · rw [hexecuted, h.log.executed]
    · rw [hsocket, h.log.sent]
    · rw [hkeep, hderived, hworld]
      exact hlook
    · rw [hreceived, ← h.handled, ready_of_message hlook]

omit [Transport ρ] in
/-- A computation of the part that sends goes on as it does on its own. -/
theorem wp_liftSending_of {α : Type} {p : EStateM Pending Connection α}
    {P : α → Connection → Prop} {R : Pending → Connection → Prop} {s : ServerConnection ρ ω ε}
    {Q : α → ServerConnection ρ ω ε → Prop} {E : Stop → ServerConnection ρ ω ε → Prop}
    (hp : wp p P R s.sending)
    (hQ : ∀ a c, P a c → Q a { s with
      socket := c.socket
      header := c.header
      headerBytesWritten := c.headerBytesWritten
      response := c.response
      resultBytesWritten := c.resultBytesWritten })
    (hE : ∀ e c, R e c → E .pending { s with
      socket := c.socket
      header := c.header
      headerBytesWritten := c.headerBytesWritten
      response := c.response
      resultBytesWritten := c.resultBytesWritten }) :
    wp (liftSending p) Q E s := by
  unfold wp at hp
  unfold wp liftSending
  cases hrun : p s.sending with
  | ok a c =>
    rw [hrun] at hp
    exact hQ a c hp
  | error e c =>
    rw [hrun] at hp
    exact hE e c hp

/-- `WriteResponse` sends the response, and goes on to the next header if the connection is to be kept
alive. -/
theorem writeResponse_follows :
    Follows S T .writeResponse writeResponse fun s s' =>
      s'.incoming.attempts.length ≤ s.incoming.attempts.length ∧
        s'.connectionState = .readHeader := by
  intro s hs hstate
  have hprefix := hs.executed_prefix
  cases hs with
  | header hstate' h => cases hstate.symm.trans hstate'
  | body hstate' h => cases hstate.symm.trans hstate'
  | request hstate' h hn => cases hstate.symm.trans hstate'
  | closed hstate' h => cases hstate.symm.trans hstate'
  | @response es σ q n record _ h =>
  have hwait (s' : ServerConnection ρ ω ε) (hattempts : s'.socket.attempts = [])
      (hexecuted : s'.executed = s.executed) : Waiting S T .pending s' :=
    ⟨rfl, .inr hattempts, hexecuted ▸ hprefix⟩
  rw [writeResponse, wp_bind, wp_get, wp_bind]
  have hheader := Connection.writeHeader_wire (s.socket.attempts.length + 1) (c := s.sending)
    (Nat.lt_succ_self _) h.environment.accepts h.resultBytesWritten
  refine wp_liftSending_of hheader ?_ fun _ _ hattempts => hwait _ hattempts.1 rfl
  rintro result c ⟨rfl, hresult, hsent⟩
  simp only
  rw [wp_bind, wp_get, wp_bind]
  have hbody := Connection.writeBody_wire (c.socket.attempts.length + 1)
    (c := ServerConnection.sending { s with
      socket := c.socket
      header := c.header
      headerBytesWritten := c.headerBytesWritten
      response := c.response
      resultBytesWritten := c.resultBytesWritten }) (Nat.lt_succ_self _) hsent.accepts
  refine wp_liftSending_of hbody ?_ fun _ _ hattempts => hwait _ hattempts.1 rfl
  rintro result c' ⟨rfl, hsent'⟩
  simp only
  rw [wp_bind, wp_modify, wp_bind, wp_get]
  -- The bytes that were sent are those of the response.
  have hwire : c'.socket.sent =
      s.socket.sent ++ responseWire (some (s.header, s.response)) := by
    rw [hsent'.sent]
    show c.socket.sent ++ c.response.bytes.drop c.resultBytesWritten = _
    rw [hsent.sent, hresult, hsent.response, List.append_assoc, responseWire]
    show s.socket.sent ++ (headerWire (s.header.getBuffer 0) (s.header.length - s.headerBytesWritten)
      ++ s.response.bytes) = _
    rw [h.headerBytesWritten, Nat.sub_zero]
  have hheader' : c'.header.clear = .newDefault := by
    rw [hsent'.header]
    show c.header.clear = _
    rw [hsent.header]
    exact h.header
  have hresponse' : c'.response.clear = .newDefault := by
    rw [hsent'.response]
    show c.response.clear = _
    rw [hsent.response]
    exact h.response
  have hnext := h.receives_next
  have hcount : (es ++ [(record, responseWire (some (s.header, s.response)))]).length =
      handled S T s.received := by
    rw [List.length_append, List.length_singleton, h.handled]
  have hexecuted : s.executed =
      (es ++ [(record, responseWire (some (s.header, s.response)))]).map Prod.fst := by
    rw [h.executed, List.map_append, List.map_singleton]
  have hall : c'.socket.sent = T.sent ++
      ((es ++ [(record, responseWire (some (s.header, s.response)))]).map Prod.snd).flatten := by
    rw [hwire, h.sent]
    simp
  cases hk : s.keepAlive with
  | true =>
    rw [hk, if_pos rfl] at hnext
    obtain ⟨m, hm, hdata, hbuffer, hlength⟩ := h.behind.preserve
    rw [initializeData, wp_bind, wp_bind, wp_store (m := m.clear) (by simp [hm]), wp_modify, wp_pure]
    refine ⟨.header rfl ⟨⟨hnext, ⟨h.environment.stream_eq, h.environment.attempts, hsent'.accepts⟩,
      ⟨hexecuted, hall⟩, rfl, ⟨hheader', hresponse', rfl, rfl⟩⟩, hlength, rfl, hdata, hbuffer,
      h.short.le, fun hfull => absurd hfull h.short.ne, S.seen_initializeData _ _, hcount⟩,
      le_rfl, rfl⟩
  | false =>
    rw [hk] at hnext
    rw [initializeData, wp_bind, wp_bind, wp_store (m := s.message.discard.clear) rfl, wp_modify,
      wp_pure]
    exact ⟨_, none, hnext, ⟨h.environment.stream_eq, h.environment.attempts, hsent'.accepts⟩,
      ⟨hexecuted, hall⟩, hcount, .inl rfl⟩

/-! ## Every run -/

/-- A call of `Process` is over: everything is executed as far as it is complete, except for a request
that the call was not to execute. -/
def Resting (S : Service ρ ω ε) (T : Session ρ ω) (executeAfterRead : Bool)
    (s : ServerConnection ρ ω ε) : Prop :=
  (∃ es rest, Quiet S T s es rest) ∨ executeAfterRead = false ∧ s.connectionState = .executeRequest

/-- Answers of the kernel are used up, and at least one if a header was to be read. -/
def UsesUp (s s' : ServerConnection ρ ω ε) : Prop :=
  s'.incoming.attempts.length ≤ s.incoming.attempts.length ∧
    (s.connectionState = .readHeader →
      s'.incoming.attempts.length < s.incoming.attempts.length)

/-- A connection that is closed makes no more of its stream. -/
theorem Closed.inv_close {s : ServerConnection ρ ω ε} {es : List (ε × Bytes)}
    {rest : Option ((ρ × ω) × Bytes)} (h : Closed S T s es rest) :
    Inv S T { s with connectionState := .closeConnection } ∧
      Quiet S T { s with connectionState := .closeConnection } es rest := by
  have henv : Environment T { s with connectionState := .closeConnection } :=
    ⟨h.environment.stream_eq, h.environment.attempts, h.environment.accepts⟩
  have hlog : Log T es { s with connectionState := .closeConnection } :=
    ⟨h.log.executed, h.log.sent⟩
  refine ⟨.closed rfl ⟨h.receives, henv, hlog, h.handled, h.reason⟩,
    ⟨h.receives, henv, hlog, h.handled, ?_⟩⟩
  rcases h.reason with rfl | hends
  · exact .inl (ending_none rfl)
  · exact .inr ⟨rfl, hends⟩

/-- An empty buffer leaves nothing to be executed. -/
theorem quiet_of_empty {s : ServerConnection ρ ω ε} (hs : Inv S T s)
    (hstate : s.connectionState = .readHeader) (hempty : ¬ 0 < s.message.bufferLength) :
    ∃ es rest, Quiet S T s es rest := by
  cases hs with
  | body hstate' h => cases hstate.symm.trans hstate'
  | request hstate' h hn => cases hstate.symm.trans hstate'
  | response hstate' h => cases hstate.symm.trans hstate'
  | closed hstate' h => cases hstate.symm.trans hstate'
  | @header es σ q _ h =>
    have hq : q = [] := List.eq_nil_of_length_eq_zero (by have := h.bufferLength; omega)
    subst hq
    refine ⟨es, some (σ, []), h.receives, h.environment, h.log, h.handled, .inl ?_⟩
    exact ending_of_incomplete hstate h.bufferLength (Nat.zero_le _) (S.head_nil σ.1)

/-- A function that `Process` calls under a condition. -/
theorem wp_guarded_follows {state : ConnectionState} (condition : Bool) {f : ConnectionM ρ ω ε Bool}
    {R : ServerConnection ρ ω ε → ServerConnection ρ ω ε → Prop} {s : ServerConnection ρ ω ε}
    {P : ServerConnection ρ ω ε → Prop} (hf : Follows S T state f R) (hs : Inv S T s)
    (hcondition : condition = true → s.connectionState = state)
    (hcalled : ∀ s', condition = true → R s s' → P s') (hskipped : condition = false → P s) :
    wp (processState.guarded condition f)
      (fun success s' => if success then Inv S T s' ∧ P s' else ∃ es rest, Closed S T s' es rest)
      (Waiting S T) s := by
  rw [processState.guarded, wp_ite]
  constructor
  · intro h
    refine wp_mono (hf s hs (hcondition h)) ?_ fun _ _ h => h
    intro success s' hdone
    cases success with
    | true => exact ⟨hdone.1, hcalled s' h hdone.2⟩
    | false => exact hdone
  · intro h
    exact ⟨hs, hskipped (Bool.eq_false_of_not_eq_true h)⟩

/-- A round of `Process` follows the framing: another round follows it with answers of the kernel used
up, or nothing is left to be done. -/
theorem processState_follows {readHeader executeRequest : ConnectionM ρ ω ε Bool}
    (hheader : HeaderSpec S readHeader) (hexecute : ExecuteSpec S executeRequest)
    (executeAfterRead : Bool) {s : ServerConnection ρ ω ε} (hs : Inv S T s) :
    wp (processState readHeader executeRequest executeAfterRead)
      (fun again s' => Inv S T s' ∧
        if again then s'.connectionState = .readHeader ∧ UsesUp s s'
        else Resting S T executeAfterRead s')
      (Waiting S T) s := by
  -- A function that fails is followed by `close`, and one that does not by the rest of the round.
  have hnext {p : ConnectionM ρ ω ε Bool} {success : Bool} {s' : ServerConnection ρ ω ε} {P : Prop}
      (h : if success then P else ∃ es rest, Closed S T s' es rest)
      (hp : P → wp p (fun again s' => Inv S T s' ∧
        if again then s'.connectionState = .readHeader ∧ UsesUp s s'
        else Resting S T executeAfterRead s') (Waiting S T) s') :
      wp (if !success then processState.close else p) (fun again s' => Inv S T s' ∧
        if again then s'.connectionState = .readHeader ∧ UsesUp s s'
        else Resting S T executeAfterRead s') (Waiting S T) s' := by
    cases success with
    | true => exact hp h
    | false =>
      obtain ⟨es, rest, hclosed⟩ := h
      obtain ⟨hinv, hquiet⟩ := hclosed.inv_close
      exact ⟨hinv, .inl ⟨es, rest, hquiet⟩⟩
  unfold processState
  -- After the header is read.
  have hstage₁ := wp_guarded_follows (decide (s.connectionState = .readHeader))
    (P := fun s₁ => s₁.connectionState = .readHeader ∧ (∃ es rest, Quiet S T s₁ es rest) ∨
      s₁.connectionState ≠ .readHeader ∧ UsesUp s s₁)
    (readHeader_follows hheader) hs of_decide_eq_true
    (fun s₁ _ h => by
      rcases h with h | ⟨hstate, hlt⟩
      · exact .inl h
      · exact .inr ⟨by rw [hstate]; decide, hlt.le, fun _ => hlt⟩)
    (fun h => .inr ⟨of_decide_eq_false h, le_rfl, fun h' => absurd h' (of_decide_eq_false h)⟩)
  rw [wp_bind, processState.inState, wp_bind, wp_get]
  refine wp_mono hstage₁ (fun ok s₁ h₁ => hnext h₁ fun h => ?_) fun _ _ h => h
  obtain ⟨hs₁, h₁⟩ := h
  -- After the body is read.
  have hstage₂ := wp_guarded_follows (decide (s₁.connectionState = .readRequest))
    (P := fun s₂ => (s₂.connectionState = .readHeader ∨ s₂.connectionState = .readRequest) ∧
        (∃ es rest, Quiet S T s₂ es rest) ∨
      (s₂.connectionState ≠ .readHeader ∧ s₂.connectionState ≠ .readRequest) ∧ UsesUp s s₂)
    readRequest_follows hs₁ of_decide_eq_true
    (fun s₂ hcond h => by
      have hstate₁ := of_decide_eq_true hcond
      have hused : UsesUp s s₁ := by
        rcases h₁ with ⟨hstate, -⟩ | ⟨-, hused⟩
        · cases hstate₁.symm.trans hstate
        · exact hused
      obtain ⟨hle, ⟨hstate, hquiet⟩ | hstate⟩ := h
      · exact .inl ⟨.inr hstate, hquiet⟩
      · exact .inr ⟨by rw [hstate]; decide, hle.trans hused.1, fun h => hle.trans_lt (hused.2 h)⟩)
    (fun hcond => by
      rcases h₁ with ⟨hstate, hquiet⟩ | ⟨hstate, hused⟩
      · exact .inl ⟨.inl hstate, hquiet⟩
      · exact .inr ⟨⟨hstate, of_decide_eq_false hcond⟩, hused⟩)
  rw [wp_bind, processState.inState, wp_bind, wp_get]
  refine wp_mono hstage₂ (fun ok s₂ h₂ => hnext h₂ fun h => ?_) fun _ _ h => h
  obtain ⟨hs₂, h₂⟩ := h
  rw [wp_bind, wp_get]
  -- After the request is executed.
  have hstage₃ := wp_guarded_follows
    (executeAfterRead && decide (s₂.connectionState = .executeRequest))
    (P := fun s₃ => (executeAfterRead && decide (s₂.connectionState = .executeRequest)) = true ∧
        (s₃.connectionState = .readHeader ∨ s₃.connectionState = .writeResponse) ∧ UsesUp s s₃ ∨
      (executeAfterRead && decide (s₂.connectionState = .executeRequest)) = false ∧ s₃ = s₂)
    (executeRequest_follows hexecute) hs₂
    (fun hcond => by
      rw [Bool.and_eq_true, decide_eq_true_eq] at hcond
      exact hcond.2)
    (fun s₃ hcond h => by
      rw [Bool.and_eq_true, decide_eq_true_eq] at hcond
      have hused : UsesUp s s₂ := by
        rcases h₂ with ⟨hstate | hstate, -⟩ | ⟨-, hused⟩
        · cases hcond.2.symm.trans hstate
        · cases hcond.2.symm.trans hstate
        · exact hused
      refine .inl ⟨by rw [Bool.and_eq_true, decide_eq_true_eq]; exact hcond, h.2,
        h.1.trans hused.1, fun h' => h.1.trans_lt (hused.2 h')⟩)
    (fun hcond => .inr ⟨hcond, rfl⟩)
  rw [wp_bind]
  refine wp_mono hstage₃ (fun ok s₃ h₃ => hnext h₃ fun h => ?_) fun _ _ h => h
  obtain ⟨hs₃, h₃⟩ := h
  rw [wp_bind, wp_get]
  -- After the response is written.
  have hstage₄ := wp_guarded_follows (decide (s₃.connectionState = .writeResponse))
    (P := fun s₄ => (executeAfterRead && decide (s₂.connectionState = .executeRequest) ||
          decide (s₃.connectionState = .writeResponse)) = true ∧
        s₄.connectionState = .readHeader ∧ UsesUp s s₄ ∨
      (executeAfterRead && decide (s₂.connectionState = .executeRequest) ||
          decide (s₃.connectionState = .writeResponse)) = false ∧ s₄ = s₂)
    writeResponse_follows hs₃ of_decide_eq_true
    (fun s₄ hcond h => by
      have hused : UsesUp s s₃ := by
        rcases h₃ with ⟨-, -, hused⟩ | ⟨-, rfl⟩
        · exact hused
        · rcases h₂ with ⟨hstate | hstate, -⟩ | ⟨-, hused⟩
          · cases (of_decide_eq_true hcond).symm.trans hstate
          · cases (of_decide_eq_true hcond).symm.trans hstate
          · exact hused
      exact .inl ⟨by rw [hcond, Bool.or_true], h.2, h.1.trans hused.1,
        fun h' => h.1.trans_lt (hused.2 h')⟩)
    (fun hcond => by
      rcases h₃ with ⟨hexecuting, hstate | hstate, hused⟩ | ⟨hexecuting, rfl⟩
      · exact .inl ⟨by rw [hexecuting, Bool.true_or], hstate, hused⟩
      · exact absurd hstate (of_decide_eq_false hcond)
      · exact .inr ⟨by rw [hexecuting, hcond, Bool.or_false], rfl⟩)
  rw [wp_bind, processState.inState, wp_bind, wp_get]
  refine wp_mono hstage₄ (fun ok s₄ h₄ => hnext h₄ fun h => ?_) fun _ _ h => h
  obtain ⟨hs₄, h₄⟩ := h
  rw [wp_ite]
  constructor
  · intro hdone
    rw [processState.moreData, wp_bind, wp_get, wp_pure]
    refine ⟨hs₄, ?_⟩
    rcases h₄ with ⟨-, hstate, hused⟩ | ⟨hnot, -⟩
    · by_cases hmore : 0 < s₄.message.bufferLength
      · simp only [hstate, hmore, decide_true, Bool.and_true, if_true, true_and]
        exact hused
      · simp only [hstate, hmore, decide_true, decide_false, Bool.and_false, Bool.false_eq_true,
          if_false]
        exact .inl (quiet_of_empty hs₄ hstate hmore)
    · rw [hdone] at hnot
      cases hnot
  · intro hnot
    rw [wp_pure]
    refine ⟨hs₄, ?_⟩
    rcases h₄ with ⟨hdone, -⟩ | ⟨-, rfl⟩
    · exact absurd hdone hnot
    · rcases h₂ with ⟨-, hquiet⟩ | ⟨⟨hheader', hrequest'⟩, -⟩
      · exact .inl hquiet
      · -- Neither executed nor written, so the request was not to be executed.
        rcases h₃ with ⟨hexecuting, -⟩ | ⟨-, rfl⟩
        · exact absurd (by rw [hexecuting, Bool.true_or]) hnot
        · rw [Bool.or_eq_true, Bool.and_eq_true, decide_eq_true_eq, decide_eq_true_eq] at hnot
          cases hs₄ with
          | header hstate h => exact absurd hstate hheader'
          | body hstate h => exact absurd hstate hrequest'
          | request hstate h hn =>
            refine .inr ⟨?_, hstate⟩
            cases executeAfterRead with
            | false => rfl
            | true => exact absurd (.inl ⟨rfl, hstate⟩) hnot
          | response hstate h => exact absurd (.inr hstate) hnot
          | closed hstate h =>
            refine .inl ⟨_, _, h.receives, h.environment, h.log, h.handled, ?_⟩
            rcases h.reason with rfl | hends
            · exact .inl (ending_none hstate)
            · exact .inr ⟨hstate, hends⟩

/-- The loop of `Process` ends where nothing is left to be done, or waits for the kernel: it has as
many rounds as it needs. -/
theorem processLoop_follows {readHeader executeRequest : ConnectionM ρ ω ε Bool}
    (hheader : HeaderSpec S readHeader) (hexecute : ExecuteSpec S executeRequest)
    (executeAfterRead : Bool) (fuel : ℕ) {s : ServerConnection ρ ω ε} (hs : Inv S T s)
    (hfuel : s.incoming.attempts.length < fuel ∨
      s.connectionState = .readHeader ∧ s.incoming.attempts.length ≤ fuel) :
    wp (processLoop readHeader executeRequest executeAfterRead fuel)
      (fun _ s' => Inv S T s' ∧ Resting S T executeAfterRead s') (Waiting S T) s := by
  induction fuel generalizing s with
  | zero =>
    have hnone : s.incoming.attempts = [] := List.eq_nil_of_length_eq_zero (by omega)
    exact ⟨rfl, .inl hnone, hs.executed_prefix⟩
  | succ fuel ih =>
    rw [processLoop]
    refine wp_seq (processState_follows hheader hexecute executeAfterRead hs) ?_
    rintro again s' ⟨hs', hagain⟩
    cases again with
    | true =>
      obtain ⟨hstate, hle, hlt⟩ := hagain
      refine ih hs' (.inr ⟨hstate, ?_⟩)
      rcases hfuel with hfuel | ⟨hstate', hfuel⟩
      · omega
      · have := hlt hstate'
        omega
    | false => exact ⟨hs', hagain⟩

/-- Every call of `Process` follows the framing of the stream. -/
theorem process_follows {readHeader executeRequest : ConnectionM ρ ω ε Bool}
    (hheader : HeaderSpec S readHeader) (hexecute : ExecuteSpec S executeRequest)
    (executeAfterRead : Bool) {s : ServerConnection ρ ω ε} (hs : Inv S T s) :
    wp (process readHeader executeRequest executeAfterRead)
      (fun _ s' => Inv S T s' ∧ Resting S T executeAfterRead s') (Waiting S T) s := by
  rw [process, wp_bind, wp_get]
  exact processLoop_follows hheader hexecute executeAfterRead _ hs (.inl (Nat.lt_succ_self _))

/-- Every sequence of calls of which the last one executes what it reads leaves nothing to be done. -/
theorem serve_follows {readHeader executeRequest : ConnectionM ρ ω ε Bool}
    (hheader : HeaderSpec S readHeader) (hexecute : ExecuteSpec S executeRequest)
    (calls : List Bool) {s : ServerConnection ρ ω ε} (hs : Inv S T s) :
    wp (serve (process readHeader executeRequest) (calls ++ [true]))
      (fun _ s' => ∃ es rest, Quiet S T s' es rest) (Waiting S T) s := by
  induction calls generalizing s with
  | nil =>
    rw [List.nil_append, serve]
    refine wp_seq (process_follows hheader hexecute true hs) ?_
    rintro _ s' ⟨-, hquiet | ⟨hfalse, -⟩⟩
    · exact hquiet
    · cases hfalse
  | cons executeAfterRead calls ih =>
    rw [List.cons_append, serve]
    exact wp_seq (process_follows hheader hexecute executeAfterRead hs) fun _ s' h => ih h.1

end AnyRpc
