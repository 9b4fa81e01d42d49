import AnyRpc.Connection.Refinement

/-! # What a run leaves behind

A connection that was just accepted satisfies the invariant, so every run of it ends with everything
executed that is complete (`Quiet`). Here is what this says about the stream as a whole, once the
connection has made of it what it can, and about the requests that are lost when it ends too early. -/

namespace AnyRpc

open Library ServerConnection

variable {ρ ω ε : Type} [Transport ρ] {S : Service ρ ω ε} {T : Session ρ ω}
  {s : ServerConnection ρ ω ε} {es : List (ε × Bytes)} {rest : Option ((ρ × ω) × Bytes)}

/-- The session of a connection that was just accepted. -/
def Session.accepted (socket : TcpSocket) (incoming : Incoming) (derived : ρ) (world : ω) :
    Session ρ ω where
  start := (derived, world)
  stream := incoming.unread
  sent := socket.sent
  attempts := incoming.attempts

/-- A connection that was just accepted waits for its first header. -/
theorem inv_accepted {buffer : Bytes} (hbuffer : buffer.length = maxBufferLength + 1)
    (heap : ℕ → UInt8) {socket : TcpSocket} (hsend : ∀ a ∈ socket.attempts, a.result = .accepted 0)
    (incoming : Incoming) {derived : ρ} (hseen : S.Seen derived derived []) (world : ω) :
    Inv S (Session.accepted socket incoming derived world)
      (ServerConnection.accepted buffer heap socket incoming derived world) := by
  refine .header rfl (q := []) ⟨⟨.start _ _, ⟨rfl, fun _ h => h,
    hsend⟩, ⟨rfl, ?_⟩, rfl, ⟨rfl, rfl, rfl, rfl⟩⟩, hbuffer, rfl, rfl, rfl, Nat.zero_le _,
    fun _ => S.head_nil _, hseen, rfl⟩
  exact (List.append_nil _).symm

/-- A computation that ends before it returns waits for an answer of the kernel. -/
def Outstanding (stop : Stop) (s : ServerConnection ρ ω ε) : Prop :=
  stop = .pending ∧ (s.incoming.attempts = [] ∨ s.socket.attempts = [])

theorem Waiting.outstanding {stop : Stop} (h : Waiting S T stop s) : Outstanding stop s :=
  ⟨h.1, h.2.1⟩

/-! ## Deliveries -/

/-- A way in which a stream may arrive at a connection that was just accepted: what is in its memory,
the pieces in which the stream arrives, and the calls of `Process` before the last one. The stream does
not end, and the kernel accepts all that is sent. -/
structure Delivery where
  buffer : Bytes
  heap : ℕ → UInt8 := fun _ => 0
  attempts : List RecvAttempt
  sends : List SendAttempt
  calls : List Bool
  length_buffer : buffer.length = maxBufferLength + 1
  arrives : ∀ a ∈ attempts, ∃ n, a.result = .arrived n
  accepts : ∀ a ∈ sends, a.result = .accepted 0

namespace Delivery

variable (d : Delivery)

/-- The connection before anything has arrived. -/
def accepted (stream : Bytes) (derived : ρ) (world : ω) : ServerConnection ρ ω ε :=
  ServerConnection.accepted d.buffer d.heap { attempts := d.sends } ⟨stream, d.attempts⟩ derived world

/-- The session of a delivery. -/
def session (stream : Bytes) (derived : ρ) (world : ω) : Session ρ ω :=
  .accepted { attempts := d.sends } ⟨stream, d.attempts⟩ derived world

omit [Transport ρ] in
theorem not_ends (stream : Bytes) (derived : ρ) (world : ω) :
    ¬ (d.session stream derived world).Ends := by
  rintro ⟨a, ha, hnot⟩
  obtain ⟨n, hn⟩ := d.arrives a ha
  exact hnot n hn

/-- However a stream arrives, everything is executed that is complete. -/
theorem serve_follows {readHeader executeRequest : ConnectionM ρ ω ε Bool}
    (hheader : HeaderSpec S readHeader) (hexecute : ExecuteSpec S executeRequest) {derived : ρ}
    (hseen : S.Seen derived derived []) (stream : Bytes) (world : ω) :
    wp (serve (process readHeader executeRequest) (d.calls ++ [true]))
      (fun _ s => ∃ es rest, Quiet S (d.session stream derived world) s es rest)
      (Waiting S (d.session stream derived world)) (d.accepted stream derived world) :=
  AnyRpc.serve_follows hheader hexecute d.calls
    (inv_accepted d.length_buffer d.heap d.accepts ⟨stream, d.attempts⟩ hseen world)

end Delivery

/-! ## The whole stream -/

/-- Nothing that is still to be received matters: there is nothing left, or the connection is closed,
or the buffer is full of a header that is not complete. -/
def Finished (s : ServerConnection ρ ω ε) : Prop :=
  s.incoming.unread = [] ∨ s.connectionState = .closeConnection ∨
    s.connectionState = .readHeader ∧ s.message.bufferLength = maxBufferLength

/-- A connection that is finished has made of its stream all that can be made of it. -/
theorem Quiet.finished (h : Quiet S T s es rest) (hends : ¬ T.Ends) (hfinished : Finished s) :
    ∃ rest', S.framing.Receives T.start T.stream es rest' ∧ S.framing.Settled rest' ∧
      (s.connectionState = .closeConnection ↔ rest' = none) := by
  have hending : Ending S s rest := h.ending.resolve_right fun h => hends h.2
  have hstream := h.environment.stream_eq
  refine ⟨rest.map fun r => (r.1, r.2 ++ s.incoming.unread), ?_, ?_, ?_⟩
  · rw [hstream]
    exact h.receives.append _
  · rcases hfinished with hempty | hclosed | ⟨hstate, hfull⟩
    · rw [hempty]
      simpa using hending.settled
    · rw [hending.closed_iff.mp hclosed]
      trivial
    · exact hending.full hstate hfull _
  · rw [hending.closed_iff, Option.map_eq_none_iff]

/-- What is executed comes first among the requests of the stream. -/
theorem Quiet.executed_prefix (h : Quiet S T s es rest) :
    s.executed <+: (S.framing.events T.start T.stream).map Prod.fst := by
  rw [h.log.executed]
  exact (prefix_stream h.environment h.receives).map _

/-! ## What is lost -/

/-- No last results of `Receive` complete more requests than there are results, where a stream starts
with the requests that are given for it. -/
def Paced (requests : Bytes → List ε) (chunks : List Bytes) : Prop :=
  ∀ k ≤ chunks.length, (requests chunks.flatten).length ≤
    (requests (chunks.take (chunks.length - k)).flatten).length + k

/-- Everything is executed that was received in full, exactly when it was received slowly enough. -/
theorem Quiet.executed_eq_iff (h : Quiet S T s es rest) :
    s.executed = (S.framing.events T.start s.received.flatten).map Prod.fst ↔
      Paced (fun stream => (S.framing.events T.start stream).map Prod.fst) s.received := by
  have hnone : S.framing.Settled (some (T.start, [])) :=
    look_of_incomplete (Nat.zero_le _) (S.head_nil _)
  have hzero : complete S T s.received 0 = 0 := by
    rw [complete, List.take_zero, List.flatten_nil, ← (Framing.Receives.start _ _).eq_events hnone,
      List.length_nil]
  have hall : complete S T s.received s.received.length =
      (S.framing.events T.start s.received.flatten).length := by
    rw [complete, List.take_length]
  have hpaced : Paced (fun stream => (S.framing.events T.start stream).map Prod.fst) s.received ↔
      AnyRpc.handled S T s.received = complete S T s.received s.received.length := by
    rw [AnyRpc.handled, served_eq_iff _ hzero, hall]
    simp only [Paced, List.length_map]
    rfl
  rw [hpaced, ← h.handled, hall, h.log.executed]
  constructor
  · intro heq
    simpa using congrArg List.length heq
  · intro hlength
    rw [h.receives.prefix_events.eq_of_length hlength]

end AnyRpc
