import AnyRpc.Connection.Outcome

/-! # Everything is received and executed

A run that returns has executed what it has received. That it returns, and has received everything, is
a matter of counting: each call of `Process` that may execute uses up an answer of the kernel or
executes a request, and no round uses up more than two answers (`processState_takes`). So with enough
calls and answers everything is received and executed (`Delivery.serve_completes`). -/

namespace AnyRpc

open Library ServerConnection

/-! ## What the kernel is going to hand over -/

namespace Incoming

/-- All that is unread is handed over by the answers of the kernel but for so many last ones. -/
def Supplied (m : ℕ) (i : Incoming) : Prop :=
  i.unread.length ≤
    (i.attempts.take (i.attempts.length - m)).countP fun a => 0 < a.result.amount

variable {m maxLength : ℕ} {i i' : Incoming} {r : Received}

/-- An answer of the kernel hands over what has arrived, as far as there is room for it. -/
theorem receive_unread (hpos : 0 < maxLength) (h : i.receive maxLength 0 = some (r, i')) :
    ∃ a, i.attempts = a :: i'.attempts ∧
      i'.unread = i.unread.drop (min a.result.amount maxLength) := by
  obtain ⟨unread, attempts⟩ := i
  cases attempts with
  | nil =>
    rw [receive, receiveLoop, if_pos (by simpa using hpos)] at h
    cases h
  | cons a as =>
    rw [receive, receiveLoop, if_pos (by simpa using hpos)] at h
    refine ⟨a, ?_⟩
    cases hresult : a.result with
    | arrived n =>
      rw [hresult] at h
      simp only [Nat.not_lt_zero, decide_false, Bool.false_and, Bool.false_eq_true, if_false] at h
      split at h <;> cases h <;> exact ⟨rfl, rfl⟩
    | closed | reset | failed =>
      rw [hresult] at h
      cases h
      exact ⟨rfl, by simp [KernelRecv.amount]⟩

/-- What is supplied stays so. -/
theorem Supplied.receive (hsupplied : i.Supplied m) (hpos : 0 < maxLength)
    (h : i.receive maxLength 0 = some (r, i')) : i'.Supplied m := by
  obtain ⟨a, hattempts, hunread⟩ := receive_unread hpos h
  unfold Supplied at hsupplied ⊢
  rw [hunread, List.length_drop]
  rw [hattempts, List.length_cons] at hsupplied
  by_cases hleft : m ≤ i'.attempts.length
  · rw [Nat.sub_add_comm hleft, List.take_succ_cons, List.countP_cons] at hsupplied
    by_cases hamount : 0 < a.result.amount
    · rw [if_pos (by simpa using hamount)] at hsupplied
      omega
    · rw [if_neg (by simpa using hamount)] at hsupplied
      omega
  · rw [Nat.sub_eq_zero_of_le (by omega), List.take_zero, List.countP_nil] at hsupplied
    omega

/-- Where only the last answers are left, everything is handed over. -/
theorem Supplied.unread_eq_nil (hsupplied : i.Supplied m) (h : i.attempts.length ≤ m) :
    i.unread = [] := by
  unfold Supplied at hsupplied
  rw [Nat.sub_eq_zero_of_le h, List.take_zero, List.countP_nil] at hsupplied
  exact List.eq_nil_of_length_eq_zero (by omega)

end Incoming

variable {ρ ω ε : Type} [Transport ρ]

/-! ## Streams of a connection that stays open -/

/-- The requests `es` are all of a stream behind which the connection stays open, and has room in its
buffer. -/
structure Session.Open (S : Service ρ ω ε) (T : Session ρ ω) (es : List (ε × Bytes)) : Prop where
  not_ends : ¬ T.Ends
  receives : ∃ σ q, S.framing.Receives T.start T.stream es (some (σ, q)) ∧ S.look σ q = .wait ∧
    q.length < maxBufferLength

section

variable {S : Service ρ ω ε} {T : Session ρ ω} {es es' : List (ε × Bytes)}
  {s s' s'' : ServerConnection ρ ω ε}

theorem Session.Open.events_eq (hopen : T.Open S es) :
    S.framing.events T.start T.stream = es := by
  obtain ⟨σ, q, hreceives, hwait, -⟩ := hopen.receives
  exact (hreceives.eq_events hwait).symm

/-- The connection is not closed. -/
theorem Session.Open.not_closed (hopen : T.Open S es) {rest : Option ((ρ × ω) × Bytes)}
    (h : Closed S T s es' rest) : False := by
  obtain ⟨σ, q, hreceives, hwait, -⟩ := hopen.receives
  rcases h.reason with rfl | hends
  · have hall := h.receives.append s.incoming.unread
    rw [← h.environment.stream_eq] at hall
    cases ((hreceives.unique hwait hall).2 trivial).2
  · exact hopen.not_ends hends

/-- The buffer is not full of a header. -/
theorem Session.Open.header_lt (hopen : T.Open S es) {σ : ρ × ω} {q : Bytes}
    (h : AtHeader S T s es' σ q) : q.length < maxBufferLength := by
  obtain ⟨σ', q', hreceives, hwait, hlt⟩ := hopen.receives
  by_contra hnot
  have hfull : q.length = maxBufferLength := Nat.le_antisymm h.le (Nat.le_of_not_lt hnot)
  have hall := h.receives.append s.incoming.unread
  rw [← h.environment.stream_eq] at hall
  have hsettled : S.framing.Settled (some (σ, q ++ s.incoming.unread)) := by
    show S.look σ (q ++ s.incoming.unread) = .wait
    rw [Service.look, List.take_left' hfull, h.full hfull]
  cases ((hreceives.unique hwait hall).2 hsettled).2
  have hle : q.length ≤ (q ++ s.incoming.unread).length := by simp
  exact absurd (hle.trans_lt hlt) hnot

/-! ## What is taken -/

/-- From one state to another so many answers of the kernel are taken and so many requests are executed.
What is supplied stays so, and no answer to `Send` is taken for less than a byte. -/
structure Takes (m answers requests : ℕ) (s s' : ServerConnection ρ ω ε) : Prop where
  attempts : s.incoming.attempts.length = s'.incoming.attempts.length + answers
  supplied : s.incoming.Supplied m → s'.incoming.Supplied m
  executed : s'.executed.length = s.executed.length + requests
  sends : s.socket.attempts.length + s.socket.sent.length ≤
    s'.socket.attempts.length + s'.socket.sent.length

variable {m j j' k k' : ℕ}

omit [Transport ρ] in
theorem Takes.refl (s : ServerConnection ρ ω ε) : Takes m 0 0 s s := ⟨rfl, id, rfl, le_rfl⟩

omit [Transport ρ] in
theorem Takes.trans (h : Takes m j k s s') (h' : Takes m j' k' s' s'') :
    Takes m (j + j') (k + k') s s'' where
  attempts := by
    have := h.attempts
    have := h'.attempts
    omega
  supplied hs := h'.supplied (h.supplied hs)
  executed := by
    have := h.executed
    have := h'.executed
    omega
  sends := h.sends.trans h'.sends

omit [Transport ρ] in
/-- Nothing is taken where nothing is received, sent or executed. -/
theorem Takes.of_moved {chunks : List Bytes} (h : Moved s s.incoming chunks s') :
    Takes m 0 0 s s' := by
  refine ⟨?_, ?_, ?_, ?_⟩
  · rw [h.incoming]
    rfl
  · rw [h.incoming]
    exact id
  · rw [h.executed]
    rfl
  · rw [h.socket]

omit [Transport ρ] in
/-- A result of `Receive` takes one answer. -/
theorem Takes.of_receive {maxLength : ℕ} {r : Received} {incoming : Incoming} {chunks : List Bytes}
    (hpos : 0 < maxLength) (hreceive : s.incoming.receive maxLength 0 = some (r, incoming))
    (h : Moved s incoming chunks s') : Takes m 1 0 s s' := by
  obtain ⟨a, hattempts, -⟩ := Incoming.receive_now hpos hreceive
  refine ⟨?_, ?_, ?_, ?_⟩
  · rw [h.incoming, hattempts, List.length_cons]
  · rw [h.incoming]
    exact fun hsupplied => hsupplied.receive hpos hreceive
  · rw [h.executed]
    rfl
  · rw [h.socket]

/-! ## What the functions take -/

/-- A result of `Receive` is added to what was received, whatever becomes of the request. -/
theorem HeaderDone.moved {fresh : ρ} {q : Bytes} {r : Received} {incoming : Incoming} {success : Bool}
    (h : HeaderDone S s fresh q r incoming success s') : ∃ chunks, Moved s incoming chunks s' := by
  cases h with
  | ended hr h => exact ⟨_, h⟩
  | fault hr h hhead => exact ⟨_, h⟩
  | waiting hr h => exact ⟨_, h⟩
  | found hr h => exact ⟨_, h⟩

/-- `ReadHeader` takes one answer. -/
theorem readHeader_takes {readHeader : ConnectionM ρ ω ε Bool} (hspec : HeaderSpec S readHeader)
    (hopen : T.Open S es) (hs : Inv S T s) (hstate : s.connectionState = .readHeader)
    (hanswers : 0 < s.incoming.attempts.length) :
    wp readHeader (fun success s' => success = true ∧ Inv S T s' ∧ Takes m 1 0 s s' ∧
        (s'.connectionState = .readHeader ∨ s'.connectionState = .readRequest))
      (fun _ _ => False) s := by
  have hfollows := readHeader_follows hspec s hs hstate
  cases hs with
  | body hstate' h => cases hstate.symm.trans hstate'
  | request hstate' h hn => cases hstate.symm.trans hstate'
  | response hstate' h => cases hstate.symm.trans hstate'
  | closed hstate' h => cases hstate.symm.trans hstate'
  | @header es' σ q _ h =>
  have hroom := hopen.header_lt h
  have hdone := hspec s σ.1 q hstate h.length_buffer h.content h.data h.bufferLength h.le h.seen
  refine wp_mono (wp_and hfollows hdone) ?_ ?_
  · rintro success s' ⟨hafter, r, incoming, hreceive, hheader⟩
    cases success with
    | false =>
      obtain ⟨es, rest, hclosed⟩ := hafter
      exact (hopen.not_closed hclosed).elim
    | true =>
      obtain ⟨hinv, hstate'⟩ := hafter
      obtain ⟨chunks, hmoved⟩ := hheader.moved
      exact ⟨rfl, hinv, .of_receive (by omega) hreceive hmoved, hstate'.imp And.left And.left⟩
  · rintro stop s' ⟨-, -, hnone, -⟩
    rw [Incoming.receive_eq_none hnone] at hanswers
    exact Nat.lt_irrefl 0 hanswers

/-- `ExecuteRequest` executes one request. -/
theorem executeRequest_takes {executeRequest : ConnectionM ρ ω ε Bool}
    (hspec : ExecuteSpec S executeRequest) (hopen : T.Open S es) (hs : Inv S T s)
    (hstate : s.connectionState = .executeRequest) :
    wp executeRequest (fun success s' => success = true ∧ Inv S T s' ∧ Takes m 0 1 s s' ∧
        (s'.connectionState = .readHeader ∨ s'.connectionState = .writeResponse))
      (fun _ _ => False) s := by
  have hfollows := executeRequest_follows hspec s hs hstate
  cases hs with
  | header hstate' h => cases hstate.symm.trans hstate'
  | body hstate' h => cases hstate.symm.trans hstate'
  | response hstate' h => cases hstate.symm.trans hstate'
  | closed hstate' h => cases hstate.symm.trans hstate'
  | @request es' σ q b n _ h hn =>
  have hdone := hspec s _ hstate (h.holds.behind hn) h.idle
  refine wp_mono (wp_and hfollows hdone) ?_ fun _ _ h => h.2
  rintro success s' ⟨hafter, hexecute⟩
  cases success with
  | false =>
    obtain ⟨es, rest, hclosed⟩ := hafter
    exact (hopen.not_closed hclosed).elim
  | true =>
    obtain ⟨hinv, -, hstate'⟩ := hafter
    -- Apart from the list of the requests, nothing has moved.
    have htakes {record : ε} (hmoved : Moved s s.incoming [] { s' with executed := s.executed })
        (hexecuted : s'.executed = s.executed ++ [record]) : Takes m 0 1 s s' := by
      have hnone : Takes m 0 0 s { s' with executed := s.executed } := .of_moved hmoved
      exact ⟨hnone.attempts, hnone.supplied, by rw [hexecuted, List.length_append]; rfl, hnone.sends⟩
    refine ⟨rfl, hinv, ?_, hstate'⟩
    cases hexecute with
    | silent _ _ hexecuted hmoved => exact htakes hmoved hexecuted
    | response _ _ hexecuted hmoved => exact htakes hmoved hexecuted

omit [Transport ρ] in
/-- `Receive` takes one answer, unless it waits for it. -/
theorem wp_receive_takes {storeAt : Bytes → MessageBuffer → Option MessageBuffer} {maxLength : ℕ}
    (hpos : 0 < maxLength) :
    wp (receive storeAt maxLength) (fun _ s' => Takes m 1 0 s s')
      (fun stop _ => stop = .pending → s.incoming.attempts = []) s := by
  rw [receive, wp_bind, wp_get]
  cases hreceive : s.incoming.receive maxLength 0 with
  | none => exact fun _ => Incoming.receive_eq_none hreceive
  | some result =>
    obtain ⟨r, incoming⟩ := result
    simp only [wp_bind, wp_modify]
    refine wp_store_any (fun message => ?_) fun h => by cases h
    obtain ⟨a, hattempts, -⟩ := Incoming.receive_now hpos hreceive
    exact ⟨by rw [hattempts, List.length_cons], fun h => h.receive hpos hreceive, rfl, le_rfl⟩

omit [Transport ρ] in
/-- The body is complete, and nothing is taken any more. -/
theorem wp_finish_takes :
    wp readRequest.finish (fun _ s' => Takes m 0 0 s s' ∧ s'.connectionState = .executeRequest)
      (fun stop _ => stop = .outOfBounds) s := by
  rw [readRequest.finish, wp_bind, wp_get, wp_bind]
  refine wp_store_any (fun message => ?_) rfl
  rw [wp_bind, wp_modify, wp_pure]
  exact ⟨⟨rfl, id, rfl, le_rfl⟩, rfl⟩

/-- `ReadRequest` takes one answer, or none if the request is complete. -/
theorem wp_readRequest_takes :
    wp readRequest (fun success s' => success = true → ∃ j ≤ 1, Takes m j 0 s s' ∧
        (j = 1 ∨ s'.connectionState = .executeRequest))
      (fun stop _ => stop = .pending → s.incoming.attempts = []) s := by
  have hgiveUp (s' : ServerConnection ρ ω ε) {Q : ServerConnection ρ ω ε → Prop}
      {E : Stop → ServerConnection ρ ω ε → Prop} :
      wp giveUp (fun success s' => success = true → Q s') E s' := by
    refine wp_mono (wp_giveUp_moved s') (fun success _ h hsuccess => ?_) fun _ _ h => h
    cases h.1.symm.trans hsuccess
  rw [readRequest, wp_bind, wp_get, wp_ite]
  constructor
  · intro hmore
    refine wp_seq (wp_receive_takes (m := m) (by omega)) fun r s₁ htakes => ?_
    rw [wp_ite]
    refine ⟨fun _ => hgiveUp s₁, fun _ => ?_⟩
    rw [wp_bind, wp_modify, wp_ite]
    have htakes' (message : MessageBuffer) : Takes m 1 0 s { s₁ with message } :=
      ⟨htakes.attempts, htakes.supplied, htakes.executed, htakes.sends⟩
    constructor
    · intro _
      rw [wp_ite]
      exact ⟨fun _ => hgiveUp _, fun _ _ => ⟨1, le_rfl, htakes' _, .inl rfl⟩⟩
    · intro _
      refine wp_mono (wp_finish_takes (m := m)) ?_ ?_
      · rintro success s' ⟨hrest, -⟩ -
        exact ⟨1, le_rfl, (htakes' _).trans hrest, .inl rfl⟩
      · rintro stop s' rfl h
        cases h
  · intro _
    refine wp_mono (wp_finish_takes (m := m)) ?_ ?_
    · rintro success s' ⟨htakes, hstate⟩ -
      exact ⟨0, Nat.zero_le 1, htakes, .inr hstate⟩
    · rintro stop s' rfl h
      cases h

/-- `ReadRequest` takes one answer, or none if the request is complete. -/
theorem readRequest_takes (hopen : T.Open S es) (hs : Inv S T s)
    (hstate : s.connectionState = .readRequest) (hanswers : 0 < s.incoming.attempts.length) :
    wp readRequest (fun success s' => success = true ∧ Inv S T s' ∧ ∃ j ≤ 1, Takes m j 0 s s' ∧
        (s'.connectionState = .readRequest ∧ j = 1 ∨ s'.connectionState = .executeRequest))
      (fun _ _ => False) s := by
  refine wp_mono (wp_and (readRequest_follows s hs hstate) (wp_readRequest_takes (m := m)))
    ?_ ?_
  · rintro success s' ⟨hafter, htakes⟩
    cases success with
    | false =>
      obtain ⟨es, rest, hclosed⟩ := hafter
      exact (hopen.not_closed hclosed).elim
    | true =>
      obtain ⟨hinv, -, hstate'⟩ := hafter
      obtain ⟨j, hj, htakes, hone⟩ := htakes rfl
      refine ⟨rfl, hinv, j, hj, htakes, ?_⟩
      rcases hstate' with ⟨hstate', -⟩ | hstate'
      · refine .inl ⟨hstate', hone.resolve_right fun h => ?_⟩
        cases hstate'.symm.trans h
      · exact .inr hstate'
  · rintro stop s' ⟨hwaiting, hnone⟩
    rw [hnone hwaiting.1] at hanswers
    exact Nat.lt_irrefl 0 hanswers

/-- `Initialize` moves nothing. -/
theorem wp_initializeData_moved (preserveBufferData : Bool) (s : ServerConnection ρ ω ε) :
    wp (initializeData preserveBufferData) (fun _ s' => Moved s s.incoming [] s')
      (fun stop _ => stop = .outOfBounds) s := by
  rw [initializeData, wp_bind]
  refine wp_store_any (fun message => ?_) rfl
  rw [wp_modify]
  exact ⟨rfl, (List.append_nil _).symm, rfl, rfl⟩

/-- `WriteResponse` sends the response if there are as many answers as it has bytes. -/
theorem wp_writeResponse_takes (haccepts : ∀ a ∈ s.socket.attempts, a.result = .accepted 0)
    (hheader : s.headerBytesWritten = 0) (hresult : s.resultBytesWritten = 0)
    (hattempts : (responseWire (some (s.header, s.response))).length ≤ s.socket.attempts.length) :
    wp writeResponse (fun _ s' => Takes m 0 0 s s') (fun stop _ => stop = .outOfBounds) s := by
  have hlength : (responseWire (some (s.header, s.response))).length =
      (headerWire (s.header.getBuffer 0) (s.header.length - s.headerBytesWritten)).length +
        s.response.bytes.length := by
    rw [responseWire, List.length_append, hheader, Nat.sub_zero]
  rw [writeResponse, wp_bind, wp_get, wp_bind]
  have hheaderLoop := Connection.writeHeader_wire (s.socket.attempts.length + 1) (c := s.sending)
    (Nat.lt_succ_self _) haccepts hresult
  refine wp_liftSending_of hheaderLoop ?_ ?_
  · rintro result c ⟨rfl, hzero, hsent⟩
    have hle : s.socket.attempts.length ≤ c.socket.attempts.length +
      (headerWire (s.header.getBuffer 0) (s.header.length - s.headerBytesWritten)).length :=
        hsent.attempts_le
    simp only
    rw [wp_bind, wp_get, wp_bind]
    have hbodyLoop := Connection.writeBody_wire (c.socket.attempts.length + 1)
      (c := ServerConnection.sending { s with
        socket := c.socket
        header := c.header
        headerBytesWritten := c.headerBytesWritten
        response := c.response
        resultBytesWritten := c.resultBytesWritten }) (Nat.lt_succ_self _) hsent.accepts
    refine wp_liftSending_of hbodyLoop ?_ ?_
    · rintro result c' ⟨rfl, hsent'⟩
      simp only
      rw [wp_bind, wp_modify, wp_bind, wp_get]
      refine wp_seq (wp_initializeData_moved _ _) fun _ s' hmoved => ?_
      rw [wp_pure]
      have hle' : c.socket.attempts.length ≤ c'.socket.attempts.length +
        (c.response.bytes.drop c.resultBytesWritten).length := hsent'.attempts_le
      have hcount : c.socket.sent.length = s.socket.sent.length +
          (headerWire (s.header.getBuffer 0) (s.header.length - s.headerBytesWritten)).length := by
        rw [hsent.sent, List.length_append]
        rfl
      have hcount' : c'.socket.sent.length = c.socket.sent.length +
          (c.response.bytes.drop c.resultBytesWritten).length := by
        rw [hsent'.sent, List.length_append]
        rfl
      have hsends : s.socket.attempts.length + s.socket.sent.length ≤
        c'.socket.attempts.length + c'.socket.sent.length := by omega
      have hnone : Takes m 0 0 _ s' := .of_moved hmoved
      exact ⟨hnone.attempts, hnone.supplied, hnone.executed, hsends.trans hnone.sends⟩
    · rintro e c' ⟨-, hfew⟩
      have hfew' : c.socket.attempts.length < (c.response.bytes.drop c.resultBytesWritten).length :=
        hfew
      have hresponse : c.response = s.response := hsent.response
      rw [hzero, List.drop_zero, hresponse] at hfew'
      omega
  · rintro e c ⟨-, hfew⟩
    have hfew' : s.socket.attempts.length <
      (headerWire (s.header.getBuffer 0) (s.header.length - s.headerBytesWritten)).length := hfew
    omega

/-- There are as many answers to `Send` as there are bytes of the responses still to be sent. -/
def Sends (T : Session ρ ω) (es : List (ε × Bytes)) (s : ServerConnection ρ ω ε) : Prop :=
  T.sent.length + (es.map Prod.snd).flatten.length ≤ s.socket.attempts.length + s.socket.sent.length

omit [Transport ρ] in
theorem Takes.sends_of (h : Takes m j k s s') (hs : Sends T es s) : Sends T es s' :=
  hs.trans h.sends

/-- `WriteResponse` sends the response. -/
theorem writeResponse_takes (hopen : T.Open S es) (hs : Inv S T s)
    (hstate : s.connectionState = .writeResponse) (hsends : Sends T es s) :
    wp writeResponse (fun success s' => success = true ∧ Inv S T s' ∧ Takes m 0 0 s s' ∧
        s'.connectionState = .readHeader)
      (fun _ _ => False) s := by
  have hfollows := writeResponse_follows s hs hstate
  cases hs with
  | header hstate' h => cases hstate.symm.trans hstate'
  | body hstate' h => cases hstate.symm.trans hstate'
  | request hstate' h hn => cases hstate.symm.trans hstate'
  | closed hstate' h => cases hstate.symm.trans hstate'
  | @response es' σ q n record _ h =>
  -- What is to be sent comes next among all the responses.
  have hreceived := prefix_stream h.environment h.receives_next
  rw [hopen.events_eq] at hreceived
  have hwire := (hreceived.map Prod.snd).flatten.length_le
  have hattempts : (responseWire (some (s.header, s.response))).length ≤
      s.socket.attempts.length := by
    have hsent := congrArg List.length h.sent
    unfold Sends at hsends
    simp only [List.map_append, List.map_cons, List.map_nil, List.flatten_append,
      List.flatten_singleton, List.length_append] at hwire hsent
    omega
  refine wp_mono (wp_and hfollows (wp_writeResponse_takes (m := m) h.environment.accepts
    h.headerBytesWritten h.resultBytesWritten hattempts)) ?_ ?_
  · rintro success s' ⟨hafter, htakes⟩
    cases success with
    | false =>
      obtain ⟨es, rest, hclosed⟩ := hafter
      exact (hopen.not_closed hclosed).elim
    | true =>
      obtain ⟨hinv, -, hstate'⟩ := hafter
      exact ⟨rfl, hinv, htakes, hstate'⟩
  · rintro stop s' ⟨hwaiting, rfl⟩
    cases hwaiting.1

/-! ## What a run takes -/

omit [Transport ρ] in
/-- A function that is called under a condition, and succeeds. -/
theorem wp_guarded_succeeds {condition : Bool} {f : ConnectionM ρ ω ε Bool}
    {P : ServerConnection ρ ω ε → Prop}
    (hcalled : condition = true → wp f (fun success s' => success = true ∧ P s') (fun _ _ => False) s)
    (hskipped : condition = false → P s) :
    wp (processState.guarded condition f) (fun success s' => success = true ∧ P s')
      (fun _ _ => False) s := by
  rw [processState.guarded, wp_ite]
  exact ⟨hcalled, fun h => ⟨rfl, hskipped (Bool.eq_false_of_not_eq_true h)⟩⟩

/-- A round of `Process` that executes what it reads takes an answer or executes a request. It takes two
answers at most, and another round follows only a request. -/
theorem processState_takes {readHeader executeRequest : ConnectionM ρ ω ε Bool}
    (hheader : HeaderSpec S readHeader) (hexecute : ExecuteSpec S executeRequest)
    (hopen : T.Open S es) (executeAfterRead : Bool) (hs : Inv S T s)
    (hstate : s.connectionState ≠ .writeResponse) (hsends : Sends T es s)
    (hanswers : 2 ≤ s.incoming.attempts.length) :
    wp (processState readHeader executeRequest executeAfterRead)
      (fun again s' => Inv S T s' ∧ s'.connectionState ≠ .writeResponse ∧
        ∃ j k, Takes m j k s s' ∧ j ≤ 2 ∧ (again = true → k = 1) ∧
          (executeAfterRead = true → 1 ≤ j + k))
      (fun _ _ => False) s := by
  unfold processState
  -- After the header is read.
  have hstage₁ : wp (processState.guarded (decide (s.connectionState = .readHeader)) readHeader)
      (fun success s₁ => success = true ∧ Inv S T s₁ ∧ s₁.connectionState ≠ .writeResponse ∧
        ∃ j ≤ 1, Takes m j 0 s s₁ ∧ (s₁.connectionState = .readHeader → j = 1))
      (fun _ _ => False) s := by
    refine wp_guarded_succeeds (fun h => ?_) fun h => ?_
    · refine wp_mono (readHeader_takes (m := m) hheader hopen hs (of_decide_eq_true h) (by omega)) ?_
        fun _ _ h => h
      rintro success s₁ ⟨hsuccess, hs₁, htakes, hstate₁⟩
      refine ⟨hsuccess, hs₁, ?_, 1, le_rfl, htakes, fun _ => rfl⟩
      rcases hstate₁ with hstate₁ | hstate₁
      · rw [hstate₁]
        decide
      · rw [hstate₁]
        decide
    · exact ⟨hs, hstate, 0, Nat.zero_le 1, .refl s, fun h' => absurd h' (of_decide_eq_false h)⟩
  rw [wp_bind, processState.inState, wp_bind, wp_get]
  refine wp_mono hstage₁ ?_ fun _ _ h => h
  rintro _ s₁ ⟨rfl, hs₁, hstate₁, j₁, hj₁, htakes₁, hone⟩
  simp only [Bool.not_true, Bool.false_eq_true, if_false]
  -- After the body is read.
  have hstage₂ : wp (processState.guarded (decide (s₁.connectionState = .readRequest)) readRequest)
      (fun success s₂ => success = true ∧ Inv S T s₂ ∧ s₂.connectionState ≠ .writeResponse ∧
        ∃ j ≤ 2, Takes m j 0 s s₂ ∧ (s₂.connectionState ≠ .executeRequest → 1 ≤ j))
      (fun _ _ => False) s₁ := by
    refine wp_guarded_succeeds (fun h => ?_) fun h => ?_
    · have hanswers₁ : 0 < s₁.incoming.attempts.length := by
        have := htakes₁.attempts
        omega
      refine wp_mono (readRequest_takes (m := m) hopen hs₁ (of_decide_eq_true h) hanswers₁) ?_
        fun _ _ h => h
      rintro success s₂ ⟨hsuccess, hs₂, j, hj, htakes, hstate₂⟩
      refine ⟨hsuccess, hs₂, ?_, j₁ + j, by omega, htakes₁.trans htakes, fun hnot => ?_⟩
      · rcases hstate₂ with ⟨hstate₂, -⟩ | hstate₂
        · rw [hstate₂]
          decide
        · rw [hstate₂]
          decide
      · rcases hstate₂ with ⟨-, rfl⟩ | hstate₂
        · exact Nat.le_add_left 1 j₁
        · exact absurd hstate₂ hnot
    · refine ⟨hs₁, hstate₁, j₁, by omega, htakes₁, fun hnot => ?_⟩
      cases hs₁ with
      | header hstate' _ => exact (hone hstate').ge
      | body hstate' _ => exact absurd hstate' (of_decide_eq_false h)
      | request hstate' _ _ => exact absurd hstate' hnot
      | response hstate' _ => exact absurd hstate' hstate₁
      | closed _ hclosed => exact (hopen.not_closed hclosed).elim
  rw [wp_bind, processState.inState, wp_bind, wp_get]
  refine wp_mono hstage₂ ?_ fun _ _ h => h
  rintro _ s₂ ⟨rfl, hs₂, hstate₂, j₂, hj₂, htakes₂, hsome⟩
  simp only [Bool.not_true, Bool.false_eq_true, if_false]
  rw [wp_bind, wp_get]
  generalize hexecuting : (executeAfterRead && decide (s₂.connectionState = .executeRequest)) =
    executing
  -- After the request is executed.
  have hstage₃ : wp (processState.guarded executing executeRequest)
      (fun success s₃ => success = true ∧ (executing = true ∧ Inv S T s₃ ∧ Takes m j₂ 1 s s₃ ∧
          (s₃.connectionState = .readHeader ∨ s₃.connectionState = .writeResponse) ∨
        executing = false ∧ s₃ = s₂))
      (fun _ _ => False) s₂ := by
    refine wp_guarded_succeeds (fun h => ?_) fun h => .inr ⟨h, rfl⟩
    rw [h, Bool.and_eq_true, decide_eq_true_eq] at hexecuting
    refine wp_mono (executeRequest_takes (m := m) hexecute hopen hs₂ hexecuting.2) ?_ fun _ _ h => h
    rintro success s₃ ⟨hsuccess, hs₃, htakes, hstate₃⟩
    exact ⟨hsuccess, .inl ⟨h, hs₃, htakes₂.trans htakes, hstate₃⟩⟩
  rw [wp_bind]
  refine wp_mono hstage₃ ?_ fun _ _ h => h
  rintro _ s₃ ⟨rfl, h₃⟩
  simp only [Bool.not_true, Bool.false_eq_true, if_false]
  rw [wp_bind, wp_get]
  -- After the response is written.
  have hstage₄ : wp (processState.guarded (decide (s₃.connectionState = .writeResponse)) writeResponse)
      (fun success s₄ => success = true ∧ (executing = true ∧ Inv S T s₄ ∧ Takes m j₂ 1 s s₄ ∧
          s₄.connectionState = .readHeader ∨
        (executing || decide (s₃.connectionState = .writeResponse)) = false ∧ s₄ = s₂))
      (fun _ _ => False) s₃ := by
    refine wp_guarded_succeeds (fun h => ?_) fun h => ?_
    · rcases h₃ with ⟨hexecuting', hs₃, htakes₃, -⟩ | ⟨-, rfl⟩
      · refine wp_mono (writeResponse_takes (m := m) hopen hs₃ (of_decide_eq_true h)
          (htakes₃.sends_of hsends)) ?_ fun _ _ h => h
        rintro success s₄ ⟨hsuccess, hs₄, htakes, hstate₄⟩
        exact ⟨hsuccess, .inl ⟨hexecuting', hs₄, htakes₃.trans htakes, hstate₄⟩⟩
      · exact absurd (of_decide_eq_true h) hstate₂
    · rcases h₃ with ⟨hexecuting', hs₃, htakes₃, hstate₃⟩ | ⟨hexecuting', rfl⟩
      · exact .inl ⟨hexecuting', hs₃, htakes₃, hstate₃.resolve_right (of_decide_eq_false h)⟩
      · exact .inr ⟨by rw [hexecuting', h]; rfl, rfl⟩
  rw [wp_bind, processState.inState, wp_bind, wp_get]
  refine wp_mono hstage₄ ?_ fun _ _ h => h
  rintro _ s₄ ⟨rfl, h₄⟩
  simp only [Bool.not_true, Bool.false_eq_true, if_false]
  rw [wp_ite]
  rcases h₄ with ⟨hexecuting', hs₄, htakes₄, hstate₄⟩ | ⟨hnot, rfl⟩
  · refine ⟨fun _ => ?_, fun hnot => absurd (by rw [hexecuting', Bool.true_or]) hnot⟩
    rw [processState.moreData, wp_bind, wp_get, wp_pure]
    refine ⟨hs₄, ?_, j₂, 1, htakes₄, hj₂, fun _ => rfl, fun _ => Nat.le_add_left 1 j₂⟩
    rw [hstate₄]
    decide
  · refine ⟨fun h => absurd (hnot.symm.trans h) Bool.false_ne_true, fun _ => ?_⟩
    rw [wp_pure]
    refine ⟨hs₂, hstate₂, j₂, 0, htakes₂, hj₂, fun h => absurd h Bool.false_ne_true,
      fun hexecutes => ?_⟩
    rw [Bool.or_eq_false_iff] at hnot
    rw [hexecutes, hnot.1, Bool.true_and] at hexecuting
    exact hsome (of_decide_eq_false hexecuting)

/-- No more requests are executed than there are. -/
theorem Inv.executed_le (hopen : T.Open S es) (hs : Inv S T s) : s.executed.length ≤ es.length := by
  have hle := hs.executed_prefix.length_le
  rwa [hopen.events_eq, List.length_map] at hle

/-- Between two calls of `Process`, and between two rounds of one, no response is to be written, and
all that are still to be written can be sent. -/
structure Between (S : Service ρ ω ε) (T : Session ρ ω) (es : List (ε × Bytes))
    (s : ServerConnection ρ ω ε) : Prop where
  inv : Inv S T s
  state : s.connectionState ≠ .writeResponse
  sends : Sends T es s

/-- The loop of `Process` ends, and takes two answers at most for each round: for each request, and for
one round more. -/
theorem processLoop_takes {readHeader executeRequest : ConnectionM ρ ω ε Bool}
    (hheader : HeaderSpec S readHeader) (hexecute : ExecuteSpec S executeRequest)
    (hopen : T.Open S es) (executeAfterRead : Bool) (fuel : ℕ) (hs : Between S T es s)
    (hfuel : es.length < fuel + s.executed.length)
    (hanswers : 2 * (es.length + 1) ≤ s.incoming.attempts.length + 2 * s.executed.length) :
    wp (processLoop readHeader executeRequest executeAfterRead fuel)
      (fun _ s' => Between S T es s' ∧ ∃ j k, Takes m j k s s' ∧ j ≤ 2 * (k + 1) ∧
        (executeAfterRead = true → 1 ≤ j + k))
      (fun _ _ => False) s := by
  induction fuel generalizing s with
  | zero =>
    have := hs.inv.executed_le hopen
    omega
  | succ fuel ih =>
    have hle := hs.inv.executed_le hopen
    rw [processLoop]
    refine wp_seq (processState_takes (m := m) hheader hexecute hopen executeAfterRead hs.inv hs.state
      hs.sends (by omega)) ?_
    rintro again s' ⟨hs', hstate', j, k, htakes, hj, hagain, hprogress⟩
    have hbetween : Between S T es s' := ⟨hs', hstate', htakes.sends_of hs.sends⟩
    cases again with
    | true =>
      cases hagain rfl
      have hattempts := htakes.attempts
      have hexecuted := htakes.executed
      refine wp_mono (ih hbetween (by omega) (by omega)) ?_ fun _ _ h => h
      rintro _ s'' ⟨hs'', j', k', htakes', hj', -⟩
      exact ⟨hs'', j + j', 1 + k', htakes.trans htakes', by omega, fun _ => by omega⟩
    | false => exact ⟨hbetween, j, k, htakes, by omega, hprogress⟩

/-- A call of `Process` returns, and takes an answer or executes a request if it may. -/
theorem process_takes {readHeader executeRequest : ConnectionM ρ ω ε Bool}
    (hheader : HeaderSpec S readHeader) (hexecute : ExecuteSpec S executeRequest)
    (hopen : T.Open S es) (executeAfterRead : Bool) (hs : Between S T es s)
    (hanswers : 2 * (es.length + 1) ≤ s.incoming.attempts.length + 2 * s.executed.length) :
    wp (process readHeader executeRequest executeAfterRead)
      (fun _ s' => Between S T es s' ∧ ∃ j k, Takes m j k s s' ∧ j ≤ 2 * (k + 1) ∧
        (executeAfterRead = true → 1 ≤ j + k))
      (fun _ _ => False) s := by
  rw [process, wp_bind, wp_get]
  have := hs.inv.executed_le hopen
  exact processLoop_takes hheader hexecute hopen executeAfterRead _ hs (by omega) hanswers

/-- With two answers for each call and for each request, every sequence of calls returns, and each call
that may execute takes an answer or executes a request. -/
theorem serve_takes {readHeader executeRequest : ConnectionM ρ ω ε Bool}
    (hheader : HeaderSpec S readHeader) (hexecute : ExecuteSpec S executeRequest)
    (hopen : T.Open S es) (calls : List Bool) (hs : Between S T es s)
    (hanswers : 2 * (es.length + calls.length) ≤
      s.incoming.attempts.length + 2 * s.executed.length) :
    wp (serve (process readHeader executeRequest) calls)
      (fun _ s' => Between S T es s' ∧ ∃ j k, Takes m j k s s' ∧ calls.count true ≤ j + k)
      (fun _ _ => False) s := by
  induction calls generalizing s with
  | nil => exact ⟨hs, 0, 0, .refl s, le_rfl⟩
  | cons executeAfterRead calls ih =>
    rw [List.length_cons] at hanswers
    rw [serve]
    refine wp_seq (process_takes (m := m) hheader hexecute hopen executeAfterRead hs (by omega)) ?_
    rintro _ s' ⟨hs', j, k, htakes, hj, hprogress⟩
    have hattempts := htakes.attempts
    have hexecuted := htakes.executed
    refine wp_mono (ih hs' (by omega)) ?_ fun _ _ h => h
    rintro _ s'' ⟨hs'', j', k', htakes', hcount⟩
    refine ⟨hs'', j + j', k + k', htakes.trans htakes', ?_⟩
    cases executeAfterRead with
    | true =>
      have := hprogress rfl
      rw [List.count_cons_self]
      omega
    | false =>
      rw [List.count_cons_of_ne (by decide)]
      omega

end

/-! ## Deliveries that last -/

/-- A delivery is long enough for a stream of so many requests that are answered with so many bytes: its
first answers hand over all of the stream, there is a call for each of them and for each request, and
there are answers for all of the calls and for everything that is sent. An answer that is not empty hands
over a byte at least, until there are none; so as many of them are enough as the stream has bytes,
however it is cut. -/
structure Delivery.Lasts (d : Delivery) (stream : Bytes) (requests responses pieces : ℕ) : Prop where
  pieces_le : pieces ≤ d.attempts.length
  supplied : stream.length ≤ (d.attempts.take pieces).countP fun a => 0 < a.result.amount
  calls_le : pieces + requests ≤ d.calls.count true + 1
  attempts_le : 2 * (requests + d.calls.length + 1) ≤ d.attempts.length
  sends_le : responses ≤ d.sends.length

/-- A delivery that lasts leaves nothing to be received, executed or sent. -/
theorem Delivery.serve_completes {S : Service ρ ω ε} {readHeader executeRequest : ConnectionM ρ ω ε Bool}
    (hheader : HeaderSpec S readHeader) (hexecute : ExecuteSpec S executeRequest) {derived : ρ}
    (hseen : S.Seen derived derived []) {stream : Bytes} {world : ω} {es : List (ε × Bytes)}
    (d : Delivery) (hopen : (d.session stream derived world).Open S es) {pieces : ℕ}
    (hlasts : d.Lasts stream es.length (es.map Prod.snd).flatten.length pieces) :
    wp (serve (process readHeader executeRequest) (d.calls ++ [true]))
      (fun _ s => s.incoming.unread = [] ∧ s.executed = es.map Prod.fst ∧
        s.socket.sent = (es.map Prod.snd).flatten)
      (fun _ _ => False) (d.accepted stream derived world) := by
  have hinv : Inv S (d.session stream derived world) (d.accepted stream derived world) :=
    inv_accepted d.length_buffer d.heap d.accepts ⟨stream, d.attempts⟩ hseen world
  have hbetween : Between S (d.session stream derived world) es (d.accepted stream derived world) := by
    refine ⟨hinv, ?_, ?_⟩
    · show ConnectionState.readHeader ≠ .writeResponse
      decide
    · show 0 + _ ≤ d.sends.length + 0
      have := hlasts.sends_le
      omega
  have hattempts := hlasts.attempts_le
  have hcalls : (d.calls ++ [true]).length = d.calls.length + 1 := by simp
  have hanswers : 2 * (es.length + (d.calls ++ [true]).length) ≤
      d.attempts.length + 2 * ([] : List ε).length := by
    rw [hcalls, List.length_nil]
    omega
  have htakes := serve_takes (m := d.attempts.length - pieces) hheader hexecute hopen
    (d.calls ++ [true]) hbetween hanswers
  refine wp_mono (wp_and (d.serve_follows hheader hexecute hseen stream world) htakes) ?_
    fun _ _ h => h.2
  rintro _ s ⟨⟨es', rest, hquiet⟩, hs, j, k, htakes, hcount⟩
  have hunread : s.incoming.unread = [] := by
    have hsupplied : (⟨stream, d.attempts⟩ : Incoming).Supplied (d.attempts.length - pieces) := by
      unfold Incoming.Supplied
      rw [Nat.sub_sub_self hlasts.pieces_le]
      exact hlasts.supplied
    refine (htakes.supplied hsupplied).unread_eq_nil ?_
    have hused : d.attempts.length = s.incoming.attempts.length + j := htakes.attempts
    have hexecuted : s.executed.length = 0 + k := htakes.executed
    have hle := hs.inv.executed_le hopen
    have hpieces := hlasts.calls_le
    rw [List.count_append, List.count_singleton_self] at hcount
    omega
  obtain ⟨rest', hreceives, hsettled, -⟩ := hquiet.finished (d.not_ends _ _ _) (.inl hunread)
  have hall : es' = es := (hreceives.eq_events hsettled).trans hopen.events_eq
  subst hall
  exact ⟨hunread, hquiet.log.executed, hquiet.log.sent⟩

end AnyRpc
