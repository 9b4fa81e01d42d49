import AnyRpc.Connection.Http
import AnyRpc.Connection.Tcp

/-! # When a connection may be closed

`ForcedDisconnectAllowed` looks at the length of the buffer only. This says whether a request is in
progress because of what every function of a connection leaves in the buffer: the header of a request
stays there until the response to it is written. -/

namespace AnyRpc

open Library ServerConnection

variable {ρ ω ε : Type}

/-- What is known in each state of a connection of the members of the derived class, the requests
that were executed and `bufferLength_`. -/
structure Phases (ρ ε : Type) [Transport ρ] where
  At : ConnectionState → ρ → List ε → ℕ → Prop
  read {d : ρ} {es : List ε} {n : ℕ} (h : At .readRequest d es n) : At .executeRequest d es n
  written {d : ρ} {es : List ε} {n : ℕ} (h : At .writeResponse d es n) (n' : ℕ) :
    At .readHeader (Transport.initializeData d) es n'
  closed (d : ρ) (es : List ε) (n : ℕ) : At .closeConnection d es n

/-- The connection is in one of its states as it is known. -/
def Phases.Holds [Transport ρ] (P : Phases ρ ε) (s : ServerConnection ρ ω ε) : Prop :=
  P.At s.connectionState s.derived s.executed s.message.bufferLength

namespace ServerConnection

variable {s : ServerConnection ρ ω ε}

/-- A function that is called in one state keeps what is known, as far as it does not fail. -/
abbrev Keeps [Transport ρ] (P : Phases ρ ε) (state : ConnectionState)
    (f : ConnectionM ρ ω ε Bool) : Prop :=
  KeptIn P.Holds (fun _ => True) (fun _ _ => True) state f

/-! ## Parts -/

/-- A store that lies inside its block. -/
theorem wp_store_of {f : MessageBuffer → Option MessageBuffer}
    {Q : Unit → ServerConnection ρ ω ε → Prop}
    (h : ∀ m, f s.message = some m → Q () { s with message := m }) :
    wp (store f) Q (fun _ _ => True) s := by
  unfold wp store
  cases hm : f s.message with
  | none => trivial
  | some m => exact h m hm

/-- What `Receive` returns is stored by a store that leaves the shape of the buffer. -/
theorem wp_receive_of {storeAt : Bytes → MessageBuffer → Option MessageBuffer} {maxLength : ℕ}
    {Q : Received → ServerConnection ρ ω ε → Prop}
    (hshape : ∀ l m m', storeAt l m = some m' → m.SameShape m')
    (h : ∀ r incoming m, s.message.SameShape m → Q r { s with
      incoming
      message := m
      received := if r.success then s.received ++ [r.data] else s.received }) :
    wp (receive storeAt maxLength) Q (fun _ _ => True) s := by
  rw [receive, wp_bind, wp_get]
  cases hreceive : s.incoming.receive maxLength 0 with
  | none => trivial
  | some result =>
    obtain ⟨r, incoming⟩ := result
    simp only [wp_bind, wp_modify]
    refine wp_store_of fun m hm => ?_
    rw [wp_pure]
    refine h r incoming m ?_
    by_cases hempty : r.data = []
    · rw [if_pos hempty] at hm
      cases hm
      exact .refl _
    · rw [if_neg hempty] at hm
      exact hshape _ _ _ hm

section

variable [Transport ρ] {P : Phases ρ ε}

/-- `Initialize` resets the members of the derived class. -/
theorem wp_initializeData_of (preserveBufferData : Bool) {Q : Unit → ServerConnection ρ ω ε → Prop}
    (h : ∀ s' : ServerConnection ρ ω ε, s'.connectionState = s.connectionState →
      s'.executed = s.executed → s'.derived = Transport.initializeData s.derived → Q () s') :
    wp (initializeData preserveBufferData) Q (fun _ _ => True) s := by
  rw [initializeData, wp_bind]
  refine wp_store_of fun m _ => ?_
  rw [wp_modify]
  exact h _ rfl rfl rfl

/-- A function that gives up fails. -/
theorem wp_giveUp_of {I : ServerConnection ρ ω ε → Prop} :
    wp giveUp (fun success s' => if success then I s' else True) (fun _ _ => True) s := by
  rw [giveUp, wp_bind]
  refine wp_initializeData_of false fun s' _ _ _ => ?_
  rw [wp_pure]
  trivial

/-- `ReadRequest` leaves the header in the buffer. -/
theorem readRequest_keeps : Keeps (ω := ω) P .readRequest readRequest := by
  intro s hs hstate
  have hs' : P.At .readRequest s.derived s.executed s.message.bufferLength := by
    rw [← hstate]
    exact hs
  -- The request is complete.
  have hfinish (s' : ServerConnection ρ ω ε) (hderived : s'.derived = s.derived)
      (hexecuted : s'.executed = s.executed)
      (hlength : s'.message.bufferLength = s.message.bufferLength) :
      wp readRequest.finish (fun success s => if success then P.Holds s else True)
        (fun _ _ => True) s' := by
    rw [readRequest.finish, wp_bind, wp_get, wp_bind]
    refine wp_store_of fun m hm => ?_
    rw [wp_bind, wp_modify, wp_pure]
    show P.At .executeRequest s'.derived s'.executed m.bufferLength
    rw [(MessageBuffer.sameShape_of_storeContent hm).bufferLength, hderived, hexecuted, hlength]
    exact P.read hs'
  rw [readRequest, wp_bind, wp_get, wp_ite]
  refine ⟨fun _ => ?_, fun _ => hfinish s rfl rfl rfl⟩
  rw [wp_bind]
  refine wp_receive_of (fun _ _ _ => MessageBuffer.sameShape_of_storeContent)
    fun r incoming m hshape => ?_
  rw [wp_ite]
  refine ⟨fun _ => wp_giveUp_of, fun _ => ?_⟩
  rw [wp_bind, wp_modify, wp_ite]
  refine ⟨fun _ => ?_, fun _ => hfinish _ rfl rfl hshape.bufferLength⟩
  rw [wp_ite]
  refine ⟨fun _ => wp_giveUp_of, fun _ => ?_⟩
  rw [wp_pure]
  show P.At s.connectionState s.derived s.executed m.bufferLength
  rw [hshape.bufferLength]
  exact hs

/-- `WriteResponse` leaves the header in the buffer until it is done. -/
theorem writeResponse_keeps : Keeps (ω := ω) P .writeResponse writeResponse := by
  intro s hs hstate
  have hs' : P.At .writeResponse s.derived s.executed s.message.bufferLength := by
    rw [← hstate]
    exact hs
  -- What happens after a loop that returns from the function.
  have hreturn {s' : ServerConnection ρ ω ε} (hs' : P.Holds s') (result : Bool) :
      wp (if result then pure true else giveUp)
        (fun success s => if success then P.Holds s else True) (fun _ _ => True) s' := by
    rw [wp_ite]
    exact ⟨fun _ => hs', fun _ => wp_giveUp_of⟩
  rw [writeResponse, wp_bind, wp_get, wp_bind]
  refine wp_liftSending_of wp_true (fun result c _ => ?_) fun _ _ _ => trivial
  cases result with
  | some result =>
    refine hreturn ?_ result
    exact hs
  | none =>
    simp only
    rw [wp_bind, wp_get, wp_bind]
    refine wp_liftSending_of wp_true (fun result c' _ => ?_) fun _ _ _ => trivial
    cases result with
    | some result =>
      refine hreturn ?_ result
      exact hs
    | none =>
      simp only
      rw [wp_bind, wp_modify, wp_bind, wp_get, wp_bind]
      refine wp_initializeData_of _ fun s' hstate' hexecuted hderived => ?_
      rw [wp_pure]
      split
      · show P.At s'.connectionState s'.derived s'.executed s'.message.bufferLength
        rw [hstate', hexecuted, hderived]
        exact P.written hs' _
      · trivial

/-- What is known of a connection holds after every call of `Process`. -/
theorem process_keeps {readHeader executeRequest : ConnectionM ρ ω ε Bool}
    (hheader : Keeps P .readHeader readHeader)
    (hexecute : Keeps P .executeRequest executeRequest) (executeAfterRead : Bool)
    (hs : P.Holds s) :
    wp (process readHeader executeRequest executeAfterRead) (fun _ => P.Holds) (fun _ _ => True)
      s := by
  rw [process, wp_bind, wp_get]
  refine wp_processLoop (fun s hs => ?_) (fun _ _ => trivial) _ hs
  exact wp_processState hheader readRequest_keeps hexecute writeResponse_keeps
    (fun s _ => P.closed s.derived s.executed s.message.bufferLength) executeAfterRead hs

end

end ServerConnection

/-- A place for the body leaves the length of what is in the buffer. -/
theorem MessageBuffer.bufferLength_place {m m' : MessageBuffer} {memory : ℕ → UInt8} {bodyStart : ℕ}
    (h : m.place memory bodyStart = some m') : m'.bufferLength = m.bufferLength := by
  unfold place at h
  split at h
  · exact (sameShape_of_storeContent h).bufferLength
  · cases h
    rfl

/-! ## Connections over TCP -/

namespace TcpConnection

variable [IntOverflow]

/-- `TcpConnection::ForcedDisconnectAllowed`. -/
def forcedDisconnectAllowed (s : ServerConnection TcpFields ω Bytes) : Bool :=
  if s.derived.commaExpected then s.message.bufferLength ≤ 1 else s.message.bufferLength = 0

/-- A comma is expected as soon as a header was found, and a header has two bytes at least. -/
def phases : Phases TcpFields Bytes where
  At
    | .readHeader, d, es, _ => d.commaExpected = true ↔ es ≠ []
    | .readRequest, d, _, n => d.commaExpected = true ∧ 2 ≤ n
    | .executeRequest, d, _, n => d.commaExpected = true ∧ 2 ≤ n
    | .writeResponse, d, es, n => d.commaExpected = true ∧ es ≠ [] ∧ 2 ≤ n
    | .closeConnection, _, _, _ => True
  read h := h
  written h _ := ⟨fun _ => h.2.1, fun _ => h.1⟩
  closed _ _ _ := trivial

/-- There is a digit in front of the colon of a header that is accepted. -/
theorem pos_of_header {d : TcpFields} {header : Bytes} {n : ℕ} (hfind : findChar header 0x3a = some n)
    (hcomma : ¬ (d.commaExpected && header.head? != some 0x2c) = true)
    (hlength : ¬ atoi (if d.commaExpected then header.drop 1 else header) ≤ 0) : 0 < n := by
  rw [Nat.pos_iff_ne_zero]
  rintro rfl
  obtain ⟨hlt, hget, -⟩ := List.findIdx?_eq_some_iff_getElem.mp hfind
  rw [decide_eq_true_eq] at hget
  cases header with
  | nil => cases hlt
  | cons c rest =>
    obtain rfl : c = 0x3a := hget
    cases hd : d.commaExpected with
    | true =>
      rw [hd] at hcomma
      exact hcomma rfl
    | false =>
      rw [hd] at hlength
      have hnumber : leadingNumber (0x3a :: rest) = 0 := rfl
      have hzero : atoi (0x3a :: rest) = 0 := by
        rw [atoi, hnumber]
        rfl
      exact hlength hzero.le

/-- `ReadHeader` finds a header of two bytes at least. -/
theorem readHeader_keeps : Keeps (ω := ω) phases .readHeader readHeader := by
  intro s hs hstate
  have hs' : s.derived.commaExpected = true ↔ s.executed ≠ [] := by
    rw [Phases.Holds, hstate] at hs
    exact hs
  rw [readHeader, wp_bind, wp_get]
  simp only
  rw [wp_bind]
  refine wp_receive_of (fun _ _ _ => MessageBuffer.sameShape_of_storeBuffer)
    fun r incoming m hshape => ?_
  rw [wp_ite]
  refine ⟨fun _ => wp_giveUp_of, fun _ => ?_⟩
  rw [wp_bind, wp_modify, wp_bind, wp_get]
  simp only [MessageBuffer.data]
  cases hfind : findChar (m.buffer.take (s.message.bufferLength + r.data.length)) 0x3a with
  | none =>
    simp only
    rw [wp_ite]
    refine ⟨fun _ => wp_giveUp_of, fun _ => ?_⟩
    rw [wp_pure]
    show phases.At s.connectionState s.derived s.executed _
    rw [hstate]
    exact hs'
  | some n =>
    have hlt := (findChar_eq_some hfind).1
    have hle : (m.buffer.take (s.message.bufferLength + r.data.length)).length ≤
        s.message.bufferLength + r.data.length := List.length_take_le _ _
    simp only
    refine (wp_ite _ _ _).mpr ⟨fun _ => wp_giveUp_of, fun hcomma => ?_⟩
    refine (wp_ite _ _ _).mpr ⟨fun _ => wp_giveUp_of, fun hlength => ?_⟩
    have hpos := pos_of_header hfind hcomma hlength
    rw [wp_bind, wp_modify]
    refine (wp_ite _ _ _).mpr ⟨fun _ => wp_giveUp_of, fun _ => ?_⟩
    rw [wp_bind]
    refine wp_store_of fun m' hm' => ?_
    rw [wp_bind]
    refine wp_store_of fun m'' hm'' => ?_
    rw [wp_bind, wp_modify, wp_pure]
    refine ⟨rfl, ?_⟩
    show 2 ≤ m''.bufferLength
    rw [(MessageBuffer.sameShape_of_storeContent hm'').bufferLength,
      MessageBuffer.bufferLength_place hm']
    show 2 ≤ s.message.bufferLength + r.data.length
    omega

omit [IntOverflow] in
/-- `ExecuteRequest` leaves the header in the buffer, unless there is nothing to be answered. -/
theorem executeRequest_keeps (handler : RpcHandler ω) :
    Keeps phases .executeRequest (executeRequest handler) := by
  intro s hs hstate
  have hs' : s.derived.commaExpected = true ∧ 2 ≤ s.message.bufferLength := by
    rw [Phases.Holds, hstate] at hs
    exact hs
  rw [executeRequest, wp_bind, wp_get]
  simp only
  rw [wp_bind]
  refine wp_store_of fun m hm => ?_
  rw [wp_bind, wp_modify, wp_ite]
  constructor
  · intro _
    rw [wp_bind, wp_modify, wp_pure]
    refine ⟨hs'.1, List.append_ne_nil_of_right_ne_nil _ (List.cons_ne_nil _ _), ?_⟩
    show 2 ≤ m.bufferLength
    rw [(MessageBuffer.sameShape_of_storeContent hm).bufferLength]
    exact hs'.2
  · intro _
    rw [wp_bind, wp_modify, wp_bind]
    refine wp_initializeData_of true fun s' hstate' hexecuted hderived => ?_
    rw [wp_pure]
    show phases.At s'.connectionState s'.derived s'.executed s'.message.bufferLength
    rw [hstate', hexecuted, hderived]
    exact ⟨fun _ => List.append_ne_nil_of_right_ne_nil _ (List.cons_ne_nil _ _), fun _ => hs'.1⟩

/-- No request of a connection is in progress: it waits for a header, and nothing of it has arrived but
for one byte, which is in the place of the comma behind the message before. -/
def NotInProgress (s : ServerConnection TcpFields ω Bytes) : Prop :=
  s.connectionState = .readHeader ∧
    (s.message.bufferLength = 0 ∨ s.executed ≠ [] ∧ s.message.bufferLength = 1)

omit [IntOverflow] in
/-- A connection that is open may be closed exactly if no request of it is in progress. -/
theorem forcedDisconnectAllowed_iff {s : ServerConnection TcpFields ω Bytes} (hs : phases.Holds s)
    (hopen : s.connectionState ≠ .closeConnection) :
    forcedDisconnectAllowed s = true ↔ NotInProgress s := by
  rw [Phases.Holds] at hs
  rw [forcedDisconnectAllowed, NotInProgress]
  cases hstate : s.connectionState with
  | readHeader =>
    rw [hstate] at hs
    have hcomma : s.derived.commaExpected = true ↔ s.executed ≠ [] := hs
    cases hexpected : s.derived.commaExpected with
    | true =>
      have hexecuted := hcomma.mp hexpected
      simp only [if_true, decide_eq_true_eq, true_and]
      constructor
      · intro h
        rcases Nat.le_one_iff_eq_zero_or_eq_one.mp h with h | h
        · exact .inl h
        · exact .inr ⟨hexecuted, h⟩
      · rintro (h | ⟨-, h⟩)
        · exact h.trans_le (Nat.zero_le 1)
        · exact h.le
    | false =>
      have hexecuted : ¬ s.executed ≠ [] := fun h => by
        rw [hcomma.mpr h] at hexpected
        cases hexpected
      simp only [Bool.false_eq_true, if_false, decide_eq_true_eq, true_and]
      exact ⟨.inl, fun h => h.resolve_right fun h => hexecuted h.1⟩
  | readRequest | executeRequest =>
    rw [hstate] at hs
    obtain ⟨hcomma, hlength⟩ : s.derived.commaExpected = true ∧ 2 ≤ s.message.bufferLength := hs
    rw [hcomma, if_pos rfl, decide_eq_true_eq]
    exact ⟨fun h => absurd h (by omega), fun h => by cases h.1⟩
  | writeResponse =>
    rw [hstate] at hs
    obtain ⟨hcomma, -, hlength⟩ : s.derived.commaExpected = true ∧ s.executed ≠ [] ∧
      2 ≤ s.message.bufferLength := hs
    rw [hcomma, if_pos rfl, decide_eq_true_eq]
    exact ⟨fun h => absurd h (by omega), fun h => by cases h.1⟩
  | closeConnection => exact absurd hstate hopen

end TcpConnection

/-! ## Connections over HTTP -/

namespace HttpConnection

variable [IntOverflow]

/-- `Connection::ForcedDisconnectAllowed`. -/
def forcedDisconnectAllowed (s : ServerConnection (HttpFields ω) ω HttpExecuted) : Bool :=
  s.message.bufferLength = 0

/-- A header that is complete is in the buffer. -/
def phases : Phases (HttpFields ω) HttpExecuted where
  At
    | .readHeader, d, _, _ => d.httpRequestState.headerResult = .incomplete
    | .closeConnection, _, _, _ => True
    | _, _, _, n => 0 < n
  read h := h
  written _ _ := rfl
  closed _ _ _ := trivial

/-- `ReadHeader` finds a header that is not empty. -/
theorem readHeader_keeps : Keeps (ω := ω) phases .readHeader readHeader := by
  intro s hs hstate
  have hs' : s.derived.httpRequestState.headerResult = .incomplete := by
    rw [Phases.Holds, hstate] at hs
    exact hs
  rw [readHeader, wp_bind, wp_get]
  simp only
  rw [wp_bind]
  refine wp_receive_of (fun _ _ _ => MessageBuffer.sameShape_of_storeBuffer)
    fun r incoming m hshape => ?_
  rw [wp_ite]
  refine ⟨fun _ => wp_giveUp_of, fun _ => ?_⟩
  rw [wp_bind, wp_modify, wp_bind, wp_get]
  simp only [MessageBuffer.data]
  have hle : (m.buffer.take (s.message.bufferLength + r.data.length)).length ≤
      s.message.bufferLength + r.data.length := List.length_take_le _ _
  rw [wp_bind, wp_modify]
  cases hresult : (s.derived.httpRequestState.processHeaderData
      (m.buffer.take (s.message.bufferLength + r.data.length)) r.eof).headerResult with
  | fault => exact wp_giveUp_of
  | incomplete =>
    simp only
    rw [wp_pure]
    show phases.At s.connectionState _ _ _
    rw [hstate]
    exact hresult
  | complete =>
    have hpos := HttpHeader.startIndex_pos_of_incomplete hs' hresult
    have hstart := HttpHeader.startIndex_le hresult
    simp only
    rw [wp_bind, wp_modify]
    refine (wp_ite _ _ _).mpr ⟨fun _ => wp_giveUp_of, fun _ => ?_⟩
    rw [wp_bind]
    refine wp_store_of fun m' hm' => ?_
    rw [wp_bind, wp_modify, wp_pure]
    show 0 < m'.bufferLength
    rw [MessageBuffer.bufferLength_place hm']
    show 0 < s.message.bufferLength + r.data.length
    omega

/-- `ExecuteRequest` leaves the header in the buffer. -/
theorem executeRequest_keeps : Keeps (ω := ω) phases .executeRequest executeRequest := by
  intro s hs hstate
  have hs' : 0 < s.message.bufferLength := by
    rw [Phases.Holds, hstate] at hs
    exact hs
  -- The response is to be written next.
  have hfinish {s' : ServerConnection (HttpFields ω) ω HttpExecuted}
      (hlength : s'.message.bufferLength = s.message.bufferLength) (request : HttpExecuted) :
      wp (executeRequest.finish request) (fun success s => if success then phases.Holds s else True)
        (fun _ _ => True) s' := by
    rw [executeRequest.finish, wp_bind, wp_modify, wp_pure]
    show 0 < s'.message.bufferLength
    omega
  rw [executeRequest, wp_bind, wp_get]
  simp only
  rw [wp_ite]
  refine ⟨fun _ => ?_, fun _ => ?_⟩
  · cases selectHandler s.derived.httpRequestState.contentType s.derived.handlers with
    | none => exact wp_giveUp_of
    | some selected =>
      obtain ⟨h, handlers⟩ := selected
      simp only
      rw [wp_bind]
      refine wp_store_of fun m hm => ?_
      rw [wp_bind, wp_modify, wp_bind, wp_modify]
      exact hfinish (MessageBuffer.sameShape_of_storeContent hm).bufferLength _
  · rw [wp_ite]
    refine ⟨fun _ => ?_, fun _ => ?_⟩
    · rw [wp_bind, wp_modify]
      exact hfinish rfl _
    · rw [wp_bind, wp_modify]
      exact hfinish rfl _

/-- No request of a connection is in progress: it waits for a header, and nothing of it has arrived. -/
def NotInProgress (s : ServerConnection (HttpFields ω) ω HttpExecuted) : Prop :=
  s.connectionState = .readHeader ∧ s.message.bufferLength = 0

/-- A connection that is open may be closed exactly if no request of it is in progress. -/
theorem forcedDisconnectAllowed_iff {s : ServerConnection (HttpFields ω) ω HttpExecuted}
    (hs : phases.Holds s) (hopen : s.connectionState ≠ .closeConnection) :
    forcedDisconnectAllowed s = true ↔ NotInProgress s := by
  rw [Phases.Holds] at hs
  rw [forcedDisconnectAllowed, NotInProgress, decide_eq_true_eq]
  cases hstate : s.connectionState with
  | readHeader => simp
  | readRequest | executeRequest | writeResponse =>
    rw [hstate] at hs
    have hlength : 0 < s.message.bufferLength := hs
    exact ⟨fun h => absurd h hlength.ne', fun h => by cases h.1⟩
  | closeConnection => exact absurd hstate hopen

end HttpConnection

end AnyRpc
