import AnyRpc.Connection.Rules

/-! # Nothing is stored out of bounds

Whatever a peer sends, and however it arrives, a connection stores only inside `buffer_` and inside
the block that it allocates for a body. The invariant bounds the counters: `bufferLength_` by the size
of the buffer, and the body, where it stays in the buffer, by the space behind the header. -/

namespace AnyRpc

open Library

/-! ## Stores in a buffer -/

namespace MessageBuffer

variable {m m' : MessageBuffer}

/-- The counters of a buffer fit its blocks of memory. -/
structure Bounded (m : MessageBuffer) : Prop where
  length_buffer : m.buffer.length = maxBufferLength + 1
  bufferLength_le : m.bufferLength ≤ maxBufferLength
  inBuffer : ∀ offset, m.content = .inBuffer offset →
    offset + m.contentLength ≤ maxBufferLength ∧ offset + m.contentAvail ≤ maxBufferLength
  allocated : m.content = .allocated →
    m.block.length = m.contentLength + 1 ∧ m.contentAvail ≤ m.contentLength

/-- Two buffers that differ in what their memory holds at most. -/
structure SameShape (m m' : MessageBuffer) : Prop where
  length_buffer : m'.buffer.length = m.buffer.length
  bufferLength : m'.bufferLength = m.bufferLength
  contentLength : m'.contentLength = m.contentLength
  content : m'.content = m.content
  length_block : m'.block.length = m.block.length
  contentAvail : m'.contentAvail = m.contentAvail

theorem SameShape.refl (m : MessageBuffer) : SameShape m m := ⟨rfl, rfl, rfl, rfl, rfl, rfl⟩

theorem Bounded.of_sameShape (hm : m.Bounded) (h : SameShape m m') : m'.Bounded where
  length_buffer := h.length_buffer.trans hm.length_buffer
  bufferLength_le := h.bufferLength ▸ hm.bufferLength_le
  inBuffer offset hoffset := by
    rw [h.contentLength, h.contentAvail]
    exact hm.inBuffer offset (h.content ▸ hoffset)
  allocated hallocated := by
    rw [h.length_block, h.contentLength, h.contentAvail]
    exact hm.allocated (h.content ▸ hallocated)

/-- The number of bytes that may be stored from `request_` or `response_` on. -/
def room (m : MessageBuffer) : ℕ :=
  match m.content with
  | .null => 0
  | .inBuffer offset => m.buffer.length - offset
  | .allocated => m.block.length

/-- There is room for the body and for a null byte behind it. -/
theorem Bounded.lt_room (hm : m.Bounded) (hnull : m.content ≠ .null) :
    m.contentLength < m.room ∧ m.contentAvail < m.room := by
  have hlength := hm.length_buffer
  unfold room
  cases hcontent : m.content with
  | null => exact absurd hcontent hnull
  | inBuffer offset =>
    have hoffset := hm.inBuffer offset hcontent
    simp only
    omega
  | allocated =>
    have hblock := hm.allocated hcontent
    simp only
    omega

/-- A store in `buffer_`. -/
theorem storeBuffer_spec {i : ℕ} {l : Bytes} (h : i + l.length ≤ m.buffer.length) :
    m.storeBuffer i l = some { m with buffer := overwrite m.buffer i l } ∧
      SameShape m { m with buffer := overwrite m.buffer i l } :=
  ⟨if_pos h, ⟨length_overwrite h, rfl, rfl, rfl, rfl, rfl⟩⟩

/-- A store in the place of the body. -/
theorem storeContent_spec {i : ℕ} {l : Bytes} (hpos : 0 < m.room) (h : i + l.length ≤ m.room) :
    ∃ m', m.storeContent i l = some m' ∧ SameShape m m' := by
  unfold room at h hpos
  unfold storeContent
  cases hcontent : m.content with
  | null =>
    rw [hcontent] at hpos
    cases hpos
  | inBuffer offset =>
    rw [hcontent] at h hpos
    simp only at h hpos
    exact ⟨_, storeBuffer_spec (by omega)⟩
  | allocated =>
    rw [hcontent] at h
    simp only at h
    exact ⟨_, if_pos h, ⟨rfl, rfl, rfl, hcontent ▸ rfl, length_overwrite h, rfl⟩⟩

/-- A store leaves the shape of a buffer. -/
theorem sameShape_of_storeBuffer {i : ℕ} {l : Bytes} (h : m.storeBuffer i l = some m') :
    SameShape m m' := by
  by_cases hfit : i + l.length ≤ m.buffer.length
  · obtain ⟨hstore, hshape⟩ := storeBuffer_spec hfit
    rw [hstore] at h
    cases h
    exact hshape
  · rw [storeBuffer, if_neg hfit] at h
    cases h

theorem sameShape_of_storeContent {i : ℕ} {l : Bytes} (h : m.storeContent i l = some m') :
    SameShape m m' := by
  unfold storeContent at h
  cases hcontent : m.content with
  | null =>
    rw [hcontent] at h
    cases h
  | inBuffer offset =>
    rw [hcontent] at h
    exact sameShape_of_storeBuffer h
  | allocated =>
    rw [hcontent] at h
    simp only at h
    split at h
    · next hfit =>
      cases h
      exact ⟨rfl, rfl, rfl, hcontent ▸ rfl, length_overwrite hfit, rfl⟩
    · cases h

/-- What `Receive` stores, when there is room for as many bytes as it may read and a null byte. -/
theorem storeReceived_spec {n : ℕ} {storeAt : Bytes → MessageBuffer → Option MessageBuffer}
    (hstore : ∀ l, l.length ≤ n + 1 → ∃ m', storeAt l m = some m' ∧ SameShape m m')
    {data : Bytes} (hdata : data.length ≤ n) :
    ∃ m', (if data = [] then some m else storeAt (data ++ [0]) m) = some m' ∧ SameShape m m' := by
  by_cases hempty : data = []
  · rw [if_pos hempty]
    exact ⟨m, rfl, .refl m⟩
  · rw [if_neg hempty]
    exact hstore _ (by simpa using hdata)

/-- The reset after a message keeps the bounds. -/
theorem Bounded.clear (hm : m.Bounded) : m.clear.Bounded where
  length_buffer := hm.length_buffer
  bufferLength_le := hm.bufferLength_le
  inBuffer _ h := by cases h
  allocated h := by cases h

theorem Bounded.discard (hm : m.Bounded) : m.discard.clear.Bounded where
  length_buffer := hm.length_buffer
  bufferLength_le := Nat.zero_le _
  inBuffer _ h := by cases h
  allocated h := by cases h

/-- Where there is no body, its counters are free. -/
theorem Bounded.of_null (hm : m.Bounded) (h : m.content = .null) (contentLength contentAvail : ℕ) :
    Bounded { m with contentLength, contentAvail } where
  length_buffer := hm.length_buffer
  bufferLength_le := hm.bufferLength_le
  inBuffer _ hoffset := by cases h.symm.trans hoffset
  allocated hallocated := by cases h.symm.trans hallocated

/-- The data behind a message moves inside the buffer. -/
theorem Bounded.preserve (hm : m.Bounded) : ∃ m', m.preserve = some m' ∧ m'.clear.Bounded := by
  unfold MessageBuffer.preserve
  cases hcontent : m.content with
  | null => exact ⟨m, rfl, hm.clear⟩
  | allocated => exact ⟨m.discard, rfl, hm.discard⟩
  | inBuffer offset =>
    have hlength := hm.length_buffer
    obtain ⟨-, havail⟩ := hm.inBuffer offset hcontent
    simp only
    by_cases hmore : m.contentLength < m.contentAvail
    · rw [if_pos hmore, if_pos (by omega)]
      have hwindow : (window m.buffer (offset + m.contentLength)
          (m.contentAvail - m.contentLength)).length = m.contentAvail - m.contentLength :=
        length_window (by omega)
      obtain ⟨hstore, hshape⟩ := storeBuffer_spec (m := m) (i := 0)
        (l := window m.buffer (offset + m.contentLength) (m.contentAvail - m.contentLength))
        (by omega)
      rw [hstore]
      refine ⟨_, rfl, ?_, ?_, ?_, ?_⟩
      · exact hshape.length_buffer.trans hlength
      · show m.contentAvail - m.contentLength ≤ maxBufferLength
        omega
      · intro _ h
        cases h
      · intro h
        cases h
    · rw [if_neg hmore]
      exact ⟨m.discard, rfl, hm.discard⟩

/-- The body finds a place, of which the part that is there already fits. -/
theorem Bounded.place (hm : m.Bounded) (memory : ℕ → UInt8) {bodyStart : ℕ}
    (havail : bodyStart + m.contentAvail ≤ m.bufferLength) :
    ∃ m', m.place memory bodyStart = some m' ∧ m'.Bounded ∧ m'.content ≠ .null ∧
      m'.contentAvail = m.contentAvail := by
  have hlength := hm.length_buffer
  have hle := hm.bufferLength_le
  unfold MessageBuffer.place
  by_cases hspace : maxBufferLength - bodyStart < m.contentLength
  · rw [if_pos hspace]
    have hwindow : (window m.buffer bodyStart m.contentAvail).length = m.contentAvail :=
      length_window (by omega)
    have hroom : 0 + (window m.buffer bodyStart m.contentAvail).length ≤
        ((List.range (m.contentLength + 1)).map memory).length := by
      rw [hwindow, List.length_map, List.length_range]
      omega
    refine ⟨_, if_pos hroom, ⟨hlength, hle, ?_, ?_⟩, ?_, rfl⟩
    · intro offset h
      cases h
    · intro _
      refine ⟨?_, by show m.contentAvail ≤ m.contentLength; omega⟩
      show (overwrite _ _ _).length = _
      rw [length_overwrite hroom, List.length_map, List.length_range]
    · intro h
      cases h
  · rw [if_neg hspace]
    refine ⟨_, rfl, ⟨hlength, hle, ?_, ?_⟩, ?_, rfl⟩
    · intro offset h
      cases h
      show bodyStart + m.contentLength ≤ _ ∧ bodyStart + m.contentAvail ≤ _
      omega
    · intro h
      cases h
    · intro h
      cases h

/-- The body is not longer than what is asked for. -/
theorem length_body_le (m : MessageBuffer) (n : ℕ) : (m.body n).length ≤ n := by
  unfold body
  cases m.content with
  | null => exact Nat.zero_le _
  | inBuffer offset => exact List.length_take_le _ _
  | allocated => exact List.length_take_le _ _

end MessageBuffer

/-! ## The functions of a connection -/

namespace ServerConnection

variable {ρ ω ε : Type} {s : ServerConnection ρ ω ε}

/-- The counters fit the blocks of memory; there is a body where one is read or executed, and none
where a header is read. -/
structure Bounded (s : ServerConnection ρ ω ε) : Prop where
  message : s.message.Bounded
  content : s.connectionState = .readRequest ∨ s.connectionState = .executeRequest →
    s.message.content ≠ .null
  fresh : s.connectionState = .readHeader → s.message.content = .null

/-- A run stops only to wait for the kernel, and leaves the bounds intact. -/
def Waits (stop : Stop) (s : ServerConnection ρ ω ε) : Prop := stop = .pending ∧ s.Bounded

theorem bounded_close (hs : s.message.Bounded) :
    Bounded { s with connectionState := .closeConnection } where
  message := hs
  content h := by rcases h with h | h <;> cases h
  fresh h := by cases h

/-- A computation of the part that sends does not touch the buffer. -/
theorem wp_liftSending {α : Type} (p : EStateM Pending Connection α)
    {E : Stop → ServerConnection ρ ω ε → Prop} {Q : α → ServerConnection ρ ω ε → Prop}
    (hQ : ∀ a s', s'.message = s.message → s'.connectionState = s.connectionState → Q a s')
    (hE : ∀ s', s'.message = s.message → s'.connectionState = s.connectionState → E .pending s') :
    wp (liftSending p) Q E s := by
  unfold wp liftSending
  cases p s.sending with
  | ok a c => exact hQ a _ rfl rfl
  | error e c => exact hE _ rfl rfl

section

variable [Transport ρ]

/-- `Initialize` leaves a connection that may start to read a header. -/
theorem wp_initializeData (preserveBufferData : Bool) (hs : s.message.Bounded) :
    wp (initializeData preserveBufferData) (fun _ s' => s'.message.Bounded ∧
      s'.connectionState = s.connectionState ∧ s'.message.content = .null) Waits s := by
  have hstore : ∃ m : MessageBuffer, (if preserveBufferData then s.message.preserve
      else some s.message.discard).map MessageBuffer.clear = some m ∧ m.Bounded ∧
        m.content = .null := by
    cases preserveBufferData with
    | true =>
      obtain ⟨m, hm, hbounded⟩ := hs.preserve
      exact ⟨m.clear, by rw [if_pos rfl, hm]; rfl, hbounded, rfl⟩
    | false => exact ⟨_, rfl, hs.discard, rfl⟩
  obtain ⟨m, hm, hbounded, hnull⟩ := hstore
  rw [initializeData, wp_bind, wp_store hm, wp_modify]
  exact ⟨hbounded, rfl, hnull⟩

/-- A function that gives up leaves a connection that may be closed. -/
theorem wp_giveUp {I : ServerConnection ρ ω ε → Prop} (hs : s.message.Bounded) :
    wp giveUp (fun success s' => if success then I s' else s'.message.Bounded) Waits s :=
  wp_seq (wp_initializeData false hs) fun _ _ h => h.1

/-- `ReadRequest` reads the rest of the body into the place that it was given. -/
theorem readRequest_bounded :
    KeptIn Bounded (fun s => s.message.Bounded) Waits (ρ := ρ) (ω := ω) (ε := ε) .readRequest
      readRequest := by
  intro s hs hstate
  have hnull := hs.content (.inl hstate)
  -- The null byte behind the body.
  have hfinish (s' : ServerConnection ρ ω ε) (hs' : s'.message.Bounded)
      (hnull' : s'.message.content ≠ .null) :
      wp readRequest.finish (fun success s => if success then Bounded s else s.message.Bounded)
        Waits s' := by
    have hroom := hs'.lt_room hnull'
    obtain ⟨m, hm, hshape⟩ := MessageBuffer.storeContent_spec (m := s'.message)
      (i := s'.message.contentAvail) (l := [0]) (by omega) hroom.2
    rw [readRequest.finish, wp_bind, wp_get, wp_bind, wp_store hm, wp_bind, wp_modify, wp_pure]
    exact ⟨hs'.of_sameShape hshape, fun _ => hshape.content ▸ hnull', fun h => by cases h⟩
  rw [readRequest, wp_bind, wp_get, wp_ite]
  refine ⟨fun hmore => ?_, fun _ => hfinish s hs.message hnull⟩
  rw [wp_bind]
  refine wp_receive (fun _ => ⟨rfl, hs⟩) fun r incoming _ houtcome => ?_
  have hle := houtcome.length_le
  have hroom := (hs.message.lt_room hnull).1
  obtain ⟨m, hm, hshape⟩ := MessageBuffer.storeReceived_spec (m := s.message)
    (fun l hl => MessageBuffer.storeContent_spec (m := s.message) (i := s.message.contentAvail)
      (l := l) (by omega) (by omega)) hle
  have hbounded := hs.message.of_sameShape hshape
  refine ⟨m, hm, ?_⟩
  rw [wp_ite]
  refine ⟨fun _ => wp_giveUp hbounded, fun _ => ?_⟩
  -- What is there of the body, with the bytes that were received.
  have hread : MessageBuffer.Bounded
      { m with contentAvail := s.message.contentAvail + r.data.length } := by
    refine ⟨hbounded.length_buffer, hbounded.bufferLength_le, fun offset h => ?_, fun h => ?_⟩
    · have hoffset := hbounded.inBuffer offset h
      rw [hshape.contentLength] at hoffset
      simp only [hshape.contentLength]
      omega
    · have hblock := hbounded.allocated h
      rw [hshape.contentLength] at hblock
      simp only [hshape.contentLength]
      omega
  have hnull' : m.content ≠ .null := hshape.content ▸ hnull
  rw [wp_bind, wp_modify, wp_ite]
  refine ⟨fun _ => ?_, fun _ => hfinish _ hread hnull'⟩
  rw [wp_ite]
  exact ⟨fun _ => wp_giveUp hread, fun _ => ⟨hread, fun _ => hnull', fun h => by
    cases hstate.symm.trans h⟩⟩

/-- `WriteResponse` moves what is behind the message, at most. -/
theorem writeResponse_bounded :
    KeptIn Bounded (fun s => s.message.Bounded) Waits (ρ := ρ) (ω := ω) (ε := ε) .writeResponse
      writeResponse := by
  intro s hs _
  have hkeep {s' : ServerConnection ρ ω ε} (hmessage : s'.message = s.message)
      (hstate : s'.connectionState = s.connectionState) : s'.Bounded :=
    ⟨hmessage ▸ hs.message, hmessage ▸ hstate ▸ hs.content, hmessage ▸ hstate ▸ hs.fresh⟩
  -- What happens after a loop that returns from the function.
  have hreturn {s' : ServerConnection ρ ω ε} (hs' : s'.Bounded) (result : Bool) :
      wp (if result then pure true else giveUp)
        (fun success s => if success then Bounded s else s.message.Bounded) Waits s' := by
    rw [wp_ite]
    exact ⟨fun _ => hs', fun _ => wp_giveUp hs'.message⟩
  rw [writeResponse, wp_bind, wp_get, wp_bind]
  refine wp_liftSending _ (fun result s₁ hm₁ hc₁ => ?_) fun s₁ hm₁ hc₁ => ⟨rfl, hkeep hm₁ hc₁⟩
  cases result with
  | some result => exact hreturn (hkeep hm₁ hc₁) result
  | none =>
    simp only
    rw [wp_bind, wp_get, wp_bind]
    refine wp_liftSending _ (fun result s₂ hm₂ hc₂ => ?_) fun s₂ hm₂ hc₂ =>
      ⟨rfl, hkeep (hm₂.trans hm₁) (hc₂.trans hc₁)⟩
    have hs₂ := hkeep (hm₂.trans hm₁) (hc₂.trans hc₁)
    cases result with
    | some result => exact hreturn hs₂ result
    | none =>
      simp only
      rw [wp_bind, wp_modify, wp_bind, wp_get]
      refine wp_seq (wp_initializeData _ hs₂.message) fun _ s₃ h₃ => ?_
      rw [wp_pure]
      split
      · refine ⟨h₃.1, fun h => ?_, fun _ => h₃.2.2⟩
        rw [h₃.2.1] at h
        rcases h with h | h <;> cases h
      · exact h₃.1

/-- A connection whose own functions keep the bounds keeps them over every sequence of calls. -/
theorem process_bounded {readHeader executeRequest : ConnectionM ρ ω ε Bool}
    (hheader : KeptIn Bounded (fun s => s.message.Bounded) Waits .readHeader readHeader)
    (hexecute : KeptIn Bounded (fun s => s.message.Bounded) Waits .executeRequest executeRequest)
    (hs : s.Bounded) (calls : List Bool) :
    wp (serve (process readHeader executeRequest) calls) (fun _ => Bounded) Waits s := by
  refine wp_serve (fun executeAfterRead s hs => ?_) calls hs
  rw [process, wp_bind, wp_get]
  refine wp_processLoop (fun s hs => ?_) (fun s hs => ⟨rfl, hs⟩) _ hs
  exact wp_processState hheader readRequest_bounded hexecute writeResponse_bounded
    (fun _ => bounded_close) executeAfterRead hs

end

/-- The header is received at the end of the buffer, as far as it has room. -/
theorem wp_receiveHeader (hs : s.Bounded) {E : Stop → ServerConnection ρ ω ε → Prop}
    {Q : Received → ServerConnection ρ ω ε → Prop} (hpending : E .pending s)
    (hQ : ∀ r incoming m, s.message.SameShape m →
      s.message.bufferLength + r.data.length ≤ maxBufferLength →
      Q r { s with
        incoming
        message := m
        received := if r.success then s.received ++ [r.data] else s.received }) :
    wp (receive (MessageBuffer.storeBuffer s.message.bufferLength)
      (maxBufferLength - s.message.bufferLength)) Q E s := by
  refine wp_receive (fun _ => hpending) fun r incoming _ houtcome => ?_
  have hle := houtcome.length_le
  have hlength := hs.message.length_buffer
  have hbuffer := hs.message.bufferLength_le
  obtain ⟨m, hm, hshape⟩ := MessageBuffer.storeReceived_spec (m := s.message)
    (fun l hl => ⟨_, MessageBuffer.storeBuffer_spec (i := s.message.bufferLength) (l := l)
      (by omega)⟩) hle
  exact ⟨m, hm, hQ r incoming m hshape (by omega)⟩

/-- The reply of a handler fits the place of the request. -/
theorem wp_storeReply (hs : s.Bounded) (hstate : s.connectionState = .executeRequest)
    (reply : Reply ω (s.message.body s.message.contentLength).length)
    {E : Stop → ServerConnection ρ ω ε → Prop} {Q : Unit → ServerConnection ρ ω ε → Prop}
    (hQ : ∀ m, s.message.SameShape m → Q () { s with message := m }) :
    wp (store (MessageBuffer.storeContent 0 reply.request)) Q E s := by
  have hroom := (hs.message.lt_room (hs.content (.inr hstate))).1
  have hle := s.message.length_body_le s.message.contentLength
  obtain ⟨m, hm, hshape⟩ := MessageBuffer.storeContent_spec (m := s.message) (i := 0)
    (l := reply.request) (by omega) (by rw [reply.length_request]; omega)
  rw [wp_store hm]
  exact hQ m hshape

end ServerConnection

open ServerConnection

/-! ## Connections over TCP -/

namespace TcpConnection

variable [IntOverflow] {ω : Type}

/-- `ReadHeader` finds a place for the body that fits its length. -/
theorem readHeader_bounded :
    KeptIn Bounded (fun s => s.message.Bounded) Waits .readHeader
      (readHeader : ConnectionM TcpFields ω Bytes Bool) := by
  intro s hs hstate
  rw [readHeader, wp_bind, wp_get]
  simp only
  rw [wp_bind]
  refine wp_receiveHeader hs ⟨rfl, hs⟩ fun r incoming m hshape hle => ?_
  have hm := hs.message.of_sameShape hshape
  rw [wp_ite]
  refine ⟨fun _ => wp_giveUp hm, fun _ => ?_⟩
  rw [wp_bind, wp_modify, wp_bind, wp_get]
  -- The buffer with the bytes that were received.
  have hread : MessageBuffer.Bounded
      { m with bufferLength := s.message.bufferLength + r.data.length } :=
    ⟨hm.length_buffer, hle, hm.inBuffer, hm.allocated⟩
  have hlength : (m.buffer.take (s.message.bufferLength + r.data.length)).length =
      s.message.bufferLength + r.data.length :=
    List.length_take_of_le (by rw [hm.length_buffer]; omega)
  have hnull : m.content = .null := hshape.content.trans (hs.fresh hstate)
  have hwait : ServerConnection.Bounded { s with
      incoming
      message := { m with bufferLength := s.message.bufferLength + r.data.length }
      received := if r.success then s.received ++ [r.data] else s.received } :=
    ⟨hread, fun h => (by rcases h with h | h <;> cases hstate.symm.trans h), fun _ => hnull⟩
  simp only [MessageBuffer.data]
  cases hfind : findChar (m.buffer.take (s.message.bufferLength + r.data.length)) 0x3a with
  | none =>
    simp only
    rw [wp_ite]
    exact ⟨fun _ => wp_giveUp hread, fun _ => hwait⟩
  | some n =>
    have hn : n < s.message.bufferLength + r.data.length :=
      hlength ▸ (List.findIdx?_eq_some_iff_findIdx_eq.mp hfind).1
    simp only [hlength]
    rw [wp_ite]
    refine ⟨fun _ => wp_giveUp hread, fun _ => ?_⟩
    rw [wp_ite]
    refine ⟨fun _ => wp_giveUp hread, fun _ => ?_⟩
    rw [wp_bind, wp_modify]
    -- The length of the body is known, and nothing refers to a body yet.
    have hsized := hread.of_null hnull (toSize (atoi (if s.derived.commaExpected = true
      then (m.buffer.take (s.message.bufferLength + r.data.length)).drop 1
      else m.buffer.take (s.message.bufferLength + r.data.length))))
      (s.message.bufferLength + r.data.length - (n + 1))
    rw [wp_ite]
    refine ⟨fun _ => wp_giveUp hsized, fun _ => ?_⟩
    have hbodyStart : n + 1 + (s.message.bufferLength + r.data.length - (n + 1)) ≤
        s.message.bufferLength + r.data.length := by omega
    obtain ⟨m', hm', hplaced, hplace, havail⟩ := hsized.place m.heap hbodyStart
    have hroom : s.message.bufferLength + r.data.length - (n + 1) < m'.room := by
      have := (hplaced.lt_room hplace).2
      rwa [havail] at this
    rw [wp_bind, wp_store hm']
    obtain ⟨m'', hm'', hshape'⟩ := MessageBuffer.storeContent_spec (m := m') (l := [0])
      (i := s.message.bufferLength + r.data.length - (n + 1)) (by omega) hroom
    rw [wp_bind, wp_store hm'', wp_bind, wp_modify, wp_pure]
    exact ⟨hplaced.of_sameShape hshape', fun _ => hshape'.content ▸ hplace, fun h => by cases h⟩

omit [IntOverflow] in
/-- `ExecuteRequest` stores the reply in the place of the request. -/
theorem executeRequest_bounded (handler : RpcHandler ω) :
    KeptIn Bounded (fun s => s.message.Bounded) Waits .executeRequest (executeRequest handler) := by
  intro s hs hstate
  rw [executeRequest, wp_bind, wp_get]
  simp only
  rw [wp_bind]
  refine wp_storeReply hs hstate _ fun m hshape => ?_
  have hm := hs.message.of_sameShape hshape
  rw [wp_bind, wp_modify, wp_ite]
  constructor
  · intro _
    rw [wp_bind, wp_modify, wp_pure]
    exact ⟨hm, fun h => (by rcases h with h | h <;> cases h), fun h => by cases h⟩
  · intro _
    rw [wp_bind, wp_modify]
    refine wp_seq (wp_initializeData true hm) fun _ s' h => ?_
    rw [wp_pure]
    refine ⟨h.1, fun h' => ?_, fun _ => h.2.2⟩
    rw [h.2.1] at h'
    rcases h' with h' | h' <;> cases h'

end TcpConnection

/-! ## Connections over HTTP -/

namespace HttpConnection

variable [IntOverflow] {ω : Type}

/-- `ReadHeader` finds a place for the body that fits its length. -/
theorem readHeader_bounded :
    KeptIn Bounded (fun s => s.message.Bounded) Waits .readHeader
      (readHeader : ConnectionM (HttpFields ω) ω HttpExecuted Bool) := by
  intro s hs hstate
  rw [readHeader, wp_bind, wp_get]
  simp only
  rw [wp_bind]
  refine wp_receiveHeader hs ⟨rfl, hs⟩ fun r incoming m hshape hle => ?_
  have hm := hs.message.of_sameShape hshape
  rw [wp_ite]
  refine ⟨fun _ => wp_giveUp hm, fun _ => ?_⟩
  rw [wp_bind, wp_modify, wp_bind, wp_get]
  -- The buffer with the bytes that were received.
  have hread : MessageBuffer.Bounded
      { m with bufferLength := s.message.bufferLength + r.data.length } :=
    ⟨hm.length_buffer, hle, hm.inBuffer, hm.allocated⟩
  have hlength : (m.buffer.take (s.message.bufferLength + r.data.length)).length =
      s.message.bufferLength + r.data.length :=
    List.length_take_of_le (by rw [hm.length_buffer]; omega)
  have hnull : m.content = .null := hshape.content.trans (hs.fresh hstate)
  simp only [MessageBuffer.data]
  rw [wp_bind, wp_modify]
  cases hresult : (s.derived.httpRequestState.processHeaderData
      (m.buffer.take (s.message.bufferLength + r.data.length)) r.eof).headerResult with
  | fault => exact wp_giveUp hread
  | incomplete =>
    exact ⟨hread, fun h => (by rcases h with h | h <;> cases hstate.symm.trans h), fun _ => hnull⟩
  | complete =>
    have hstart := HttpHeader.startIndex_le hresult
    rw [hlength] at hstart
    simp only
    rw [wp_bind, wp_modify]
    -- The length of the body is known, and nothing refers to a body yet.
    have hsized := hread.of_null hnull (toSize (s.derived.httpRequestState
      |>.processHeaderData (m.buffer.take (s.message.bufferLength + r.data.length)) r.eof
      |>.contentLength)) (s.message.bufferLength + r.data.length -
        (s.derived.httpRequestState.processHeaderData
          (m.buffer.take (s.message.bufferLength + r.data.length)) r.eof).startIndex)
    refine (wp_ite _ _ _).mpr ⟨fun _ => wp_giveUp hsized, fun _ => ?_⟩
    obtain ⟨m', hm', hplaced, hplace, -⟩ := hsized.place (fun _ => 0)
      (Nat.add_sub_of_le hstart).le
    rw [wp_bind, wp_store hm', wp_bind, wp_modify, wp_pure]
    exact ⟨hplaced, fun _ => hplace, fun h => by cases h⟩

/-- `ExecuteRequest` stores the reply in the place of the request. -/
theorem executeRequest_bounded :
    KeptIn Bounded (fun s => s.message.Bounded) Waits .executeRequest
      (executeRequest : ConnectionM (HttpFields ω) ω HttpExecuted Bool) := by
  intro s hs hstate
  -- The response is to be written next.
  have hfinish {s' : ServerConnection (HttpFields ω) ω HttpExecuted} (hs' : s'.message.Bounded)
      (request : HttpExecuted) : wp (executeRequest.finish request)
        (fun success s => if success then Bounded s else s.message.Bounded) Waits s' := by
    rw [executeRequest.finish, wp_bind, wp_modify, wp_pure]
    exact ⟨hs', fun h => (by rcases h with h | h <;> cases h), fun h => by cases h⟩
  rw [executeRequest, wp_bind, wp_get]
  simp only
  rw [wp_ite]
  refine ⟨fun _ => ?_, fun _ => ?_⟩
  · cases selectHandler s.derived.httpRequestState.contentType s.derived.handlers with
    | none => exact wp_giveUp hs.message
    | some selected =>
      obtain ⟨h, handlers⟩ := selected
      simp only
      rw [wp_bind]
      refine wp_storeReply hs hstate _ fun m hshape => ?_
      rw [wp_bind, wp_modify, wp_bind, wp_modify]
      exact hfinish (hs.message.of_sameShape hshape) _
  · rw [wp_ite]
    refine ⟨fun _ => ?_, fun _ => ?_⟩
    · rw [wp_bind, wp_modify]
      refine hfinish ?_ _
      exact hs.message
    · rw [wp_bind, wp_modify]
      refine hfinish ?_ _
      exact hs.message

end HttpConnection

/-! ## Every run -/

namespace ServerConnection

variable {ρ ω ε : Type}

/-- A connection that was just accepted, with everything that the peer is going to send and with all
the answers of the kernel. The memory of `buffer_` may hold anything. -/
def accepted (buffer : Bytes) (heap : ℕ → UInt8) (socket : TcpSocket) (incoming : Incoming)
    (derived : ρ) (world : ω) : ServerConnection ρ ω ε where
  socket := socket
  incoming := incoming
  message := { buffer, heap }
  derived := derived
  world := world

theorem bounded_accepted {buffer : Bytes} (hbuffer : buffer.length = maxBufferLength + 1)
    (heap : ℕ → UInt8) (socket : TcpSocket) (incoming : Incoming) (derived : ρ) (world : ω) :
    (accepted buffer heap socket incoming derived world : ServerConnection ρ ω ε).Bounded where
  message := ⟨hbuffer, Nat.zero_le _, fun _ h => (by cases h), fun h => by cases h⟩
  content h := by rcases h with h | h <;> cases h
  fresh _ := rfl

end ServerConnection

/-- Whatever the peer sends and the kernel answers, every sequence of calls of `Process` on a
connection stores inside its blocks of memory: it ends only to wait for the kernel, and keeps the
bounds of the counters. -/
theorem process_inBounds [IntOverflow] {ω : Type} (handler : RpcHandler ω)
    (handlers : List (RpcContentHandler ω)) (world : ω) {buffer : Bytes}
    (hbuffer : buffer.length = maxBufferLength + 1) (heap : ℕ → UInt8) (socket : TcpSocket)
    (incoming : Incoming) (calls : List Bool) :
    wp (serve (TcpConnection.process handler) calls) (fun _ => Bounded) Waits
        (accepted buffer heap socket incoming {} world) ∧
      wp (serve HttpConnection.process calls) (fun _ => Bounded) Waits
        (accepted buffer heap socket incoming ⟨.initial, handlers⟩ world) := by
  constructor
  · exact process_bounded TcpConnection.readHeader_bounded
      (TcpConnection.executeRequest_bounded handler)
      (bounded_accepted hbuffer heap socket incoming _ world) calls
  · exact process_bounded HttpConnection.readHeader_bounded HttpConnection.executeRequest_bounded
      (bounded_accepted hbuffer heap socket incoming _ world) calls

/-- Connections to which a peer sends the bytes `1:` and nothing else. -/
theorem process_inBounds_two :
    let _ := IntOverflow.truncate
    let handler : RpcHandler Unit := fun request world => ⟨request, [], false, world, rfl⟩
    let incoming : Incoming := ⟨[0x31, 0x3a], [⟨.arrived 2, 0, true⟩]⟩
    let buffer : Bytes := List.replicate (maxBufferLength + 1) 0
    wp (serve (TcpConnection.process handler) [true]) (fun _ => Bounded) Waits
        (accepted buffer (fun _ => 0) {} incoming {} ()) ∧
      wp (serve HttpConnection.process [true]) (fun _ => Bounded) Waits
        (accepted buffer (fun _ => 0) {} incoming ⟨.initial, []⟩ ()) := by
  intro _ handler incoming buffer
  exact process_inBounds handler [] () List.length_replicate (fun _ => 0) {} incoming [true]

end AnyRpc
