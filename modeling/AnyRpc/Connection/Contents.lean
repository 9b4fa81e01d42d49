import AnyRpc.Connection.Bounds

/-! # What the buffer of a message holds

The memory of a `MessageBuffer` against the bytes that were received of a message: the body is read
from where it was placed, and what is behind it moves to the start of the buffer. -/

namespace AnyRpc

open Library

namespace MessageBuffer

variable {m m' : MessageBuffer} {q l : Bytes} {b n : ℕ}

/-! ## Reading and storing -/

theorem take_body {k : ℕ} (h : k ≤ n) : (m.body n).take k = m.body k := by
  unfold body
  cases m.content with
  | null => exact List.take_nil
  | inBuffer offset => exact take_window _ _ h
  | allocated => rw [List.take_take, Nat.min_eq_left h]

theorem storeContent_inBuffer {offset : ℕ} (h : m.content = .inBuffer offset) (i : ℕ) (l : Bytes) :
    m.storeContent i l = m.storeBuffer (offset + i) l := by
  rw [storeContent, h]

theorem storeContent_allocated (h : m.content = .allocated) {i : ℕ} {l : Bytes}
    (hroom : i + l.length ≤ m.block.length) :
    m.storeContent i l = some { m with block := overwrite m.block i l } := by
  rw [storeContent, h]
  exact if_pos hroom

/-- What is stored behind a part of the body is read behind it. -/
theorem body_storeContent {i : ℕ} (hpos : 0 < m.room) (h : i + l.length ≤ m.room)
    (hm : m.storeContent i l = some m') : m'.body (i + l.length) = m.body i ++ l := by
  unfold room at h hpos
  unfold storeContent at hm
  unfold body
  cases hcontent : m.content with
  | null =>
    rw [hcontent] at hpos
    cases hpos
  | inBuffer offset =>
    rw [hcontent] at h hpos hm
    simp only at h hpos hm
    rw [storeBuffer, if_pos (by omega)] at hm
    cases hm
    simp only [hcontent]
    rw [window_add, window_overwrite_before (by omega) le_rfl, window_overwrite_self (by omega)]
  | allocated =>
    rw [hcontent] at h hpos hm
    simp only at h hpos hm
    rw [if_pos h] at hm
    cases hm
    exact take_overwrite (by omega)

/-- What `Receive` returns is stored behind the data of the buffer, with a null byte behind it. -/
theorem storeBuffer_received (hlength : m.buffer.length = maxBufferLength + 1)
    (hcontent : m.content = .null) (hdata : m.data = q) (hbuffer : m.bufferLength = q.length)
    {d : Bytes} (hfit : q.length + d.length ≤ maxBufferLength) :
    ∃ m', (if d = [] then some m else m.storeBuffer q.length (d ++ [0])) = some m' ∧
      m'.buffer.length = maxBufferLength + 1 ∧ m'.content = .null ∧
        m'.buffer.take (q.length + d.length) = q ++ d := by
  rw [data, hbuffer] at hdata
  by_cases hempty : d = []
  · refine ⟨m, if_pos hempty, hlength, hcontent, ?_⟩
    rw [hempty, List.length_nil, Nat.add_zero, hdata, List.append_nil]
  · have hroom : q.length + (d ++ [0]).length ≤ m.buffer.length := by
      rw [List.length_append, List.length_singleton]
      omega
    obtain ⟨hm', hshape⟩ := storeBuffer_spec hroom
    refine ⟨_, by rw [if_neg hempty, hm'], hshape.length_buffer.trans hlength, hcontent, ?_⟩
    have htake := take_overwrite (m := m.buffer) (l := d ++ [0]) (i := q.length) (by omega)
    rw [hdata, ← List.append_assoc] at htake
    have hshort := congrArg (List.take (q.length + d.length)) htake
    rwa [List.take_take, Nat.min_eq_left (by simp), List.take_left' (by simp)] at hshort

/-! ## A body that is received -/

/-- The bytes `q` of a message are received, whose body starts at `b` and is to have `n` bytes. -/
structure Holds (m : MessageBuffer) (q : Bytes) (b n : ℕ) : Prop where
  length_buffer : m.buffer.length = maxBufferLength + 1
  contentLength : m.contentLength = n
  start_le : b ≤ q.length
  contentAvail : m.contentAvail = q.length - b
  place : m.content = .inBuffer b ∧ b + n ≤ maxBufferLength ∧ q.length ≤ maxBufferLength ∨
    m.content = .allocated ∧ m.block.length = n + 1 ∧ q.length - b ≤ n
  body_eq : m.body (q.length - b) = q.drop b

/-- There is room for the whole body and a null byte behind it, and behind what is there of it. -/
theorem Holds.lt_room (h : m.Holds q b n) : n < m.room ∧ m.contentAvail < m.room := by
  have hlength := h.length_buffer
  have hstart := h.start_le
  have havail := h.contentAvail
  unfold room
  rcases h.place with ⟨hcontent, hn, hq⟩ | ⟨hcontent, hblock, hq⟩
  · simp only [hcontent]
    omega
  · simp only [hcontent]
    omega

/-- More of the body arrives, with a byte behind it. -/
theorem Holds.receive (h : m.Holds q b n) {d : Bytes} (hd : q.length - b + d.length ≤ n) (c : UInt8) :
    ∃ m', m.storeContent m.contentAvail (d ++ [c]) = some m' ∧
      Holds { m' with contentAvail := q.length - b + d.length } (q ++ d) b n := by
  have hstart := h.start_le
  have havail := h.contentAvail
  have hroom := h.lt_room
  have hlength : (d ++ [c]).length = d.length + 1 := by simp
  have hfit : m.contentAvail + (d ++ [c]).length ≤ m.room := by omega
  obtain ⟨m', hm', hshape⟩ := storeContent_spec (by omega) hfit
  have hbody := body_storeContent (by omega) hfit hm'
  refine ⟨m', hm', ⟨hshape.length_buffer.trans h.length_buffer,
    hshape.contentLength.trans h.contentLength, ?_, ?_, ?_, ?_⟩⟩
  · rw [List.length_append]
    omega
  · rw [List.length_append]
    show q.length - b + d.length = _
    omega
  · rw [List.length_append]
    rcases h.place with ⟨hcontent, hn, hq⟩ | ⟨hcontent, hblock, hq⟩
    · exact .inl ⟨hshape.content.trans hcontent, hn, by omega⟩
    · exact .inr ⟨hshape.content.trans hcontent, hshape.length_block.trans hblock, by omega⟩
  · have htake : m'.body (q.length - b + d.length) = m.body m.contentAvail ++ d := by
      rw [← take_body (m := m') (n := m.contentAvail + (d ++ [c]).length) (by omega), hbody,
        ← List.append_assoc, List.take_left']
      rw [List.length_append, havail, h.body_eq, List.length_drop]
    show m'.body _ = _
    rw [List.length_append, show q.length + d.length - b = q.length - b + d.length by omega, htake,
      havail, h.body_eq, List.drop_append_of_le_length hstart]

/-- What `Receive` stores of the body, which is nothing when nothing has arrived. -/
theorem Holds.receiveStored (h : m.Holds q b n) {d : Bytes} (hd : q.length - b + d.length ≤ n) :
    ∃ m', (if d = [] then some m else m.storeContent m.contentAvail (d ++ [0])) = some m' ∧
      Holds { m' with contentAvail := q.length - b + d.length } (q ++ d) b n := by
  by_cases hempty : d = []
  · refine ⟨m, if_pos hempty, ?_⟩
    rw [hempty, List.append_nil, List.length_nil, Nat.add_zero, ← h.contentAvail]
    exact h
  · obtain ⟨m', hm', hholds⟩ := h.receive hd 0
    exact ⟨m', by rw [if_neg hempty, hm'], hholds⟩

/-- The null byte behind the body. -/
theorem Holds.terminate (h : m.Holds q b n) :
    ∃ m', m.storeContent m.contentAvail [0] = some m' ∧ m'.Holds q b n := by
  have havail := h.contentAvail
  have hroom := h.lt_room
  have hfit : m.contentAvail + [(0 : UInt8)].length ≤ m.room := hroom.2
  obtain ⟨m', hm', hshape⟩ := storeContent_spec (by omega) hfit
  have hbody := body_storeContent (by omega) hfit hm'
  refine ⟨m', hm', ⟨hshape.length_buffer.trans h.length_buffer,
    hshape.contentLength.trans h.contentLength, h.start_le,
    hshape.contentAvail.trans havail, ?_, ?_⟩⟩
  · rw [hshape.content, hshape.length_block]
    exact h.place
  · rw [← take_body (m := m') (n := m.contentAvail + [(0 : UInt8)].length) (by omega), hbody,
      List.take_left' (by rw [havail, h.body_eq, List.length_drop]), havail, h.body_eq]

/-- The body, once it is there. -/
theorem Holds.body (h : m.Holds q b n) (hn : b + n ≤ q.length) :
    m.body m.contentLength = (q.drop b).take n := by
  rw [h.contentLength, ← take_body (m := m) (n := q.length - b) (by omega), h.body_eq]

/-- What is behind a body is shorter than the buffer. -/
theorem Holds.rest_lt (h : m.Holds q b n) (hpos : 0 < b) :
    (q.drop (b + n)).length < maxBufferLength := by
  have hmax : 0 < maxBufferLength := by decide
  rw [List.length_drop]
  rcases h.place with ⟨-, hfit, hq⟩ | ⟨-, -, hq⟩
  · omega
  · omega

/-- The place that is found for a body holds what is there of it. -/
theorem holds_place (hlength : m.buffer.length = maxBufferLength + 1)
    (hbuffer : m.bufferLength ≤ maxBufferLength) (hdata : m.data = q)
    (hlength' : q.length = m.bufferLength) (hb : b ≤ q.length) (havail : m.contentAvail = q.length - b)
    (memory : ℕ → UInt8) :
    ∃ m', m.place memory b = some m' ∧ m'.Holds q b m.contentLength := by
  have hwindow : window m.buffer b (q.length - b) = q.drop b := by
    have hdrop : m.data.drop b = window m.buffer b (m.bufferLength - b) := by
      rw [data, ← window_zero_left, drop_window, Nat.zero_add]
    rw [hlength', ← hdrop, hdata]
  unfold MessageBuffer.place
  by_cases hspace : maxBufferLength - b < m.contentLength
  · rw [if_pos hspace, havail, hwindow]
    have hroom : 0 + (q.drop b).length ≤
        ((List.range (m.contentLength + 1)).map memory).length := by
      rw [List.length_map, List.length_range, List.length_drop]
      omega
    refine ⟨_, if_pos hroom, ⟨hlength, rfl, hb, rfl, .inr ⟨rfl, ?_, by omega⟩, ?_⟩⟩
    · show (overwrite _ _ _).length = _
      rw [length_overwrite hroom, List.length_map, List.length_range]
    · show (overwrite _ _ _).take _ = _
      have htake := take_overwrite (m := (List.range (m.contentLength + 1)).map memory)
        (l := q.drop b) (Nat.zero_le _)
      rw [List.length_drop, Nat.zero_add, List.take_zero, List.nil_append] at htake
      exact htake
  · rw [if_neg hspace]
    exact ⟨_, rfl, ⟨hlength, rfl, hb, havail, .inl ⟨rfl, by omega, by omega⟩, hwindow⟩⟩

/-! ## What is behind the body -/

/-- The bytes `rest` are there behind the body. -/
structure Behind (m : MessageBuffer) (rest : Bytes) : Prop where
  length_buffer : m.buffer.length = maxBufferLength + 1
  place : (∃ offset, m.content = .inBuffer offset ∧ m.contentAvail = m.contentLength + rest.length ∧
      offset + m.contentAvail ≤ maxBufferLength ∧
      window m.buffer (offset + m.contentLength) rest.length = rest) ∨
    m.content = .allocated ∧ m.contentLength < m.block.length ∧ rest = []

/-- A message that is complete has the rest of the bytes behind it. -/
theorem Holds.behind (h : m.Holds q b n) (hn : b + n ≤ q.length) : m.Behind (q.drop (b + n)) := by
  have havail := h.contentAvail
  refine ⟨h.length_buffer, ?_⟩
  rcases h.place with ⟨hcontent, hfit, hq⟩ | ⟨hcontent, hblock, hq⟩
  · refine .inl ⟨b, hcontent, ?_, by omega, ?_⟩
    · rw [h.contentLength, List.length_drop]
      omega
    · have hbody := h.body_eq
      unfold MessageBuffer.body at hbody
      simp only [hcontent] at hbody
      rw [h.contentLength, List.length_drop, ← List.drop_drop, ← hbody, drop_window]
      congr 1
      omega
  · refine .inr ⟨hcontent, ?_, List.drop_of_length_le (by omega)⟩
    rw [h.contentLength, hblock]
    exact Nat.lt_succ_self _

/-- A store in the place of the body leaves alone what is behind it. -/
theorem Behind.store {rest : Bytes} (h : m.Behind rest) (hl : l.length ≤ m.contentLength) :
    ∃ m', m.storeContent 0 l = some m' ∧ m'.Behind rest := by
  have hlength := h.length_buffer
  rcases h.place with ⟨offset, hcontent, havail, hfit, hrest⟩ | ⟨hcontent, hblock, hrest⟩
  · obtain ⟨hm', hshape⟩ := storeBuffer_spec (m := m) (i := offset + 0) (l := l) (by omega)
    rw [storeContent_inBuffer hcontent, hm']
    refine ⟨_, rfl, hshape.length_buffer.trans hlength,
      .inl ⟨offset, hcontent, havail, hfit, ?_⟩⟩
    show window (overwrite _ _ _) (offset + m.contentLength) rest.length = _
    rw [window_overwrite_after (by omega) (by omega), hrest]
  · have hroom : 0 + l.length ≤ m.block.length := by omega
    rw [storeContent_allocated hcontent hroom]
    refine ⟨_, rfl, hlength, .inr ⟨hcontent, ?_, hrest⟩⟩
    show m.contentLength < (overwrite _ _ _).length
    rw [length_overwrite hroom]
    exact hblock

/-- What is behind the body is preserved as the data of the next message. -/
theorem Behind.preserve {rest : Bytes} (h : m.Behind rest) :
    ∃ m', m.preserve = some m' ∧ m'.data = rest ∧ m'.bufferLength = rest.length ∧
      m'.buffer.length = maxBufferLength + 1 := by
  have hlength := h.length_buffer
  rcases h.place with ⟨offset, hcontent, havail, hfit, hrest⟩ | ⟨hcontent, -, hrest⟩
  · unfold MessageBuffer.preserve
    simp only [hcontent]
    by_cases hmore : m.contentLength < m.contentAvail
    · have hrest' : rest.length = m.contentAvail - m.contentLength := by omega
      rw [if_pos hmore, if_pos (by omega), ← hrest', hrest]
      obtain ⟨hm', hshape⟩ := storeBuffer_spec (m := m) (i := 0) (l := rest) (by omega)
      rw [hm']
      refine ⟨_, rfl, ?_, rfl, hshape.length_buffer.trans hlength⟩
      show (overwrite _ _ _).take _ = _
      have htake := take_overwrite (m := m.buffer) (l := rest) (Nat.zero_le _)
      rwa [Nat.zero_add, List.take_zero, List.nil_append] at htake
    · have hempty : rest = [] := List.eq_nil_of_length_eq_zero (by omega)
      rw [if_neg hmore, hempty]
      exact ⟨_, rfl, rfl, rfl, hlength⟩
  · unfold MessageBuffer.preserve
    simp only [hcontent]
    rw [hrest]
    exact ⟨_, rfl, rfl, rfl, hlength⟩

end MessageBuffer

end AnyRpc
