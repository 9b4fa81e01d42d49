import AnyRpc.Foundation.Text

/-! # Segmented write streams

`WriteSegmentedStream` collects what is written in a list of buffers, so that nothing is copied when
it grows. The bytes written are the concatenation of the buffers (`WriteSegmentedStream.bytes`), and
`GetBuffer` gives access to them one buffer at a time. -/

namespace AnyRpc

/-- `BufferSegment`: a buffer with the part of it that is used. -/
structure BufferSegment where
  /-- The first `used_` bytes of the buffer. -/
  bytes : Bytes
  /-- `capacity_`, which leaves one byte of the allocation for a null byte. -/
  capacity : ℕ
  used_le : bytes.length ≤ capacity

/-- `WriteSegmentedStream`. There is always a last buffer, and a buffer that is added has room. -/
structure WriteSegmentedStream where
  /-- `buffers_`, except for the last one. -/
  front : List BufferSegment
  /-- `buffers_.back()`. -/
  back : BufferSegment
  /-- The length of the next buffer to be allocated. -/
  nextCapacity : ℕ
  maxBufferSize : ℕ
  two_le_nextCapacity : 2 ≤ nextCapacity
  two_le_maxBufferSize : 2 ≤ maxBufferSize

namespace WriteSegmentedStream

def staticBufferSize : ℕ := 1024
def defaultMaxBufferSize : ℕ := 64 * 1024

/-- There is room in the buffer that is added next. -/
theorem two_le_capacity {maxBufferSize : ℕ} (h : 2 ≤ maxBufferSize) :
    2 ≤ min (2 * staticBufferSize) maxBufferSize :=
  le_min (by decide) h

/-- The constructor. -/
def new (maxBufferSize : ℕ) (h : 2 ≤ maxBufferSize) : WriteSegmentedStream where
  front := []
  back := ⟨[], staticBufferSize - 1, Nat.zero_le _⟩
  nextCapacity := min (2 * staticBufferSize) maxBufferSize
  maxBufferSize := maxBufferSize
  two_le_nextCapacity := two_le_capacity h
  two_le_maxBufferSize := h

/-- The constructor without an argument. -/
def newDefault : WriteSegmentedStream := new defaultMaxBufferSize (by decide)

/-- `Clear`. -/
def clear (s : WriteSegmentedStream) : WriteSegmentedStream where
  front := []
  back := ⟨[], staticBufferSize - 1, Nat.zero_le _⟩
  nextCapacity := min (2 * staticBufferSize) s.maxBufferSize
  maxBufferSize := s.maxBufferSize
  two_le_nextCapacity := le_min (by decide) s.two_le_maxBufferSize
  two_le_maxBufferSize := s.two_le_maxBufferSize

/-- All that is written to the stream. -/
def bytes (s : WriteSegmentedStream) : Bytes :=
  (s.front.map BufferSegment.bytes).flatten ++ s.back.bytes

/-- `Length`. -/
def length (s : WriteSegmentedStream) : ℕ := s.bytes.length

/-- The room that is left in the last buffer. -/
def availableSpace (s : WriteSegmentedStream) : ℕ := s.back.capacity - s.back.bytes.length

/-- `AddBuffer`. -/
def addBuffer (s : WriteSegmentedStream) : WriteSegmentedStream where
  front := s.front ++ [s.back]
  back := ⟨[], s.nextCapacity - 1, Nat.zero_le _⟩
  nextCapacity := min (2 * s.nextCapacity) s.maxBufferSize
  maxBufferSize := s.maxBufferSize
  two_le_nextCapacity :=
    le_min (by have := s.two_le_nextCapacity; omega) s.two_le_maxBufferSize
  two_le_maxBufferSize := s.two_le_maxBufferSize

/-- `memcpy` to the last buffer, within the room that is left. -/
def append (s : WriteSegmentedStream) (str : Bytes) (h : str.length ≤ s.availableSpace) :
    WriteSegmentedStream :=
  { s with back := ⟨s.back.bytes ++ str, s.back.capacity, by
      have := s.back.used_le
      rw [availableSpace] at h
      rw [List.length_append]
      omega⟩ }

/-- `Put(str, n)`: fill the last buffer, then add another one for what remains. -/
def put (s : WriteSegmentedStream) (str : Bytes) : WriteSegmentedStream :=
  if h : str.length ≤ s.availableSpace then s.append str h
  else
    (s.append (str.take s.availableSpace) (List.length_take_le _ _)).addBuffer.put
      (str.drop s.availableSpace)
termination_by 2 * str.length + (if s.availableSpace = 0 then 1 else 0)
decreasing_by
  have hnext := s.two_le_nextCapacity
  have hroom : (s.append (str.take s.availableSpace)
      (List.length_take_le _ _)).addBuffer.availableSpace = s.nextCapacity - 1 := rfl
  rw [hroom, List.length_drop, if_neg (show s.nextCapacity - 1 ≠ 0 by omega)]
  split_ifs <;> omega

/-- `Put(c)`: another buffer is added when the last one is full. -/
def putChar (s : WriteSegmentedStream) (c : UInt8) : WriteSegmentedStream :=
  if h : s.availableSpace = 0 then
    s.addBuffer.append [c] (by
      have := s.two_le_nextCapacity
      show 1 ≤ s.nextCapacity - 1
      omega)
  else s.append [c] (Nat.one_le_iff_ne_zero.mpr h)

/-- `GetBuffer`: the rest of the buffer in which an offset lies, and nothing behind the end. -/
def getBuffer (s : WriteSegmentedStream) (offset : ℕ) : Bytes :=
  find (s.front ++ [s.back]) offset
where
  /-- The loop over the buffers. -/
  find : List BufferSegment → ℕ → Bytes
    | [], _ => []
    | seg :: segs, offset =>
      if offset < seg.bytes.length then seg.bytes.drop offset
      else find segs (offset - seg.bytes.length)

/-- What a sequence of insertions leaves in a new stream. -/
def written (strs : List Bytes) : WriteSegmentedStream := strs.foldl put newDefault

/-! ## The bytes of a stream -/

theorem bytes_addBuffer (s : WriteSegmentedStream) : s.addBuffer.bytes = s.bytes := by
  simp [bytes, addBuffer]

theorem bytes_append (s : WriteSegmentedStream) (str : Bytes) (h : str.length ≤ s.availableSpace) :
    (s.append str h).bytes = s.bytes ++ str := by
  simp [bytes, append]

/-- Writing a character is writing a string of one. -/
theorem putChar_eq_put (s : WriteSegmentedStream) (c : UInt8) : s.putChar c = s.put [c] := by
  by_cases h : s.availableSpace = 0
  · have hsame : s.append [] (Nat.zero_le _) = s := by simp [append]
    have hroom : ([c] : Bytes).length ≤ s.addBuffer.availableSpace := by
      have := s.two_le_nextCapacity
      show 1 ≤ s.nextCapacity - 1
      omega
    have hfull : ¬ ([c] : Bytes).length ≤ s.availableSpace := by simp [h]
    rw [putChar, dif_pos h, put, dif_neg hfull]
    simp only [h, List.take_zero, List.drop_zero, hsame]
    rw [put, dif_pos hroom]
  · have hroom : ([c] : Bytes).length ≤ s.availableSpace := Nat.one_le_iff_ne_zero.mpr h
    rw [putChar, dif_neg h, put, dif_pos hroom]

/-- Writing appends. -/
@[simp] theorem bytes_put (s : WriteSegmentedStream) (str : Bytes) :
    (s.put str).bytes = s.bytes ++ str := by
  induction s, str using put.induct with
  | case1 s str h => rw [put, dif_pos h, bytes_append]
  | case2 s str h ih =>
    rw [put, dif_neg h, ih, bytes_addBuffer, bytes_append, List.append_assoc,
      List.take_append_drop]

/-- The bytes after a sequence of insertions. -/
theorem bytes_foldl_put (s : WriteSegmentedStream) (strs : List Bytes) :
    (strs.foldl put s).bytes = s.bytes ++ strs.flatten := by
  induction strs generalizing s with
  | nil => simp
  | cons str strs ih => rw [List.foldl_cons, ih, bytes_put, List.flatten_cons, List.append_assoc]

/-- A new stream holds what is written to it. -/
@[simp] theorem bytes_written (strs : List Bytes) : (written strs).bytes = strs.flatten :=
  bytes_foldl_put newDefault strs

/-- One string that fits the first buffer. -/
theorem written_singleton {str : Bytes} (h : str.length ≤ staticBufferSize - 1) :
    written [str] = { newDefault with back := ⟨str, staticBufferSize - 1, h⟩ } := by
  have hroom : str.length ≤ newDefault.availableSpace := h
  rw [written, List.foldl_cons, List.foldl_nil, put, dif_pos hroom]
  rfl

/-! ## Reading buffer by buffer -/

/-- The rest of a buffer is not empty, and it is where the bytes continue. -/
theorem find_spec (segs : List BufferSegment) {offset : ℕ}
    (h : offset < (segs.map BufferSegment.bytes).flatten.length) :
    getBuffer.find segs offset ≠ [] ∧
      getBuffer.find segs offset <+: (segs.map BufferSegment.bytes).flatten.drop offset := by
  induction segs generalizing offset with
  | nil => simp at h
  | cons seg segs ih =>
    rw [List.map_cons, List.flatten_cons, List.length_append] at h
    rw [getBuffer.find, List.map_cons, List.flatten_cons]
    by_cases hseg : offset < seg.bytes.length
    · rw [if_pos hseg, List.drop_append_of_le_length hseg.le]
      exact ⟨by simpa using hseg, List.prefix_append _ _⟩
    · rw [if_neg hseg, List.drop_append, List.drop_eq_nil_of_le (by omega), List.nil_append]
      exact ih (by omega)

/-- `GetBuffer` within the bytes is a part of them that starts at the offset. -/
theorem getBuffer_spec (s : WriteSegmentedStream) {offset : ℕ} (h : offset < s.length) :
    s.getBuffer offset ≠ [] ∧ s.getBuffer offset <+: s.bytes.drop offset := by
  have hbytes : s.bytes = ((s.front ++ [s.back]).map BufferSegment.bytes).flatten := by
    simp [bytes]
  rw [length, hbytes] at h
  rw [getBuffer, hbytes]
  exact find_spec _ h

/-- The only buffer of a stream holds all of its bytes. -/
theorem getBuffer_zero {s : WriteSegmentedStream} (hfront : s.front = []) (h : 0 < s.length) :
    s.getBuffer 0 = s.bytes := by
  have hbytes : s.bytes = s.back.bytes := by simp [bytes, hfront]
  rw [length, hbytes] at h
  rw [getBuffer, hfront, List.nil_append, getBuffer.find, if_pos h, hbytes, List.drop_zero]

/-- What fits the first buffer stays in it. -/
theorem front_put {s : WriteSegmentedStream} (str : Bytes) (hfront : s.front = [])
    (hcapacity : s.back.capacity = staticBufferSize - 1)
    (h : s.length + str.length ≤ staticBufferSize - 1) :
    (s.put str).front = [] ∧ (s.put str).back.capacity = staticBufferSize - 1 := by
  have hlength : s.length = s.back.bytes.length := by simp [length, bytes, hfront]
  have hroom : str.length ≤ s.availableSpace := by
    rw [availableSpace, hcapacity]
    omega
  rw [put, dif_pos hroom]
  exact ⟨hfront, hcapacity⟩

/-- A stream to which no more is written than its first buffer holds has no other buffer. -/
theorem front_written {strs : List Bytes} (h : strs.flatten.length ≤ staticBufferSize - 1) :
    (written strs).front = [] := by
  suffices hsuff : ∀ s : WriteSegmentedStream, s.front = [] →
      s.back.capacity = staticBufferSize - 1 →
      s.length + strs.flatten.length ≤ staticBufferSize - 1 → (strs.foldl put s).front = [] by
    exact hsuff newDefault rfl rfl (by simpa [length, bytes, newDefault, new] using h)
  clear h
  intro s hfront hcapacity h
  induction strs generalizing s with
  | nil => exact hfront
  | cons str strs ih =>
    rw [List.flatten_cons, List.length_append] at h
    obtain ⟨hfront', hcapacity'⟩ := front_put str hfront hcapacity (by omega)
    refine ih _ hfront' hcapacity' ?_
    rw [length, bytes_put, List.length_append, ← length]
    omega

/-- The first buffer is the static one, which is full where there is another one. -/
def FillsStatic (s : WriteSegmentedStream) : Prop :=
  (s.front = [] ∧ s.back.capacity = staticBufferSize - 1) ∨
    ∃ first rest, s.front = first :: rest ∧ first.bytes.length = staticBufferSize - 1

theorem fillsStatic_newDefault : newDefault.FillsStatic := .inl ⟨rfl, rfl⟩

/-- The static buffer is full when another one is added. -/
theorem FillsStatic.addBuffer {s : WriteSegmentedStream} (h : s.FillsStatic)
    (hfull : s.availableSpace = 0) : s.addBuffer.FillsStatic := by
  have hfront : s.addBuffer.front = s.front ++ [s.back] := rfl
  rcases h with ⟨hnil, hcapacity⟩ | ⟨first, rest, hcons, hlength⟩
  · refine .inr ⟨s.back, [], by rw [hfront, hnil, List.nil_append], ?_⟩
    have hused := s.back.used_le
    rw [availableSpace, hcapacity] at hfull
    omega
  · exact .inr ⟨first, rest ++ [s.back], by rw [hfront, hcons, List.cons_append], hlength⟩

theorem FillsStatic.put {s : WriteSegmentedStream} (h : s.FillsStatic) (str : Bytes) :
    (s.put str).FillsStatic := by
  induction s, str using put.induct with
  | case1 s str hroom =>
    rw [WriteSegmentedStream.put, dif_pos hroom]
    exact h
  | case2 s str hroom ih =>
    rw [WriteSegmentedStream.put, dif_neg hroom]
    have happend : (s.append (str.take s.availableSpace) (List.length_take_le _ _)).FillsStatic := h
    refine ih (happend.addBuffer ?_)
    show s.back.capacity - (s.back.bytes ++ str.take s.availableSpace).length = 0
    rw [List.length_append, List.length_take]
    rw [availableSpace] at hroom ⊢
    omega

theorem FillsStatic.foldl_put {s : WriteSegmentedStream} (h : s.FillsStatic) (strs : List Bytes) :
    (strs.foldl WriteSegmentedStream.put s).FillsStatic := by
  induction strs generalizing s with
  | nil => exact h
  | cons str strs ih => exact ih (h.put str)

/-- The first buffer holds as many bytes as it has room for. -/
theorem FillsStatic.getBuffer_zero {s : WriteSegmentedStream} (h : s.FillsStatic)
    (hlength : 0 < s.length) : s.getBuffer 0 = s.bytes.take (staticBufferSize - 1) := by
  rcases h with ⟨hfront, hcapacity⟩ | ⟨first, rest, hfront, hfull⟩
  · have hused := s.back.used_le
    have hbytes : s.bytes = s.back.bytes := by simp [bytes, hfront]
    rw [WriteSegmentedStream.getBuffer_zero hfront hlength, hbytes, List.take_of_length_le (by omega)]
  · have hpos : 0 < first.bytes.length := by rw [hfull]; decide
    have hbytes : s.bytes = first.bytes ++ ((rest.map BufferSegment.bytes).flatten ++ s.back.bytes) := by
      simp [bytes, hfront]
    rw [getBuffer, hfront, List.cons_append, getBuffer.find, if_pos hpos, hbytes, List.drop_zero,
      ← hfull, List.take_left]

/-! ## Clearing -/

theorem clear_put (s : WriteSegmentedStream) (str : Bytes) : (s.put str).clear = s.clear := by
  induction s, str using put.induct with
  | case1 s str h =>
    rw [put, dif_pos h]
    rfl
  | case2 s str h ih =>
    rw [put, dif_neg h, ih]
    rfl

theorem clear_putChar (s : WriteSegmentedStream) (c : UInt8) : (s.putChar c).clear = s.clear := by
  rw [putChar_eq_put, clear_put]

theorem clear_newDefault : newDefault.clear = newDefault := rfl

theorem clear_foldl_put (texts : List Bytes) (s : WriteSegmentedStream) :
    (texts.foldl put s).clear = s.clear := by
  induction texts generalizing s with
  | nil => rfl
  | cons text texts ih => rw [List.foldl_cons, ih, clear_put]

end WriteSegmentedStream

end AnyRpc
