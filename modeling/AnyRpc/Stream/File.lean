import AnyRpc.Foundation.Text
import AnyRpc.Library.Memory

/-! # File streams

`WriteFileStream` and `ReadFileStream`, each with a buffer of its own between the calls and the file.
What is put is in the file or in the first of the buffers, and what can still be taken is in the
second one or in the rest of the file: neither depends on where the buffers end. A byte of a buffer
that was not written yet has no value. -/

namespace AnyRpc

open Library

/-! ## Writing -/

/-- The data of a `WriteFileStream` whose file is open. -/
structure WriteBuffer where
  /-- What `fwrite` has written. -/
  file : Cells UInt8 := []
  bufferSize : ℕ
  buffer : Cells UInt8
  /-- The place of `current_` in the buffer. -/
  current : ℕ
  bufferSize_pos : 0 < bufferSize
  current_le : current ≤ bufferSize
  bufferSize_lt : bufferSize < buffer.length

/-- `WriteFileStream`, between two calls: the buffer is not full. -/
structure WriteFileStream extends WriteBuffer where
  current_lt : current < bufferSize

namespace WriteBuffer

variable (b : WriteBuffer)

/-- What was put: the file, and behind it what is in the buffer. -/
def contents : Cells UInt8 := b.file ++ b.buffer.take b.current

/-- `Flush`. -/
def flush : WriteFileStream :=
  if h : 0 < b.current then
    { b with
      file := b.file ++ b.buffer.take b.current
      current := 0
      current_le := Nat.zero_le _
      current_lt := b.bufferSize_pos }
  else { b with current_lt := by have := b.bufferSize_pos; omega }

/-- The buffer with more bytes in it. -/
def append (str : Bytes) (h : b.current + str.length ≤ b.bufferSize) : WriteBuffer :=
  { b with
    buffer := overwrite b.buffer b.current (str.map some)
    current := b.current + str.length
    current_le := h
    bufferSize_lt := by
      have hlt := b.bufferSize_lt
      rw [length_overwrite (by rw [List.length_map]; omega)]
      exact hlt }

theorem file_flush : b.flush.file = b.contents := by
  rw [flush, contents]
  split_ifs with h
  · rfl
  · rw [Nat.eq_zero_of_not_pos h, List.take_zero, List.append_nil]

theorem current_flush : b.flush.current = 0 := by
  rw [flush]
  split_ifs with h
  · rfl
  · exact Nat.eq_zero_of_not_pos h

@[simp] theorem contents_flush : b.flush.contents = b.contents := by
  rw [contents, current_flush, file_flush, List.take_zero, List.append_nil]

@[simp] theorem contents_append (str : Bytes) (h : b.current + str.length ≤ b.bufferSize) :
    (b.append str h).contents = b.contents ++ str.map some := by
  have hcurrent : b.current ≤ b.buffer.length := b.current_le.trans b.bufferSize_lt.le
  have htake := take_overwrite (l := str.map some) hcurrent
  rw [List.length_map] at htake
  rw [contents, contents, List.append_assoc, ← htake]
  rfl

end WriteBuffer

namespace WriteFileStream

/-- The constructor, on a file that is empty. -/
def new (bufferSize : ℕ) (h : 0 < bufferSize) : WriteFileStream where
  bufferSize := bufferSize
  buffer := List.replicate (bufferSize + 1) none
  current := 0
  bufferSize_pos := h
  current_le := Nat.zero_le _
  bufferSize_lt := by
    rw [List.length_replicate]
    exact Nat.lt_succ_self _
  current_lt := h

variable (s : WriteFileStream)

/-- `Put(c)`. -/
def putChar (c : UInt8) : WriteFileStream :=
  if h : s.current + 1 = s.bufferSize then (s.append [c] s.current_lt).flush
  else { s.append [c] s.current_lt with current_lt := lt_of_le_of_ne s.current_lt h }

/-- `Put(str, n)`. -/
def put (str : Bytes) : WriteFileStream :=
  if h : s.bufferSize - s.current ≤ str.length then
    -- A string that does not leave the buffer room is written to the file past the buffer.
    { s.flush with file := s.flush.file ++ str.map some }
  else
    { s.append str (by omega) with
      current_lt := show s.current + str.length < s.bufferSize by omega }

/-- `Close`: what is in the file then. -/
def close : Cells UInt8 := s.flush.file

/-- The calls before `Close`. -/
inductive Call where
  | putChar (c : UInt8)
  | put (str : Bytes)
  | flush

/-- The stream after a call. -/
def call : Call → WriteFileStream
  | .putChar c => s.putChar c
  | .put str => s.put str
  | .flush => s.flush

/-- The bytes that a call puts. -/
def Call.bytes : Call → Bytes
  | .putChar c => [c]
  | .put str => str
  | .flush => []

@[simp] theorem contents_putChar (c : UInt8) :
    (s.putChar c).contents = s.contents ++ [some c] := by
  rw [putChar]
  split_ifs
  · rw [WriteBuffer.contents_flush, WriteBuffer.contents_append]
    rfl
  · exact s.contents_append [c] s.current_lt

@[simp] theorem contents_put (str : Bytes) :
    (s.put str).contents = s.contents ++ str.map some := by
  rw [put]
  split_ifs
  · show (s.flush.file ++ str.map some) ++ s.flush.buffer.take s.flush.current = _
    rw [WriteBuffer.current_flush, WriteBuffer.file_flush, List.take_zero, List.append_nil]
  · exact s.contents_append str _

/-- Each call puts its bytes behind the others. -/
theorem contents_call (c : Call) : (s.call c).contents = s.contents ++ c.bytes.map some := by
  cases c with
  | putChar c => exact s.contents_putChar c
  | put str => exact s.contents_put str
  | flush =>
    rw [call, WriteBuffer.contents_flush]
    exact (List.append_nil _).symm

theorem contents_foldl_call (cs : List Call) :
    (cs.foldl call s).contents = s.contents ++ (cs.flatMap Call.bytes).map some := by
  induction cs generalizing s with
  | nil => exact (List.append_nil _).symm
  | cons c cs ih =>
    rw [List.foldl_cons, ih, contents_call, List.flatMap_cons, List.map_append, List.append_assoc]

/-- The file holds what was put, once it is closed. -/
theorem close_foldl_call (bufferSize : ℕ) (h : 0 < bufferSize) (cs : List Call) :
    (cs.foldl call (new bufferSize h)).close = (cs.flatMap Call.bytes).map some := by
  rw [close, WriteBuffer.file_flush, contents_foldl_call]
  rfl

end WriteFileStream

/-! ## Reading -/

/-- The data of a `ReadFileStream` whose file is open. -/
structure ReadBuffer where
  /-- What `fread` still has to read. -/
  rest : Cells UInt8
  bufferSize : ℕ
  buffer : Cells UInt8
  /-- The place of `current_` in the buffer. -/
  current : ℕ
  /-- The place of `bufferLast_` in the buffer. -/
  last : ℕ
  eof : Bool
  count : ℕ
  bufferSize_pos : 0 < bufferSize
  current_le : current ≤ last
  last_le : last ≤ bufferSize
  bufferSize_lt : bufferSize < buffer.length
  rest_eq : eof = true → rest = []
  terminated : eof = true → buffer[last]? = some (some 0)

/-- `ReadFileStream`, between two calls: there is something in the buffer up to the end of the
file. -/
structure ReadFileStream extends ReadBuffer where
  filled : current = last → eof = true

namespace ReadBuffer

variable (b : ReadBuffer)

/-- What can still be taken: what is in the buffer, and behind it the rest of the file. -/
def left : Cells UInt8 := window b.buffer b.current (b.last - b.current) ++ b.rest

theorem zero_le_rest : 0 ≤ b.rest.length := Nat.zero_le _

/-- A short read and the null byte behind it leave the buffer as long as it is. -/
theorem length_overwrite_short (h : b.rest.length < b.bufferSize) :
    (overwrite (overwrite b.buffer 0 b.rest) b.rest.length [some 0]).length = b.buffer.length := by
  have hlt := b.bufferSize_lt
  have hlength : (overwrite b.buffer 0 b.rest).length = b.buffer.length :=
    length_overwrite (by omega)
  rw [length_overwrite (by rw [hlength, List.length_singleton]; omega), hlength]

/-- The null byte is behind what a short read finds. -/
theorem getElem?_overwrite_short (h : b.rest.length < b.bufferSize) :
    (overwrite (overwrite b.buffer 0 b.rest) b.rest.length [some 0])[b.rest.length]? =
      some (some 0) := by
  have hlt := b.bufferSize_lt
  have hlength : (overwrite b.buffer 0 b.rest).length = b.buffer.length :=
    length_overwrite (by omega)
  have htake : ((overwrite b.buffer 0 b.rest).take b.rest.length).length = b.rest.length :=
    List.length_take_of_le (by omega)
  rw [overwrite, List.append_assoc, List.getElem?_append_right htake.le, htake, Nat.sub_self]
  rfl

/-- A read that fills the buffer leaves it as long as it is. -/
theorem length_overwrite_full (h : ¬ b.rest.length < b.bufferSize) :
    (overwrite b.buffer 0 (b.rest.take b.bufferSize)).length = b.buffer.length := by
  have hlt := b.bufferSize_lt
  have htake : (b.rest.take b.bufferSize).length = b.bufferSize :=
    List.length_take_of_le (by omega)
  rw [length_overwrite (by omega)]

/-- `Read()`. A short read is the end of the file, and the buffer ends with a null byte then. -/
def refill : ReadFileStream :=
  if h : b.eof = false ∧ b.current = b.last then
    if hshort : b.rest.length < b.bufferSize then
      { b with
        rest := []
        buffer := overwrite (overwrite b.buffer 0 b.rest) b.rest.length [some 0]
        current := 0
        last := b.rest.length
        eof := true
        current_le := b.zero_le_rest
        last_le := hshort.le
        bufferSize_lt := b.bufferSize_lt.trans_eq (b.length_overwrite_short hshort).symm
        rest_eq := fun _ => rfl
        terminated := fun _ => b.getElem?_overwrite_short hshort
        filled := fun _ => rfl }
    else
      { b with
        rest := b.rest.drop b.bufferSize
        buffer := overwrite b.buffer 0 (b.rest.take b.bufferSize)
        current := 0
        last := b.bufferSize
        current_le := Nat.zero_le _
        last_le := le_rfl
        bufferSize_lt := b.bufferSize_lt.trans_eq (b.length_overwrite_full hshort).symm
        rest_eq := fun heof => absurd (h.1.symm.trans heof) Bool.false_ne_true
        terminated := fun heof => absurd (h.1.symm.trans heof) Bool.false_ne_true
        filled := fun hlast => absurd hlast b.bufferSize_pos.ne }
  else { b with filled := fun hlast => by simpa [hlast] using h }

/-- Refilling the buffer takes nothing. -/
@[simp] theorem left_refill : b.refill.left = b.left := by
  rw [refill]
  split_ifs with h hshort
  · have hlt := b.bufferSize_lt
    have hlength : (overwrite b.buffer 0 b.rest).length = b.buffer.length :=
      length_overwrite (by omega)
    have hread : window (overwrite b.buffer 0 b.rest) 0 b.rest.length = b.rest :=
      window_overwrite_self (Nat.zero_le _)
    show window _ 0 b.rest.length ++ [] = window b.buffer b.current (b.last - b.current) ++ b.rest
    rw [window_overwrite_before (by omega) (by omega), hread, h.2, Nat.sub_self, window_zero,
      List.append_nil, List.nil_append]
  · have htake : (b.rest.take b.bufferSize).length = b.bufferSize :=
      List.length_take_of_le (by omega)
    have hread : window (overwrite b.buffer 0 (b.rest.take b.bufferSize)) 0
        (b.rest.take b.bufferSize).length = b.rest.take b.bufferSize :=
      window_overwrite_self (Nat.zero_le _)
    rw [htake] at hread
    show window _ 0 b.bufferSize ++ b.rest.drop b.bufferSize =
      window b.buffer b.current (b.last - b.current) ++ b.rest
    rw [hread, List.take_append_drop, h.2, Nat.sub_self, window_zero, List.nil_append]
  · rfl

@[simp] theorem count_refill : b.refill.count = b.count := by
  rw [refill]
  split_ifs <;> rfl

/-- The buffer with its first bytes taken. -/
def skip (n : ℕ) (h : n ≤ b.last - b.current) : ReadBuffer :=
  { b with
    current := b.current + n
    current_le := by have := b.current_le; omega }

theorem left_skip (n : ℕ) (h : n ≤ b.last - b.current) : (b.skip n h).left = b.left.drop n := by
  have hlast := b.last_le
  have hlt := b.bufferSize_lt
  have hcurrent := b.current_le
  have hlength : (window b.buffer b.current (b.last - b.current)).length = b.last - b.current :=
    length_window (by omega)
  rw [left, left, List.drop_append_of_le_length (by omega), drop_window, Nat.sub_sub]
  rfl

end ReadBuffer

namespace ReadFileStream

/-- The constructor, on a file that is open. -/
def new (file : Cells UInt8) (bufferSize : ℕ) (h : 0 < bufferSize) : ReadFileStream :=
  ReadBuffer.refill {
    rest := file
    bufferSize := bufferSize
    buffer := List.replicate (bufferSize + 1) none
    current := 0
    last := 0
    eof := false
    count := 0
    bufferSize_pos := h
    current_le := le_rfl
    last_le := Nat.zero_le _
    bufferSize_lt := by
      rw [List.length_replicate]
      exact Nat.lt_succ_self _
    rest_eq := nofun
    terminated := nofun }

variable (s : ReadFileStream)

/-- `Eof`. -/
def atEof : Bool := s.eof && s.current == s.last

/-- `Peek`. -/
def peek : Option UInt8 := s.buffer.getD s.current none

/-- `Tell`. -/
def tell : ℕ := s.count

/-- There is something in the buffer, but at the end of the file. -/
theorem current_lt_of_not_atEof {s : ReadFileStream} (h : ¬ s.atEof = true) :
    s.current < s.last := by
  refine lt_of_le_of_ne s.current_le fun hlast => h ?_
  rw [atEof, s.filled hlast, hlast, beq_self_eq_true]
  rfl

/-- `Get`. -/
def get : Option UInt8 × ReadFileStream :=
  if h : s.atEof then (s.peek, s)
  else
    (s.peek, ReadBuffer.refill
      { s.skip 1 (by have := current_lt_of_not_atEof h; omega) with count := s.count + 1 })

/-- The loop of `Read(ptr, length)`. -/
def readLoop (s : ReadFileStream) (length : ℕ) : Cells UInt8 × ReadFileStream :=
  if _h : 0 < length ∧ ¬ s.atEof then
    let availBytes := min (s.last - s.current) length
    let r := readLoop (s.skip availBytes (min_le_left _ _)).refill (length - availBytes)
    (window s.buffer s.current availBytes ++ r.1, r.2)
  else ([], s)
termination_by length
decreasing_by
  have hlt := current_lt_of_not_atEof _h.2
  omega

/-- `Read(ptr, length)`: the bytes that are copied. -/
def read (length : ℕ) : Cells UInt8 × ReadFileStream :=
  let r := s.readLoop length
  (r.1, { r.2 with count := r.2.count + r.1.length })

/-! ### What the calls take -/

@[simp] theorem left_new (file : Cells UInt8) (bufferSize : ℕ) (h : 0 < bufferSize) :
    (new file bufferSize h).left = file := by
  rw [new, ReadBuffer.left_refill]
  rfl

@[simp] theorem tell_new (file : Cells UInt8) (bufferSize : ℕ) (h : 0 < bufferSize) :
    (new file bufferSize h).tell = 0 := by
  rw [new, tell, ReadBuffer.count_refill]

/-- The end of the file is where there is nothing left to take. -/
theorem atEof_iff : s.atEof = true ↔ s.left = [] := by
  have hcurrent := s.current_le
  have hlast := s.last_le
  have hlt := s.bufferSize_lt
  rw [atEof, Bool.and_eq_true, beq_iff_eq, ReadBuffer.left, List.append_eq_nil_iff]
  constructor
  · rintro ⟨heof, hsame⟩
    rw [hsame, Nat.sub_self, window_zero]
    exact ⟨rfl, s.rest_eq heof⟩
  · rintro ⟨hwindow, -⟩
    have hlength : (window s.buffer s.current (s.last - s.current)).length = s.last - s.current :=
      length_window (by omega)
    rw [hwindow, List.length_nil] at hlength
    have hsame : s.current = s.last := by omega
    exact ⟨s.filled hsame, hsame⟩

/-- `Peek` is the next of the bytes that are left, and a null byte at the end of the file. -/
theorem peek_eq : s.peek = s.left.headD (some 0) := by
  by_cases heof : s.atEof = true
  · rw [s.atEof_iff.mp heof, peek]
    rw [atEof, Bool.and_eq_true, beq_iff_eq] at heof
    rw [List.getD_eq_getElem?_getD, heof.2, s.terminated heof.1]
    rfl
  · have hpos := current_lt_of_not_atEof heof
    have hlast := s.last_le
    have hlt := s.bufferSize_lt
    have hcurrent : s.current < s.buffer.length := by omega
    rw [peek, ReadBuffer.left, window, List.drop_eq_getElem_cons hcurrent,
      List.getD_eq_getElem?_getD, List.getElem?_eq_getElem hcurrent, show s.last - s.current = s.last - s.current - 1 + 1 by omega,
      List.take_succ_cons]
    rfl

@[simp] theorem fst_get : s.get.1 = s.peek := by
  rw [get]
  split_ifs <;> rfl

/-- `Get` takes a byte. -/
@[simp] theorem left_get : s.get.2.left = s.left.drop 1 := by
  rw [get]
  split_ifs with h
  · rw [s.atEof_iff.mp h]
    rfl
  · have hpos := current_lt_of_not_atEof h
    have hone : 1 ≤ s.last - s.current := by omega
    rw [ReadBuffer.left_refill]
    exact s.left_skip 1 hone

theorem tell_get : s.get.2.tell = s.tell + (s.left.take 1).length := by
  rw [get]
  split_ifs with h
  · rw [s.atEof_iff.mp h]
    rfl
  · have hne : s.left ≠ [] := fun hnil => h (s.atEof_iff.mpr hnil)
    rw [tell, ReadBuffer.count_refill, List.length_take,
      Nat.min_eq_left (List.length_pos_iff.mpr hne)]
    rfl

/-- The loop takes as many bytes as are asked for and left. -/
theorem readLoop_spec (length : ℕ) :
    (s.readLoop length).1 = s.left.take length ∧
      (s.readLoop length).2.left = s.left.drop length ∧ (s.readLoop length).2.tell = s.tell := by
  induction s, length using readLoop.induct with
  | case1 s length h availBytes ih =>
    have hlast := s.last_le
    have hlt := s.bufferSize_lt
    have hcurrent := s.current_le
    have havail : availBytes ≤ s.last - s.current := min_le_left _ _
    have hle : availBytes ≤ length := min_le_right _ _
    have hwindow : window s.buffer s.current availBytes = s.left.take availBytes := by
      have hlength : (window s.buffer s.current (s.last - s.current)).length =
          s.last - s.current := length_window (by omega)
      rw [ReadBuffer.left, List.take_append_of_le_length (by omega), take_window _ _ havail]
    obtain ⟨hdata, hleft, htell⟩ := ih
    rw [ReadBuffer.left_refill, ReadBuffer.left_skip] at hdata hleft
    rw [readLoop, dif_pos h]
    refine ⟨?_, ?_, ?_⟩
    · show window s.buffer s.current availBytes ++ (readLoop _ _).1 = _
      rw [hdata, hwindow, ← List.take_add, Nat.add_sub_cancel' hle]
    · show (readLoop _ _).2.left = _
      rw [hleft, List.drop_drop, Nat.add_sub_cancel' hle]
    · show (readLoop _ _).2.tell = _
      rw [htell, tell, ReadBuffer.count_refill]
      rfl
  | case2 s length h =>
    rw [readLoop, dif_neg h]
    by_cases hlength : 0 < length
    · have heof : s.atEof = true := by
        by_contra hnot
        exact h ⟨hlength, hnot⟩
      rw [s.atEof_iff.mp heof, List.take_nil, List.drop_nil]
      exact ⟨rfl, rfl, rfl⟩
    · rw [Nat.eq_zero_of_not_pos hlength, List.take_zero, List.drop_zero]
      exact ⟨rfl, rfl, rfl⟩

@[simp] theorem fst_read (length : ℕ) : (s.read length).1 = s.left.take length :=
  (s.readLoop_spec length).1

@[simp] theorem left_read (length : ℕ) : (s.read length).2.left = s.left.drop length :=
  (s.readLoop_spec length).2.1

theorem tell_read (length : ℕ) :
    (s.read length).2.tell = s.tell + (s.left.take length).length := by
  obtain ⟨hdata, -, htell⟩ := s.readLoop_spec length
  rw [← hdata, ← htell]
  rfl

/-! ### Runs -/

/-- The calls after the file is opened. -/
inductive Call where
  | peek
  | get
  | read (length : ℕ)

/-- The bytes that a call takes, and the stream after it. `Get` takes none at the end of the file. -/
def call : Call → Cells UInt8 × ReadFileStream
  | .peek => ([], s)
  | .get => (if s.atEof then [] else [s.get.1], s.get.2)
  | .read length => s.read length

/-- The bytes that a run takes, and the stream after it. -/
def run (s : ReadFileStream) : List Call → Cells UInt8 × ReadFileStream
  | [] => ([], s)
  | c :: cs => ((s.call c).1 ++ ((s.call c).2.run cs).1, ((s.call c).2.run cs).2)

/-- How many bytes a call asks for. -/
def Call.length : Call → ℕ
  | .peek => 0
  | .get => 1
  | .read length => length

/-- A call takes as many of the bytes that are left as it asks for, and `Tell` counts them. -/
theorem call_spec (c : Call) :
    (s.call c).1 = s.left.take c.length ∧ (s.call c).2.left = s.left.drop c.length ∧
      (s.call c).2.tell = s.tell + (s.call c).1.length := by
  cases c with
  | peek => exact ⟨rfl, rfl, rfl⟩
  | get =>
    have htaken : (s.call .get).1 = s.left.take 1 := by
      rw [call, fst_get, peek_eq]
      by_cases h : s.atEof = true
      · rw [if_pos h, s.atEof_iff.mp h]
        rfl
      · rw [if_neg h]
        cases hleft : s.left with
        | nil => exact absurd (s.atEof_iff.mpr hleft) h
        | cons c r => rfl
    refine ⟨htaken, s.left_get, ?_⟩
    rw [htaken]
    exact s.tell_get
  | read length =>
    refine ⟨s.fst_read length, s.left_read length, ?_⟩
    rw [call, fst_read]
    exact s.tell_read length

/-- A run takes the first of the bytes that are left, and `Tell` counts them. -/
theorem run_spec (cs : List Call) :
    (s.run cs).1 ++ (s.run cs).2.left = s.left ∧
      (s.run cs).2.tell = s.tell + (s.run cs).1.length := by
  induction cs generalizing s with
  | nil => exact ⟨rfl, rfl⟩
  | cons c cs ih =>
    obtain ⟨htaken, hleft, htell⟩ := s.call_spec c
    obtain ⟨hsplit, hcount⟩ := ih (s.call c).2
    rw [run]
    refine ⟨?_, ?_⟩
    · rw [List.append_assoc, hsplit, hleft, htaken, List.take_append_drop]
    · rw [hcount, htell, List.length_append, Nat.add_assoc]

end ReadFileStream

/-! ## From one stream to the other -/

/-- What is put in a file can be taken from it again, whatever the sizes of the two buffers and the
lengths of the calls are. In any state of the stream that reads, the bytes taken are the first of the
bytes put, `Tell` is their number, and the end of the file is reached exactly if they are all of
them. `Peek` is what `Get` returns next, and a call takes the bytes that stand behind those taken. -/
theorem ReadFileStream.reads_file (writeSize readSize : ℕ) (hwrite : 1 ≤ writeSize)
    (hread : 1 ≤ readSize) (ws : List WriteFileStream.Call) (rs : List ReadFileStream.Call) :
    let bytes := (ws.flatMap WriteFileStream.Call.bytes).map some
    let file := (ws.foldl WriteFileStream.call (.new writeSize hwrite)).close
    let taken := ((ReadFileStream.new file readSize hread).run rs).1
    let s := ((ReadFileStream.new file readSize hread).run rs).2
    taken <+: bytes ∧ s.tell = taken.length ∧ (s.atEof = true ↔ taken = bytes) ∧
      s.get.1 = s.peek ∧ (s.atEof = false → bytes[taken.length]? = some s.peek) ∧
      ∀ c : ReadFileStream.Call, (s.call c).1 = (bytes.drop taken.length).take c.length := by
  intro bytes file taken s
  obtain ⟨hrun, htell⟩ := (ReadFileStream.new file readSize hread).run_spec rs
  have hfile : file = bytes := WriteFileStream.close_foldl_call writeSize hwrite ws
  have hsplit : taken ++ s.left = bytes := hrun.trans ((left_new file readSize hread).trans hfile)
  rw [tell_new, Nat.zero_add] at htell
  have hleft : s.left = bytes.drop taken.length := by
    rw [← hsplit, List.drop_left]
  refine ⟨⟨s.left, hsplit⟩, htell, ?_, s.fst_get, ?_, fun c => ?_⟩
  · rw [atEof_iff]
    constructor
    · intro hnil
      rw [← hsplit, hnil, List.append_nil]
    · intro hall
      rw [hleft, hall, List.drop_length]
  · intro heof
    have hne : s.left ≠ [] := fun hnil => by
      rw [s.atEof_iff.mpr hnil] at heof
      cases heof
    rw [peek_eq, ← List.head?_drop, ← hleft]
    cases h : s.left with
    | nil => exact absurd h hne
    | cons c r => rfl
  · rw [(s.call_spec c).1, hleft]

/-- A file of three bytes through buffers of two and of three bytes. -/
theorem ReadFileStream.reads_file_three :
    let ws : List WriteFileStream.Call := [.putChar 0x61, .put [0x62, 0x63]]
    let rs : List ReadFileStream.Call := [.get, .peek, .read 2]
    let bytes := (ws.flatMap WriteFileStream.Call.bytes).map some
    let file := (ws.foldl WriteFileStream.call (.new 2 (by decide))).close
    let taken := ((ReadFileStream.new file 3 (by decide)).run rs).1
    let s := ((ReadFileStream.new file 3 (by decide)).run rs).2
    taken <+: bytes ∧ s.tell = taken.length ∧ (s.atEof = true ↔ taken = bytes) ∧
      s.get.1 = s.peek ∧ (s.atEof = false → bytes[taken.length]? = some s.peek) ∧
      ∀ c : ReadFileStream.Call, (s.call c).1 = (bytes.drop taken.length).take c.length :=
  reads_file 2 3 (by decide) (by decide) _ _

end AnyRpc
