import AnyRpc.Library.Memory
import AnyRpc.Stream.WriteSegmented
import Mathlib.Data.List.Forall2

/-! # The buffers of a segmented write stream

`WriteSegmentedStream` as it is stored: the allocations with the counters of what is used, and the
length that is counted separately. A byte of an allocation that was not written yet has no value, so
that nothing is read that was not put. It refines the stream of `WriteSegmentedStream.bytes`, and what
is read back buffer by buffer is what was put since the last `Clear`. -/

namespace AnyRpc.Allocated

open Library

/-- `BufferSegment`. What is used leaves room in the allocation for a null byte. -/
structure BufferSegment where
  buffer : Cells UInt8
  capacity : ℕ
  used : ℕ
  used_le : used ≤ capacity
  capacity_lt : capacity < buffer.length

namespace BufferSegment

/-- The constructor, on an allocation. The capacity is one less than what is allocated. -/
def new (capacity : ℕ) (h : 0 < capacity) : BufferSegment where
  buffer := List.replicate capacity none
  capacity := capacity - 1
  used := 0
  used_le := Nat.zero_le _
  capacity_lt := by
    rw [List.length_replicate]
    omega

variable (seg : BufferSegment)

/-- The room that is left. -/
def availableSpace : ℕ := seg.capacity - seg.used

/-- The bytes that are used. -/
def contents : Cells UInt8 := seg.buffer.take seg.used

/-- `memcpy` behind what is used. -/
def append (str : Bytes) (h : str.length ≤ seg.availableSpace) : BufferSegment where
  buffer := overwrite seg.buffer seg.used (str.map some)
  capacity := seg.capacity
  used := seg.used + str.length
  used_le := by
    have hused := seg.used_le
    rw [availableSpace] at h
    omega
  capacity_lt := by
    have hused := seg.used_le
    have hcapacity := seg.capacity_lt
    rw [availableSpace] at h
    rw [length_overwrite (by rw [List.length_map]; omega)]
    exact hcapacity

/-- The null byte behind what is used. -/
def terminate : BufferSegment where
  buffer := overwrite seg.buffer seg.used [some 0]
  capacity := seg.capacity
  used := seg.used
  used_le := seg.used_le
  capacity_lt := by
    have hused := seg.used_le
    have hcapacity := seg.capacity_lt
    rw [length_overwrite (by rw [List.length_singleton]; omega)]
    exact hcapacity

@[simp] theorem used_terminate : seg.terminate.used = seg.used := rfl

@[simp] theorem capacity_terminate : seg.terminate.capacity = seg.capacity := rfl

theorem used_lt : seg.used < seg.buffer.length := seg.used_le.trans_lt seg.capacity_lt

@[simp] theorem length_contents : seg.contents.length = seg.used :=
  List.length_take_of_le seg.used_lt.le

@[simp] theorem contents_append (str : Bytes) (h : str.length ≤ seg.availableSpace) :
    (seg.append str h).contents = seg.contents ++ str.map some := by
  have htake := take_overwrite (l := str.map some) seg.used_lt.le
  rw [List.length_map] at htake
  exact htake

/-- The null byte is no part of what is used. -/
@[simp] theorem contents_terminate : seg.terminate.contents = seg.contents :=
  window_overwrite_before (j := 0) (n := seg.used) seg.used_lt.le (Nat.zero_add _).le

/-- Behind what is used stands the null byte. -/
theorem getElem?_terminate : seg.terminate.buffer[seg.used]? = some (some 0) := by
  have hused : (seg.buffer.take seg.used).length = seg.used := seg.length_contents
  show (overwrite seg.buffer seg.used [some 0])[seg.used]? = some (some 0)
  rw [overwrite, List.append_assoc, List.getElem?_append_right hused.le, hused, Nat.sub_self]
  rfl

end BufferSegment

/-- `WriteSegmentedStream`. There is always a last buffer, and a buffer that is added has room. -/
structure WriteSegmentedStream where
  /-- `buffers_`, except for the last one. -/
  front : List BufferSegment
  /-- `buffers_.back()`. -/
  back : BufferSegment
  length : ℕ
  nextCapacity : ℕ
  maxBufferSize : ℕ
  two_le_nextCapacity : 2 ≤ nextCapacity
  two_le_maxBufferSize : 2 ≤ maxBufferSize

namespace WriteSegmentedStream

open AnyRpc.WriteSegmentedStream (staticBufferSize two_le_capacity)

/-- The constructor. -/
def new (maxBufferSize : ℕ) (h : 2 ≤ maxBufferSize) : WriteSegmentedStream where
  front := []
  back := .new staticBufferSize (by decide)
  length := 0
  nextCapacity := min (2 * staticBufferSize) maxBufferSize
  maxBufferSize := maxBufferSize
  two_le_nextCapacity := two_le_capacity h
  two_le_maxBufferSize := h

section

variable (s : WriteSegmentedStream)

/-- `Clear`. What was put in the static buffer counts as not written any more. -/
def clear : WriteSegmentedStream where
  front := []
  back := .new staticBufferSize (by decide)
  length := 0
  nextCapacity := min (2 * staticBufferSize) s.maxBufferSize
  maxBufferSize := s.maxBufferSize
  two_le_nextCapacity := le_min (by decide) s.two_le_maxBufferSize
  two_le_maxBufferSize := s.two_le_maxBufferSize

/-- `buffers_`. -/
def buffers : List BufferSegment := s.front ++ [s.back]

/-- `AddBuffer`. -/
def addBuffer : WriteSegmentedStream where
  front := s.buffers
  back := .new s.nextCapacity (by have := s.two_le_nextCapacity; omega)
  length := s.length
  nextCapacity := min (2 * s.nextCapacity) s.maxBufferSize
  maxBufferSize := s.maxBufferSize
  two_le_nextCapacity := le_min (by have := s.two_le_nextCapacity; omega) s.two_le_maxBufferSize
  two_le_maxBufferSize := s.two_le_maxBufferSize

/-- `memcpy` to the last buffer, with the counters that go with it. -/
def append (str : Bytes) (h : str.length ≤ s.back.availableSpace) : WriteSegmentedStream :=
  { s with back := s.back.append str h, length := s.length + str.length }

/-- A buffer that is added has room. -/
theorem availableSpace_addBuffer : s.addBuffer.back.availableSpace = s.nextCapacity - 1 := rfl

end

/-- `Put(c)`. -/
def putChar (s : WriteSegmentedStream) (c : UInt8) : WriteSegmentedStream :=
  if h : s.back.availableSpace = 0 then
    s.addBuffer.append [c] (by
      have hnext := s.two_le_nextCapacity
      rw [availableSpace_addBuffer, List.length_singleton]
      omega)
  else s.append [c] (Nat.one_le_iff_ne_zero.mpr h)

/-- `Put(str, n)`. -/
def put (s : WriteSegmentedStream) (str : Bytes) : WriteSegmentedStream :=
  if h : str.length ≤ s.back.availableSpace then s.append str h
  else
    (s.append (str.take s.back.availableSpace) (List.length_take_le _ _)).addBuffer.put
      (str.drop s.back.availableSpace)
termination_by 2 * str.length + (if s.back.availableSpace = 0 then 1 else 0)
decreasing_by
  have hnext := s.two_le_nextCapacity
  have hroom : (s.append (str.take s.back.availableSpace)
      (List.length_take_le _ _)).addBuffer.back.availableSpace = s.nextCapacity - 1 := rfl
  rw [hroom, List.length_drop, if_neg (show s.nextCapacity - 1 ≠ 0 by omega)]
  split_ifs <;> omega

/-- The loop of `GetBuffer`: the buffer in which an offset lies, with its position and the offset in
it. -/
def find : List BufferSegment → ℕ → Option (ℕ × BufferSegment × ℕ)
  | [], _ => none
  | seg :: segs, offset =>
    if offset < seg.used then some (0, seg, offset)
    else (find segs (offset - seg.used)).map fun found => (found.1 + 1, found.2)

/-- The null byte behind what is used of one of the buffers. -/
def terminate (s : WriteSegmentedStream) (i : ℕ) : WriteSegmentedStream :=
  { s with
    front := s.front.modify i BufferSegment.terminate
    back := if i = s.front.length then s.back.terminate else s.back }

/-- `GetBuffer`: the memory behind the pointer that is returned, and `segmentLength`. -/
def getBuffer (s : WriteSegmentedStream) (offset : ℕ) :
    Option (Cells UInt8 × ℕ) × WriteSegmentedStream :=
  if s.length ≤ offset then (none, s)
  else
    match find s.buffers offset with
    | none => (none, s)
    | some (i, seg, offset) =>
      (some (seg.terminate.buffer.drop offset, seg.used - offset), s.terminate i)

/-! ## What the buffers hold -/

end WriteSegmentedStream

/-- The buffer of a stream is stored in an allocation. -/
structure BufferSegment.Holds (seg : BufferSegment) (t : AnyRpc.BufferSegment) : Prop where
  contents : seg.contents = t.bytes.map some
  capacity : seg.capacity = t.capacity

namespace BufferSegment.Holds

variable {seg : BufferSegment} {t : AnyRpc.BufferSegment}

theorem used_eq (h : seg.Holds t) : seg.used = t.bytes.length := by
  rw [← seg.length_contents, h.contents, List.length_map]

theorem availableSpace_eq (h : seg.Holds t) :
    seg.availableSpace = t.capacity - t.bytes.length := by
  rw [availableSpace, h.capacity, h.used_eq]

theorem terminate (h : seg.Holds t) : seg.terminate.Holds t :=
  ⟨seg.contents_terminate.trans h.contents, h.capacity⟩

end BufferSegment.Holds

namespace WriteSegmentedStream

/-- The stream is stored in the allocations of its buffers. -/
structure Refines (s : WriteSegmentedStream) (t : AnyRpc.WriteSegmentedStream) : Prop where
  front : List.Forall₂ BufferSegment.Holds s.front t.front
  back : s.back.Holds t.back
  length : s.length = t.length
  nextCapacity : s.nextCapacity = t.nextCapacity
  maxBufferSize : s.maxBufferSize = t.maxBufferSize

theorem refines_new (maxBufferSize : ℕ) (h : 2 ≤ maxBufferSize) :
    (new maxBufferSize h).Refines (.new maxBufferSize h) where
  front := .nil
  back := ⟨List.take_zero, rfl⟩
  length := rfl
  nextCapacity := rfl
  maxBufferSize := rfl

namespace Refines

variable {s : WriteSegmentedStream} {t : AnyRpc.WriteSegmentedStream}

theorem buffers (h : s.Refines t) :
    List.Forall₂ BufferSegment.Holds s.buffers (t.front ++ [t.back]) :=
  List.rel_append h.front (.cons h.back .nil)

theorem availableSpace_eq (h : s.Refines t) : s.back.availableSpace = t.availableSpace :=
  h.back.availableSpace_eq

theorem clear (h : s.Refines t) : s.clear.Refines t.clear where
  front := .nil
  back := ⟨List.take_zero, rfl⟩
  length := rfl
  nextCapacity := congrArg (min _) h.maxBufferSize
  maxBufferSize := h.maxBufferSize

theorem addBuffer (h : s.Refines t) : s.addBuffer.Refines t.addBuffer where
  front := h.buffers
  back := ⟨List.take_zero, congrArg (· - 1) h.nextCapacity⟩
  length := by
    rw [AnyRpc.WriteSegmentedStream.length, AnyRpc.WriteSegmentedStream.bytes_addBuffer]
    exact h.length
  nextCapacity := congrArg₂ min (congrArg (2 * ·) h.nextCapacity) h.maxBufferSize
  maxBufferSize := h.maxBufferSize

theorem append (h : s.Refines t) (str : Bytes) (hs : str.length ≤ s.back.availableSpace)
    (ht : str.length ≤ t.availableSpace) : (s.append str hs).Refines (t.append str ht) where
  front := h.front
  back := by
    refine ⟨?_, h.back.capacity⟩
    show (s.back.append str hs).contents = (t.back.bytes ++ str).map some
    rw [BufferSegment.contents_append, h.back.contents, List.map_append]
  length := by
    rw [AnyRpc.WriteSegmentedStream.length, AnyRpc.WriteSegmentedStream.bytes_append,
      List.length_append]
    exact congrArg (· + str.length) h.length
  nextCapacity := h.nextCapacity
  maxBufferSize := h.maxBufferSize

theorem putChar (h : s.Refines t) (c : UInt8) : (s.putChar c).Refines (t.putChar c) := by
  have hroom := h.availableSpace_eq
  by_cases hfull : s.back.availableSpace = 0
  · have hfull' : t.availableSpace = 0 := hroom ▸ hfull
    rw [WriteSegmentedStream.putChar, dif_pos hfull, AnyRpc.WriteSegmentedStream.putChar,
      dif_pos hfull']
    exact h.addBuffer.append _ _ _
  · have hfull' : ¬ t.availableSpace = 0 := hroom ▸ hfull
    rw [WriteSegmentedStream.putChar, dif_neg hfull, AnyRpc.WriteSegmentedStream.putChar,
      dif_neg hfull']
    exact h.append _ _ _

/-- Both streams add their buffers at the same places of the string. -/
theorem put (h : s.Refines t) (str : Bytes) : (s.put str).Refines (t.put str) := by
  induction s, str using WriteSegmentedStream.put.induct generalizing t with
  | case1 s str hfits =>
    have hfits' : str.length ≤ t.availableSpace := h.availableSpace_eq ▸ hfits
    rw [WriteSegmentedStream.put, dif_pos hfits, AnyRpc.WriteSegmentedStream.put, dif_pos hfits']
    exact h.append _ _ _
  | case2 s str hfits ih =>
    have hroom := h.availableSpace_eq
    have hfits' : ¬ str.length ≤ t.availableSpace := hroom ▸ hfits
    rw [WriteSegmentedStream.put, dif_neg hfits, AnyRpc.WriteSegmentedStream.put, dif_neg hfits']
    simp only [← hroom]
    exact ih (h.append _ _ _).addBuffer

/-- The null byte behind a buffer changes nothing. -/
theorem terminate (h : s.Refines t) (i : ℕ) : (s.terminate i).Refines t where
  front := by
    have hmodify : ∀ {segs : List BufferSegment} {ts : List AnyRpc.BufferSegment} (i : ℕ),
        List.Forall₂ BufferSegment.Holds segs ts →
          List.Forall₂ BufferSegment.Holds (segs.modify i BufferSegment.terminate) ts := by
      intro segs ts i hsegs
      induction hsegs generalizing i with
      | nil => cases i <;> exact .nil
      | cons hseg hsegs ih =>
        cases i with
        | zero => exact .cons hseg.terminate hsegs
        | succ i => exact .cons hseg (ih i)
    exact hmodify i h.front
  back := by
    show (if i = s.front.length then s.back.terminate else s.back).Holds t.back
    split_ifs
    · exact h.back.terminate
    · exact h.back
  length := h.length
  nextCapacity := h.nextCapacity
  maxBufferSize := h.maxBufferSize

theorem getBuffer (h : s.Refines t) (offset : ℕ) : (s.getBuffer offset).2.Refines t := by
  rw [WriteSegmentedStream.getBuffer]
  split_ifs
  · exact h
  · cases find s.buffers offset with
    | none => exact h
    | some found => exact h.terminate found.1

end Refines

/-- The loop of `GetBuffer` finds the rest of the buffer in which the offset lies. -/
theorem find_spec {segs : List BufferSegment} {ts : List AnyRpc.BufferSegment}
    (h : List.Forall₂ BufferSegment.Holds segs ts) {offset : ℕ}
    (hne : AnyRpc.WriteSegmentedStream.getBuffer.find ts offset ≠ []) :
    ∃ i seg k, find segs offset = some (i, seg, k) ∧ k < seg.used ∧
      seg.contents.drop k =
        (AnyRpc.WriteSegmentedStream.getBuffer.find ts offset).map some := by
  induction h generalizing offset with
  | nil => exact absurd rfl hne
  | @cons seg t segs ts hseg hsegs ih =>
    rw [AnyRpc.WriteSegmentedStream.getBuffer.find] at hne ⊢
    rw [find, hseg.used_eq]
    by_cases hlt : offset < t.bytes.length
    · rw [if_pos hlt, if_pos hlt]
      refine ⟨0, seg, offset, rfl, hseg.used_eq ▸ hlt, ?_⟩
      rw [hseg.contents, List.map_drop]
    · rw [if_neg hlt] at hne
      rw [if_neg hlt, if_neg hlt]
      obtain ⟨i, seg', k, hfind, hk, hdrop⟩ := ih hne
      exact ⟨i + 1, seg', k, by rw [hfind]; rfl, hk, hdrop⟩

/-! ## Runs -/

/-- The calls of a stream. -/
inductive Call where
  | putChar (c : UInt8)
  | put (str : Bytes)
  | clear
  | getBuffer (offset : ℕ)

/-- A stream after a call. -/
def call (s : WriteSegmentedStream) : Call → WriteSegmentedStream
  | .putChar c => s.putChar c
  | .put str => s.put str
  | .clear => s.clear
  | .getBuffer offset => (s.getBuffer offset).2

/-- What was put since the last `Clear`, after one more call. -/
def putSince (bytes : Bytes) : Call → Bytes
  | .putChar c => bytes ++ [c]
  | .put str => bytes ++ str
  | .clear => []
  | .getBuffer _ => bytes

/-- A stream stores bytes. -/
def Stores (s : WriteSegmentedStream) (bytes : Bytes) : Prop := ∃ t, s.Refines t ∧ t.bytes = bytes

theorem stores_new {maxBufferSize : ℕ} {h : 2 ≤ maxBufferSize} :
    (new maxBufferSize h).Stores [] :=
  ⟨_, refines_new maxBufferSize h, rfl⟩

/-- One call. -/
theorem Stores.call {s : WriteSegmentedStream} {bytes : Bytes} (h : s.Stores bytes) (c : Call) :
    (s.call c).Stores (putSince bytes c) := by
  obtain ⟨t, href, rfl⟩ := h
  cases c with
  | putChar c =>
    refine ⟨_, href.putChar c, ?_⟩
    rw [AnyRpc.WriteSegmentedStream.putChar_eq_put, AnyRpc.WriteSegmentedStream.bytes_put]
    rfl
  | put str => exact ⟨_, href.put str, AnyRpc.WriteSegmentedStream.bytes_put t str⟩
  | clear => exact ⟨_, href.clear, rfl⟩
  | getBuffer offset => exact ⟨_, href.getBuffer offset, rfl⟩

/-- Any calls. -/
theorem Stores.calls {s : WriteSegmentedStream} {bytes : Bytes} (h : s.Stores bytes)
    (cs : List Call) : (cs.foldl WriteSegmentedStream.call s).Stores (cs.foldl putSince bytes) := by
  induction cs generalizing s bytes with
  | nil => exact h
  | cons c cs ih => exact ih (h.call c)

/-! ## Reading back -/

/-- What `GetBuffer` returns is stored: some bytes from the offset on, and a null byte behind
them. -/
structure Returned (bytes : Bytes) (offset : ℕ) (memory : Cells UInt8) (segmentLength : ℕ) :
    Prop where
  pos : 0 < segmentLength
  le : offset + segmentLength ≤ bytes.length
  contents : memory.take segmentLength = (window bytes offset segmentLength).map some
  terminated : memory[segmentLength]? = some (some 0)

/-- The loop that reads a stream buffer by buffer, from an offset on. -/
inductive Reads : WriteSegmentedStream → ℕ → Cells UInt8 → Prop
  | done {s : WriteSegmentedStream} {offset : ℕ} (h : s.length ≤ offset) : Reads s offset []
  | next {s s' : WriteSegmentedStream} {offset segmentLength : ℕ} {memory out : Cells UInt8}
      (h : offset < s.length) (hget : s.getBuffer offset = (some (memory, segmentLength), s'))
      (hrest : Reads s' (offset + segmentLength) out) :
      Reads s offset (memory.take segmentLength ++ out)

namespace Stores

variable {s : WriteSegmentedStream} {bytes : Bytes}

theorem length_eq (h : s.Stores bytes) : s.length = bytes.length := by
  obtain ⟨t, href, rfl⟩ := h
  exact href.length

/-- `GetBuffer` within the length returns. -/
theorem getBuffer_spec (h : s.Stores bytes) {offset : ℕ} (hoffset : offset < s.length) :
    ∃ memory segmentLength s', s.getBuffer offset = (some (memory, segmentLength), s') ∧
      Returned bytes offset memory segmentLength ∧ s'.Stores bytes := by
  have hafter := h.call (.getBuffer offset)
  have hlength := h.length_eq
  obtain ⟨t, href, rfl⟩ := h
  obtain ⟨hne, hbefore⟩ := t.getBuffer_spec (href.length ▸ hoffset)
  obtain ⟨i, seg, k, hfind, hk, hdrop⟩ := find_spec href.buffers hne
  have hget : s.getBuffer offset =
      (some (seg.terminate.buffer.drop k, seg.used - k), s.terminate i) := by
    rw [getBuffer, if_neg (by omega), hfind]
  have hlen : (t.getBuffer offset).length = seg.used - k := by
    have hmap := congrArg List.length hdrop
    rw [List.length_drop, BufferSegment.length_contents, List.length_map] at hmap
    exact hmap.symm
  obtain ⟨rest, hrest⟩ := hbefore
  have hwindow : window t.bytes offset (seg.used - k) = t.getBuffer offset := by
    rw [window, ← hrest, ← hlen, List.take_left]
  have hle : (t.getBuffer offset).length ≤ (t.bytes.drop offset).length := by
    rw [← hrest, List.length_append]
    exact Nat.le_add_right _ _
  rw [List.length_drop] at hle
  refine ⟨_, _, _, hget, ⟨by omega, by omega, ?_, ?_⟩, ?_⟩
  · rw [hwindow]
    have hcontents : (seg.terminate.buffer.drop k).take (seg.used - k) = seg.contents.drop k := by
      rw [← seg.contents_terminate, BufferSegment.contents, List.drop_take]
      rfl
    rw [hcontents, hdrop]
    rfl
  · rw [List.getElem?_drop, Nat.add_sub_cancel' hk.le]
    exact seg.getElem?_terminate
  · rw [WriteSegmentedStream.call, hget] at hafter
    exact hafter

/-- Reading buffer by buffer gives all of the bytes. -/
theorem reads (h : s.Stores bytes) (offset : ℕ) : Reads s offset ((bytes.drop offset).map some) := by
  induction hn : bytes.length - offset using Nat.strong_induction_on generalizing s offset with
  | _ n ih =>
    have hlength := h.length_eq
    by_cases hoffset : offset < s.length
    · obtain ⟨memory, segmentLength, s', hget, hreturned, hstores⟩ := h.getBuffer_spec hoffset
      have hpos := hreturned.pos
      have hsplit : (bytes.drop offset).map some = memory.take segmentLength ++
          (bytes.drop (offset + segmentLength)).map some := by
        rw [hreturned.contents, ← List.map_append, window, ← List.drop_drop, List.take_append_drop]
      rw [hsplit]
      exact .next hoffset hget (ih _ (by omega) hstores _ rfl)
    · rw [List.drop_of_length_le (by omega)]
      exact .done (by omega)

end Stores

/-- After any calls, the length is the number of bytes put since the last `Clear`, `GetBuffer`
returns some of them from any offset within the length, and reading on behind what is returned gives
all of them. In no buffer is more used than its capacity, which leaves room for a null byte. -/
theorem reads_back (maxBufferSize : ℕ) (h : 2 ≤ maxBufferSize) (cs : List Call) :
    let s := cs.foldl call (new maxBufferSize h)
    let bytes := cs.foldl putSince []
    s.length = bytes.length ∧
      (∀ offset < s.length, ∃ memory segmentLength s',
        s.getBuffer offset = (some (memory, segmentLength), s') ∧
          Returned bytes offset memory segmentLength) ∧
      Reads s 0 (bytes.map some) ∧
      ∀ seg ∈ s.buffers, seg.used ≤ seg.capacity ∧ seg.capacity < seg.buffer.length := by
  intro s bytes
  have hstores : s.Stores bytes := stores_new.calls cs
  refine ⟨hstores.length_eq, fun offset hoffset => ?_, hstores.reads 0,
    fun seg _ => ⟨seg.used_le, seg.capacity_lt⟩⟩
  obtain ⟨memory, segmentLength, s', hget, hreturned, -⟩ := hstores.getBuffer_spec hoffset
  exact ⟨memory, segmentLength, s', hget, hreturned⟩

/-- More bytes than the static buffer takes, so that behind it there are buffers of a single byte. -/
theorem reads_back_singles :
    let cs : List Call := [.put [0x61, 0x62], .clear, .putChar 0x63, .put (List.replicate 1025 0x64),
      .getBuffer 1024, .putChar 0x65]
    let s := cs.foldl call (new 2 le_rfl)
    let bytes := cs.foldl putSince []
    s.length = bytes.length ∧
      (∀ offset < s.length, ∃ memory segmentLength s',
        s.getBuffer offset = (some (memory, segmentLength), s') ∧
          Returned bytes offset memory segmentLength) ∧
      Reads s 0 (bytes.map some) ∧
      ∀ seg ∈ s.buffers, seg.used ≤ seg.capacity ∧ seg.capacity < seg.buffer.length :=
  reads_back 2 le_rfl _

end WriteSegmentedStream

end AnyRpc.Allocated
