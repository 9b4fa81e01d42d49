import AnyRpc.Library.Memory
import AnyRpc.Connection.Receive

/-! # The buffer of a message

`Connection` and `Client` keep the message they receive in the same way: a fixed buffer takes the
header, the body stays behind it where there is room, and otherwise goes to an allocation of its own.
Both are memory here, and an operation gives `none` when it would store outside of its block. -/

namespace AnyRpc

open Library

/-- `MaxBufferLength`. -/
def maxBufferLength : ℕ := 2048

/-- `MaxContentLength`. -/
def maxContentLength : ℕ := 1000000

/-- The members for the message that is received. -/
structure MessageBuffer where
  /-- `buffer_`, which has `MaxBufferLength + 1` bytes. -/
  buffer : Bytes
  /-- The amount of data in `buffer_`. -/
  bufferLength : ℕ := 0
  /-- Number of bytes for the body. -/
  contentLength : ℕ := 0
  /-- Where `request_` or `response_` points. -/
  content : RequestPointer := .null
  /-- The block that is allocated, when `content` points to it. -/
  block : Bytes := []
  /-- Number of bytes of the body in the buffer. -/
  contentAvail : ℕ := 0
  /-- What `malloc` finds in memory. -/
  heap : ℕ → UInt8 := fun _ => 0

namespace MessageBuffer

/-- The data in `buffer_`. -/
def data (m : MessageBuffer) : Bytes := m.buffer.take m.bufferLength

/-- Store bytes in `buffer_`. -/
def storeBuffer (i : ℕ) (l : Bytes) (m : MessageBuffer) : Option MessageBuffer :=
  if i + l.length ≤ m.buffer.length then some { m with buffer := overwrite m.buffer i l } else none

/-- Store bytes at an offset from `request_` or `response_`. -/
def storeContent (i : ℕ) (l : Bytes) (m : MessageBuffer) : Option MessageBuffer :=
  match m.content with
  | .null => none
  | .inBuffer offset => m.storeBuffer (offset + i) l
  | .allocated =>
    if i + l.length ≤ m.block.length then some { m with block := overwrite m.block i l } else none

/-- A number of bytes from `request_` or `response_` on. -/
def body (m : MessageBuffer) (n : ℕ) : Bytes :=
  match m.content with
  | .null => []
  | .inBuffer offset => window m.buffer offset n
  | .allocated => m.block.take n

/-- The buffer is emptied. -/
def discard (m : MessageBuffer) : MessageBuffer := { m with bufferLength := 0 }

/-- The data behind the message moves to the start of the buffer, if it is to be preserved. Where the
message was allocated, no more than the message was read. -/
def preserve (m : MessageBuffer) : Option MessageBuffer :=
  match m.content with
  | .null => some m
  | .inBuffer offset =>
    if m.contentLength < m.contentAvail then
      -- `memmove` reads from the end of the message, and stores at the start of the buffer.
      let dataRemaining := m.contentAvail - m.contentLength
      if offset + m.contentAvail ≤ m.buffer.length then
        (m.storeBuffer 0 (window m.buffer (offset + m.contentLength) dataRemaining)).map
          fun m => { m with bufferLength := dataRemaining }
      else none
    else some m.discard
  | .allocated => some m.discard

/-- The reset of the members after a message; an allocation is freed. -/
def clear (m : MessageBuffer) : MessageBuffer :=
  { m with contentLength := 0, content := .null, block := [], contentAvail := 0 }

/-- Find a place for the body, which starts at a position of the buffer and of which `contentAvail`
bytes are there: behind the header, or in an allocation to which they are copied. What the allocation
holds at first is given. -/
def place (memory : ℕ → UInt8) (bodyStart : ℕ) (m : MessageBuffer) : Option MessageBuffer :=
  if maxBufferLength - bodyStart < m.contentLength then
    { m with
      content := .allocated
      block := (List.range (m.contentLength + 1)).map memory }.storeContent 0
        (window m.buffer bodyStart m.contentAvail)
  else some { m with content := .inBuffer bodyStart }

end MessageBuffer

end AnyRpc
