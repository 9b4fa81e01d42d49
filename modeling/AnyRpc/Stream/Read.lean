import AnyRpc.Foundation.Exception

/-! # Streams to read from

`ReadStringStream` and `InSituStringStream`. Both are what is left of a buffer. A string that is
decoded in place is written behind the position that is read next, into bytes that are already
consumed, so that only the bytes of the current string have to be kept (`Region`). -/

namespace AnyRpc

/-- The part of the buffer from `begin_` to `src_`, while a string is decoded in place. -/
structure Region where
  /-- The bytes from `begin_` to `dst_`. -/
  written : Bytes := []
  /-- The bytes from `dst_` to `src_`. -/
  gap : Bytes := []
  deriving DecidableEq, Repr

/-- A stream to read from. -/
structure ReadStream where
  /-- The bytes from `src_` to the end of the stream. -/
  rest : Bytes
  /-- The byte that stands in memory right after the end of the stream. -/
  beyond : UInt8 := 0
  /-- Where `dst_` and `begin_` are set. -/
  region : Option Region := none
  inSitu : Bool
  copy : Bool
  tell : ℕ := 0
  deriving DecidableEq, Repr

namespace ReadStream

/-- `ReadStringStream(src)`: the string ends at its null byte. -/
def readString (src : Bytes) : ReadStream where
  rest := cString src
  inSitu := false
  copy := true

/-- `InSituStringStream(src, length, insitu, copy)`, and the byte that stands after the buffer. -/
def inSituString (src : Bytes) (inSitu copy : Bool) (beyond : UInt8) : ReadStream where
  rest := src
  beyond := beyond
  inSitu := inSitu
  copy := copy || !inSitu

section

variable (s : ReadStream)

/-- `Eof`. -/
def eof : Bool := s.rest.isEmpty

/-- `Peek`. -/
def peek : UInt8 := s.rest.headD 0

/-- The stream after its next bytes are consumed. -/
def advance (n : ℕ) : ReadStream :=
  { s with
    rest := s.rest.drop n
    region := s.region.map fun r => { r with gap := r.gap ++ s.rest.take n }
    tell := s.tell + min n s.rest.length }

/-- `Get`. -/
def get : UInt8 × ReadStream := (s.peek, s.advance 1)

/-- `GetClear`. -/
def getClear : UInt8 × ReadStream :=
  match s.rest with
  | [] => (0, s)
  | c :: rest =>
    (c, { s with
      rest
      region := s.region.map fun r => { r with gap := r.gap ++ [0] }
      tell := s.tell + 1 })

/-- `Read`: as many of the bytes as there are. -/
def read (length : ℕ) : Bytes × ReadStream := (s.rest.take length, s.advance length)

/-- `PutBegin`. -/
def putBegin : ReadStream := { s with region := some {} }

/-- The bytes of the buffer from `begin_` on. -/
def memory : Bytes :=
  match s.region with
  | some r => r.written ++ r.gap ++ s.rest
  | none => s.rest

/-- The string of a length at `begin_`. -/
def strArg (length : ℕ) : StrArg where
  bytes := s.memory.take length
  after := s.memory.getD length s.beyond
  copy := s.copy

/-- `PutEnd`: the number of bytes written. -/
def putEnd : ℕ × ReadStream :=
  ((s.region.elim 0 fun r => r.written.length), { s with region := none })

end

/-- The fault of a call without `PutBegin`. -/
def notBegun : AnyRpcException :=
  { code := ErrorCode.illegalCall, message := ascii "PutBegin was not called" }

/-- `Skip`: the bytes skipped are taken as written. -/
def skip (length : ℕ) : Exec ReadStream ℕ := fun s =>
  match s.region with
  | none => .error (.exception notBegun) s
  | some r =>
    let n := min length s.rest.length
    .ok n { s with
      rest := s.rest.drop n
      region := some { written := r.written ++ (r.gap ++ s.rest.take n).take n
                       gap := (r.gap ++ s.rest.take n).drop n }
      tell := s.tell + n }

/-- `Put(c)`: a byte that would take the place of one that is still to be read is an overrun. -/
def put (c : UInt8) : Exec ReadStream Unit := fun s =>
  match s.region with
  | none => .error (.exception notBegun) s
  | some r =>
    match r.gap with
    | _ :: gap => .ok () { s with region := some { written := r.written ++ [c], gap } }
    | [] => .error (.exception { code := ErrorCode.bufferOverrun,
                                 message := ascii "Buffer overrun, src_=" ++ cString s.rest })
        { s with rest := match s.rest with
          | [] => []
          | _ :: rest => c :: rest }

/-- `Put(str, n)`, which looks for the room before it writes. The addresses that its message shows
are left out. -/
def putBytes (str : Bytes) : Exec ReadStream Unit := fun s =>
  match s.region with
  | none => .error (.exception notBegun) s
  | some r =>
    if str.length ≤ r.gap.length then
      .ok () { s with region := some { written := r.written ++ str, gap := r.gap.drop str.length } }
    else
      .error (.exception { code := ErrorCode.bufferOverrun
                           message := ascii "Dst will overrun src" }) s

/-! ## Consuming -/

section

variable (s : ReadStream)

@[simp] theorem rest_advance (n : ℕ) : (s.advance n).rest = s.rest.drop n := rfl

@[simp] theorem beyond_advance (n : ℕ) : (s.advance n).beyond = s.beyond := rfl

@[simp] theorem inSitu_advance (n : ℕ) : (s.advance n).inSitu = s.inSitu := rfl

@[simp] theorem copy_advance (n : ℕ) : (s.advance n).copy = s.copy := rfl

@[simp] theorem advance_zero : s.advance 0 = s := by
  obtain ⟨rest, beyond, region, inSitu, copy, tell⟩ := s
  cases region <;> simp [advance]

/-- Consuming in two steps. -/
@[simp] theorem advance_advance (m n : ℕ) : (s.advance m).advance n = s.advance (m + n) := by
  obtain ⟨rest, beyond, region, inSitu, copy, tell⟩ := s
  simp only [advance, List.drop_drop, List.length_drop, mk.injEq, true_and]
  constructor
  · cases region <;> simp [List.take_add]
  · omega

theorem region_advance (h : s.region = none) (n : ℕ) : (s.advance n).region = none := by
  rw [advance, h]
  rfl

/-- What remains after a prefix is consumed. -/
theorem rest_advance_of_append {text rest : Bytes} (h : s.rest = text ++ rest) :
    (s.advance text.length).rest = rest := by
  rw [rest_advance, h, List.drop_left]

/-- What remains after all but a rest is consumed. -/
theorem rest_advance_sub {text rest : Bytes} (h : s.rest = text ++ rest) :
    (s.advance (s.rest.length - rest.length)).rest = rest := by
  rw [rest_advance, h, List.length_append, Nat.add_sub_cancel, List.drop_left]

end

end ReadStream

end AnyRpc
