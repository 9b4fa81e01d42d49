import AnyRpc.Document.Build
import AnyRpc.Stream.Read

/-! # Readers

A reader turns a stream into calls of a handler. What a call returns never reaches the reader: a
call can only end the parsing by throwing. So a reader is modelled as a computation that records the
calls it makes, with the position of the stream at each (`Call`), and `parseStream` makes them: the
first one that throws ends the parsing, else what the reader itself throws does. -/

namespace AnyRpc

open Library Handler

/-- A call of the handler, with the position of the stream at that time. -/
structure Call where
  event : Event
  tell : ℕ
  deriving DecidableEq, Repr

/-- The state of a reader, with the fields of the derived class. -/
structure ReaderState (τ : Type) where
  is : ReadStream
  calls : List Call := []
  sub : τ

/-- A computation of a reader. -/
abbrev Reader (τ α : Type) := Exec (ReaderState τ) α

/-- The calls that a reader has made. -/
def ReaderState.events {τ : Type} (s : ReaderState τ) : List Event := s.calls.map Call.event

namespace Reader

variable {τ : Type}

/-! ## Access to the stream -/

def eof : Reader τ Bool := do return (← get).is.eof

def peek : Reader τ UInt8 := do return (← get).is.peek

/-- `is_.Get()`. -/
def getChar : Reader τ UInt8 := fun s => .ok s.is.peek { s with is := s.is.advance 1 }

/-- `is_.GetClear()`. -/
def getClear : Reader τ UInt8 := fun s => .ok s.is.getClear.1 { s with is := s.is.getClear.2 }

/-- `is_.Read(ptr, length)`. -/
def read (length : ℕ) : Reader τ Bytes := fun s =>
  .ok (s.is.rest.take length) { s with is := s.is.advance length }

/-- An operation of the stream. -/
def onStream {α : Type} (op : Exec ReadStream α) : Reader τ α := fun s =>
  match op s.is with
  | .ok a is => .ok a { s with is }
  | .error f is => .error f { s with is }

def putBegin : Reader τ Unit := modify fun s => { s with is := s.is.putBegin }

def skip (length : ℕ) : Reader τ ℕ := onStream (ReadStream.skip length)

/-- `is_.Put(c)`. -/
def putChar (c : UInt8) : Reader τ Unit := onStream (ReadStream.put c)

def putEnd : Reader τ ℕ := fun s => .ok s.is.putEnd.1 { s with is := s.is.putEnd.2 }

/-- The string at `begin_`, of which the reader passes the address and a length. -/
def strArg (length : ℕ) : Reader τ StrArg := do return (← get).is.strArg length

/-- A call of the handler. -/
def call (e : Event) : Reader τ Unit :=
  modify fun s => { s with calls := s.calls ++ [⟨e, s.is.tell⟩] }

/-- `SkipWhiteSpace`: `Get` while `Peek` is white space. -/
def skipWhiteSpace : Reader τ Unit :=
  modify fun s => { s with is := s.is.advance (s.is.rest.takeWhile isSpace).length }

/-- `anyrpc_throw(AnyRpcErrorTermination, ...)`. -/
def throwTermination {α : Type} : Reader τ α :=
  anyrpcThrow ErrorCode.termination (ascii "Parsing was terminated")

/-- `anyrpc_throw(AnyRpcErrorValueInvalid, ...)`. -/
def throwValueInvalid {α : Type} : Reader τ α :=
  anyrpcThrow ErrorCode.valueInvalid (ascii "Invalid value")

section

variable (s : ReaderState τ)

@[simp] theorem eof_apply : (eof : Reader τ Bool) s = .ok s.is.eof s := rfl

@[simp] theorem peek_apply : (peek : Reader τ UInt8) s = .ok s.is.peek s := rfl

@[simp] theorem getChar_apply :
    (getChar : Reader τ UInt8) s = .ok s.is.peek { s with is := s.is.advance 1 } := rfl

@[simp] theorem read_apply (length : ℕ) :
    (read length : Reader τ Bytes) s =
      .ok (s.is.rest.take length) { s with is := s.is.advance length } := rfl

@[simp] theorem call_apply (e : Event) :
    (call e : Reader τ Unit) s = .ok () { s with calls := s.calls ++ [⟨e, s.is.tell⟩] } := rfl

@[simp] theorem skipWhiteSpace_apply :
    (skipWhiteSpace : Reader τ Unit) s =
      .ok () { s with is := s.is.advance (s.is.rest.takeWhile isSpace).length } := rfl

end

/-! ## Parsing into a handler -/

/-- What parsing leaves: the handler, and the parse error of the reader. -/
structure Parsed (σ τ : Type) where
  handler : σ
  parseError : AnyRpcException := .none
  /-- The reader when it stopped. -/
  reader : ReaderState τ

/-- `HasParseError`. -/
def Parsed.hasParseError {σ : Type} (r : Parsed σ τ) : Bool := r.parseError.isErrorSet

variable {σ : Type} [Handler σ]

/-- The calls, up to the first one that faults, with the position of the stream at that one. -/
def makeCalls : List Call → σ → EStateM.Result (Fault × ℕ) σ Unit
  | [], h => .ok () h
  | c :: cs, h =>
    match handle c.event h with
    | .ok _ h => makeCalls cs h
    | .error f h => .error (f, c.tell) h

/-- The end of parsing with a fault: an exception becomes the parse error, at an offset. -/
def faulted (f : Fault) (offset : ℕ) (h : σ) (s : ReaderState τ) : Except Fault (Parsed σ τ) :=
  match f with
  | .exception e =>
    .ok { handler := endDocument h, parseError := { e with offset }, reader := s }
  | f => .error f

/-- `ParseStream(handler)`, given the reader's own `ParseStream`. -/
def parseStream (parse : Reader τ Unit) (s : ReaderState τ) (h : σ) : Except Fault (Parsed σ τ) :=
  let r := parse { s with calls := [] }
  match makeCalls (reached r).calls (startDocument h) with
  | .error (f, offset) h => faulted f offset h (reached r)
  | .ok _ h =>
    match r with
    | .ok _ s => .ok { handler := endDocument h, reader := s }
    | .error f s => faulted f s.is.tell h s

/-- Making the calls delivers their events. -/
theorem makeCalls_of_ok {cs : List Call} {h h' : σ}
    (hdeliver : deliver (cs.map Call.event) h = .ok h') : makeCalls cs h = .ok () h' := by
  induction cs generalizing h with
  | nil =>
    cases hdeliver
    rfl
  | cons c cs ih =>
    rw [List.map_cons, deliver_cons, outcome] at hdeliver
    rw [makeCalls]
    cases hc : handle c.event h with
    | ok _ h₁ =>
      rw [hc] at hdeliver
      exact ih hdeliver
    | error f h₁ =>
      rw [hc] at hdeliver
      cases hdeliver

/-- The first call that faults ends them. -/
theorem makeCalls_of_error {cs : List Call} {h : σ} {f : Fault}
    (hdeliver : deliver (cs.map Call.event) h = .error f) :
    ∃ offset h', makeCalls cs h = .error (f, offset) h' := by
  induction cs generalizing h with
  | nil => cases hdeliver
  | cons c cs ih =>
    rw [List.map_cons, deliver_cons, outcome] at hdeliver
    rw [makeCalls]
    cases hc : handle c.event h with
    | ok _ h₁ =>
      rw [hc] at hdeliver
      exact ih hdeliver
    | error f' h₁ =>
      rw [hc] at hdeliver
      cases hdeliver
      exact ⟨c.tell, h₁, rfl⟩

/-- Parsing whose calls all return, from a reader that returns. -/
theorem parseStream_of_ok {parse : Reader τ Unit} {s s' : ReaderState τ} {h h' : σ}
    (hparse : parse { s with calls := [] } = .ok () s')
    (hdeliver : deliver s'.events (startDocument h) = .ok h') :
    parseStream parse s h = .ok { handler := endDocument h', reader := s' } := by
  have hcalls := makeCalls_of_ok hdeliver
  simp only [parseStream, hparse, reached_ok, hcalls]

/-- Parsing with a call that throws. -/
theorem parseStream_of_deliver_error {parse : Reader τ Unit} {s s' : ReaderState τ} {h : σ}
    {e : AnyRpcException} (hparse : reached (parse { s with calls := [] }) = s')
    (hdeliver : deliver s'.events (startDocument h) = .error (.exception e)) :
    ∃ h' offset, parseStream parse s h =
      .ok { handler := endDocument h', parseError := { e with offset }, reader := s' } := by
  obtain ⟨offset, h', hcalls⟩ := makeCalls_of_error hdeliver
  refine ⟨h', offset, ?_⟩
  simp only [parseStream, hparse, hcalls, faulted]

/-- Parsing whose calls all return, from a reader that throws. -/
theorem parseStream_of_error {parse : Reader τ Unit} {s s' : ReaderState τ} {h h' : σ}
    {e : AnyRpcException} (hparse : parse { s with calls := [] } = .error (.exception e) s')
    (hdeliver : deliver s'.events (startDocument h) = .ok h') :
    parseStream parse s h = .ok { handler := endDocument h',
                                  parseError := { e with offset := s'.is.tell }, reader := s' } := by
  have hcalls := makeCalls_of_ok hdeliver
  simp only [parseStream, hparse, reached_error, hcalls, faulted]

end Reader

end AnyRpc
