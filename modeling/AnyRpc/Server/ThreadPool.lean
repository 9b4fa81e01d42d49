import AnyRpc.Connection.Process
import AnyRpc.Library.Ownership

/-! # The server with a thread pool

`ServerTP`: the main thread reads from all connections and puts those with a request into a queue, from
which workers take them to execute it. The steps are those of the main loop for one connection, the
rounds of `AcceptConnection`, and for a worker taking a connection, `Process` and `SetActive`. -/

namespace AnyRpc

open Library

/-- What the server uses of the connections that it creates. -/
structure ConnectionKind (κ : Type) where
  /-- `Process(executeAfterRead)`: whether it throws an exception, and the connection that it leaves. It
  gives nothing while it is not over. -/
  process : Bool → κ → Option (Bool × κ)
  connectionState : κ → ConnectionState
  setCloseState : κ → κ
  forcedDisconnectAllowed : κ → Bool

/-- A connection with its members for the server; `id` stands for its address. -/
structure Pooled (κ : Type) where
  id : ℕ
  connection : κ
  active : Bool := true
  lastTransactionTime : ℕ

/-- What a worker does. -/
inductive Worker where
  /-- It waits for work. -/
  | idle
  /-- It has taken a connection from the queue. -/
  | holding (id : ℕ)
  /-- `Process` is over, and `SetActive` is next. -/
  | processed (id : ℕ)
  deriving DecidableEq, Repr

/-- The connection that a worker holds, between taking it and `SetActive`. -/
def Worker.held : Worker → Option ℕ
  | .idle => none
  | .holding id => some id
  | .processed id => some id

/-- What the main thread does. `ready` are the connections that `select` has found ready. -/
inductive MainPhase (κ : Type) where
  /-- It is at the top of its loop. -/
  | selecting
  /-- `select` is over, and the socket of the server may be ready. -/
  | accepting (ready : List ℕ)
  /-- It is in the loop of `AcceptConnection`, with the connection that it is to create, at a time. -/
  | admitting (ready : List ℕ) (connection : κ) (time : ℕ)
  /-- It processes the connections, of which some are still to come. -/
  | serving (ready todo : List ℕ)

/-- `ServerTP`, with workers `ι`. -/
structure ServerTP (κ ι : Type) where
  maxConnections : ℕ
  forcedDisconnectAllowed : Bool
  connections : List (Pooled κ)
  workQueue : List ℕ
  workers : ι → Worker
  main : MainPhase κ
  /-- The addresses that were in use are below this one. -/
  nextId : ℕ

namespace ServerTP

variable {κ ι : Type} (kind : ConnectionKind κ)

/-! ## Connections -/

/-- The addresses of the connections. -/
def ids (s : ServerTP κ ι) : List ℕ := s.connections.map (·.id)

/-- The connection at an address. -/
def find? (s : ServerTP κ ι) (id : ℕ) : Option (Pooled κ) := s.connections.find? (·.id = id)

/-- Replace the connection at its address. -/
def replace (p : Pooled κ) (connections : List (Pooled κ)) : List (Pooled κ) :=
  connections.map fun p' => if p'.id = p.id then p else p'

/-- Delete a connection, and erase it from the list. -/
def erase (id : ℕ) (connections : List (Pooled κ)) : List (Pooled κ) :=
  connections.filter (·.id ≠ id)

/-- `WaitForReadability() || WaitForWritability()`. -/
def waits (p : Pooled κ) : Bool :=
  p.active && match kind.connectionState p.connection with
    | .readHeader | .readRequest | .writeResponse => true
    | .executeRequest | .closeConnection => false

/-- `Process` on a connection, with `SetCloseState` behind an exception. The time of a transaction is
set if a response is written. -/
def processed (executeAfterRead : Bool) (time : Option ℕ) (p : Pooled κ) : Option (Pooled κ) :=
  (kind.process executeAfterRead p.connection).map fun (threw, connection) =>
    { p with
      connection := if threw then kind.setCloseState connection else connection
      lastTransactionTime := time.getD p.lastTransactionTime }

/-! ## The main thread -/

/-- `select` finds some of the connections ready that it waits for. -/
def select (ready : List ℕ) (s : ServerTP κ ι) : Option (ServerTP κ ι) :=
  match s.main with
  | .selecting =>
    if ready.all fun id => (s.find? id).any (waits kind) then some { s with main := .accepting ready }
    else none
  | _ => none

/-- `Accept`, if the socket of the server is ready: there is a connection to create, at the time that
is given. -/
def accept (connection : Option (κ × ℕ)) (s : ServerTP κ ι) : Option (ServerTP κ ι) :=
  match s.main with
  | .accepting ready =>
    match connection with
    | none => some { s with main := .serving ready s.ids }
    | some (connection, time) => some { s with main := .admitting ready connection time }
  | _ => none

/-- The connection that is to be disconnected, with the time of its last transaction: the one that has
been used the least recent among those that allow it. -/
def findTarget (s : ServerTP κ ι) : Option ℕ × ℕ :=
  s.connections.foldl (fun (target, targetTime) p =>
    if s.forcedDisconnectAllowed && kind.forcedDisconnectAllowed p.connection then
      if targetTime = 0 ∨ p.lastTransactionTime < targetTime then (some p.id, p.lastTransactionTime)
      else (target, targetTime)
    else (target, targetTime)) (none, 0)

/-- A round of the loop of `AcceptConnection`: a connection is disconnected, or none can be, or there
is room. -/
def makeRoom (s : ServerTP κ ι) : Option (ServerTP κ ι) :=
  match s.main with
  | .admitting ready connection time =>
    if s.maxConnections ≤ s.connections.length then
      match (findTarget kind s).1 with
      | none => some { s with main := .serving ready s.ids }
      | some id => some { s with connections := erase id s.connections }
    else
      some { s with
        connections := s.connections ++ [{ id := s.nextId, connection, lastTransactionTime := time }]
        main := .serving ready (s.ids ++ [s.nextId])
        nextId := s.nextId + 1 }
  | _ => none

/-- What the main loop does with one connection. -/
def serve (time : Option ℕ) (s : ServerTP κ ι) : Option (ServerTP κ ι) :=
  match s.main with
  | .serving ready (id :: todo) => do
    let p ← s.find? id
    if id ∈ ready then
      -- Process the message, but only until the execute stage.
      let p ← processed kind false time p
      if kind.connectionState p.connection = .executeRequest then
        some { s with
          connections := replace { p with active := false } s.connections
          workQueue := s.workQueue ++ [id]
          main := .serving ready todo }
      else some { s with connections := close p (replace p s.connections), main := .serving ready todo }
    else some { s with connections := close p s.connections, main := .serving ready todo }
  | _ => none
where
  /-- A connection that is to be closed is deleted. -/
  close (p : Pooled κ) (connections : List (Pooled κ)) : List (Pooled κ) :=
    if kind.connectionState p.connection = .closeConnection then erase p.id connections
    else connections

/-- The loop of the main thread starts again. -/
def again (s : ServerTP κ ι) : Option (ServerTP κ ι) :=
  match s.main with
  | .serving _ [] => some { s with main := .selecting }
  | _ => none

/-! ## The workers -/

variable [DecidableEq ι]

/-- A worker takes the first connection from the queue. -/
def take (w : ι) (s : ServerTP κ ι) : Option (ServerTP κ ι) :=
  match s.workers w, s.workQueue with
  | .idle, id :: workQueue =>
    some { s with workQueue, workers := Function.update s.workers w (.holding id) }
  | _, _ => none

/-- A worker calls `Process` on its connection, which has to be there. -/
def work (w : ι) (time : Option ℕ) (s : ServerTP κ ι) : Option (ServerTP κ ι) :=
  match s.workers w with
  | .holding id => do
    let p ← processed kind true time (← s.find? id)
    some { s with
      connections := replace p s.connections
      workers := Function.update s.workers w (.processed id) }
  | _ => none

/-- A worker calls `SetActive` on its connection, which has to be there. -/
def setActive (w : ι) (s : ServerTP κ ι) : Option (ServerTP κ ι) :=
  match s.workers w with
  | .processed id => do
    let p ← s.find? id
    some { s with
      connections := replace { p with active := true } s.connections
      workers := Function.update s.workers w .idle }
  | _ => none

/-! ## Runs -/

/-- The steps of the threads. -/
inductive Action (κ ι : Type) where
  | select (ready : List ℕ)
  | accept (connection : Option (κ × ℕ))
  | makeRoom
  | serve (time : Option ℕ)
  | again
  | take (w : ι)
  | work (w : ι) (time : Option ℕ)
  | setActive (w : ι)

/-- One step of one of the threads. -/
def step : Action κ ι → ServerTP κ ι → Option (ServerTP κ ι)
  | .select ready => select kind ready
  | .accept connection => accept connection
  | .makeRoom => makeRoom kind
  | .serve time => serve kind time
  | .again => again
  | .take w => take w
  | .work w time => work kind w time
  | .setActive w => setActive w

/-- The steps of a number of actions, one after the other. -/
def run : List (Action κ ι) → ServerTP κ ι → Option (ServerTP κ ι)
  | [], s => some s
  | a :: as, s => (step kind a s).bind (run as)

/-- A server that listens, with no connection so far. -/
def listening (maxConnections : ℕ) (forcedDisconnectAllowed : Bool) : ServerTP κ ι where
  maxConnections
  forcedDisconnectAllowed
  connections := []
  workQueue := []
  workers _ := .idle
  main := .selecting
  nextId := 0

end ServerTP

/-! ## The connections of the repository -/

namespace ServerConnection

variable {ρ ω ε : Type}

/-- A connection of the repository, given by its `Process` and its `ForcedDisconnectAllowed`. Its
handlers throw no exceptions. -/
def kind (process : Bool → ConnectionM ρ ω ε Unit)
    (forcedDisconnectAllowed : ServerConnection ρ ω ε → Bool) :
    ConnectionKind (ServerConnection ρ ω ε) where
  process executeAfterRead c :=
    match process executeAfterRead c with
    | .ok _ c' => some (false, c')
    | .error _ _ => none
  connectionState := connectionState
  setCloseState c := { c with connectionState := .closeConnection }
  forcedDisconnectAllowed := forcedDisconnectAllowed

end ServerConnection

/-- A `TcpConnection` in a thread pool. -/
def TcpConnection.kind [IntOverflow] {ω : Type} (handler : RpcHandler ω) :
    ConnectionKind (ServerConnection TcpFields ω Bytes) :=
  ServerConnection.kind (TcpConnection.process handler) fun c =>
    if c.derived.commaExpected then c.message.bufferLength ≤ 1 else c.message.bufferLength = 0

/-- An `HttpConnection` in a thread pool. -/
def HttpConnection.kind [IntOverflow] {ω : Type} :
    ConnectionKind (ServerConnection (HttpFields ω) ω HttpExecuted) :=
  ServerConnection.kind HttpConnection.process fun c => c.message.bufferLength = 0

end AnyRpc
