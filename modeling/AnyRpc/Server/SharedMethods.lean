import Mathlib.Data.List.Sort
import Mathlib.Logic.Function.Basic
import AnyRpc.Foundation.Exception

/-! # Methods that threads share

`MethodManager` as several threads use it. The sections that its mutex protects are the steps: a call
of `ExecuteMethod` is one that finds the method and one, behind the execution, that may remove it. The
objects are allocated at addresses that are not used again. What the functions of a method do is left
out; that one throws is given. -/

namespace AnyRpc

/-- `Method`. The number of threads is an `int` that no number of threads exceeds. -/
structure MethodObject where
  name : Bytes
  help : Bytes
  deleteOnRemove : Bool := true
  activeThreads : ℤ := 0
  delayedRemove : Bool := false
  deriving DecidableEq, Repr

/-- `MethodManager` with the threads `ι`. -/
structure SharedMethodManager (ι : Type) where
  /-- The objects that are allocated. -/
  objects : ℕ → Option MethodObject
  /-- The addresses that were in use are below this one. -/
  nextId : ℕ
  /-- `methods_`, in the order of the names. -/
  methods : List (Bytes × ℕ)
  /-- The executions between `AddThread` and `RemoveThread`. -/
  inFlight : List (ι × ℕ) := []
  /-- The calls of `RemoveMethod` that wait for the removal of a name. -/
  waiting : List (ι × Bytes) := []
  /-- The objects that were freed. -/
  freed : List ℕ := []

/-- What a step answers to its thread. -/
inductive MethodResponse where
  | done
  /-- The call returns with this result. -/
  | returned (success : Bool)
  /-- It throws an exception of its own. -/
  | threw (e : AnyRpcException)
  /-- It throws what the method has thrown. -/
  | rethrew
  | waits
  /-- The method at an address is executed. -/
  | executes (id : ℕ)
  | names (l : List Bytes)
  deriving DecidableEq, Repr

namespace SharedMethodManager

variable {ι : Type}

/-! ## Parts -/

/-- `methods_.find(name)`. -/
def find (name : Bytes) (s : SharedMethodManager ι) : Option ℕ := s.methods.lookup name

/-- `methods_[name] = method`, for a name that is not there. -/
def insert (name : Bytes) (id : ℕ) (s : SharedMethodManager ι) : SharedMethodManager ι :=
  { s with methods := s.methods.orderedInsert (fun a b => a.1 ≤ b.1) (name, id) }

/-- `methods_.erase(it)`. -/
def erase (name : Bytes) (s : SharedMethodManager ι) : SharedMethodManager ι :=
  { s with methods := s.methods.filter (·.1 ≠ name) }

/-- The object at an address is changed. -/
def setObject (id : ℕ) (o : MethodObject) (s : SharedMethodManager ι) : SharedMethodManager ι :=
  { s with objects := Function.update s.objects id (some o) }

/-- `new`. -/
def allocate (o : MethodObject) (s : SharedMethodManager ι) : SharedMethodManager ι :=
  { s.setObject s.nextId o with nextId := s.nextId + 1 }

/-- `delete`. -/
def free (id : ℕ) (s : SharedMethodManager ι) : SharedMethodManager ι :=
  { s with objects := Function.update s.objects id none, freed := s.freed ++ [id] }

/-- `if (method->DeleteOnRemove()) delete method`. -/
def release (id : ℕ) (o : MethodObject) (s : SharedMethodManager ι) : SharedMethodManager ι :=
  if o.deleteOnRemove then s.free id else s

/-! ## The functions -/

/-- A user constructs a `Method`. -/
def create (name help : Bytes) (deleteOnRemove : Bool) (s : SharedMethodManager ι) :
    MethodResponse × SharedMethodManager ι :=
  (.done, s.allocate { name, help, deleteOnRemove })

/-- `AddFunction`. -/
def addFunction (name help : Bytes) (s : SharedMethodManager ι) :
    MethodResponse × SharedMethodManager ι :=
  match s.find name with
  | none => (.done, (s.allocate { name, help }).insert name s.nextId)
  | some _ =>
    (.threw { code := ErrorCode.functionRedefine,
              message := ascii "Attempt to redefine function name: " ++ name }, s)

/-- `AddMethod`, on an object that has to be there. -/
def addMethod (id : ℕ) (s : SharedMethodManager ι) :
    Option (MethodResponse × SharedMethodManager ι) := do
  let o ← s.objects id
  match s.find o.name with
  | none => some (.done, s.insert o.name id)
  | some _ =>
    some (.threw { code := ErrorCode.methodRedefine,
                   message := ascii "Attempt to redefine method name: " ++ o.name }, s.release id o)

/-- `RemoveMethod`, up to the wait for a delayed removal. -/
def removeMethod (t : ι) (name : Bytes) (waitForDelayedRemove : Bool) (s : SharedMethodManager ι) :
    Option (MethodResponse × SharedMethodManager ι) :=
  match s.find name with
  | none => some (.returned false, s)
  | some id => do
    let o ← s.objects id
    if 0 < o.activeThreads then
      let s := s.setObject id { o with delayedRemove := true }
      if waitForDelayedRemove then some (.waits, { s with waiting := s.waiting ++ [(t, name)] })
      else some (.returned true, s)
    else some (.returned true, (s.release id o).erase name)

/-- `RemoveMethod`, when a thread that waits looks for the name again. -/
def wake [DecidableEq ι] (t : ι) (name : Bytes) (s : SharedMethodManager ι) :
    Option (MethodResponse × SharedMethodManager ι) :=
  if (t, name) ∈ s.waiting then
    match s.find name with
    | none => some (.returned true, { s with waiting := s.waiting.erase (t, name) })
    | some _ => some (.waits, s)
  else none

/-- `ExecuteMethod`, up to the execution. -/
def executeMethod (t : ι) (name : Bytes) (s : SharedMethodManager ι) :
    Option (MethodResponse × SharedMethodManager ι) :=
  match s.find name with
  | none => some (.returned false, s)
  | some id => do
    let o ← s.objects id
    if o.delayedRemove then some (.returned false, s)
    else
      let s := s.setObject id { o with activeThreads := o.activeThreads + 1 }
      some (.executes id, { s with inFlight := s.inFlight ++ [(t, id)] })

/-- `ExecuteMethod_FollowUpOperations`, behind an execution that may have thrown. -/
def followUpOperations [DecidableEq ι] (t : ι) (id : ℕ) (threw : Bool) (s : SharedMethodManager ι) :
    Option (MethodResponse × SharedMethodManager ι) :=
  if (t, id) ∈ s.inFlight then do
    let o ← s.objects id
    let o := { o with activeThreads := o.activeThreads - 1 }
    let s := { s.setObject id o with inFlight := s.inFlight.erase (t, id) }
    let response := if threw then MethodResponse.rethrew else .returned true
    if o.delayedRemove && o.activeThreads = 0 then
      -- Find the method again in case other changes to the list have occurred.
      match s.find o.name with
      | none =>
        some (.threw { code := ErrorCode.internalError,
                       message := ascii "Method not found for delayed remove: " ++ o.name }, s)
      | some _ => some (response, (s.release id o).erase o.name)
    else some (response, s)
  else none

/-- `ListMethods`. -/
def listMethods (s : SharedMethodManager ι) : List Bytes := s.methods.map Prod.fst

/-! ## Runs -/

/-- The steps of the threads. -/
inductive Action (ι : Type) where
  | create (name help : Bytes) (deleteOnRemove : Bool)
  | addFunction (name help : Bytes)
  | addMethod (id : ℕ)
  | removeMethod (t : ι) (name : Bytes) (waitForDelayedRemove : Bool)
  | wake (t : ι) (name : Bytes)
  | executeMethod (t : ι) (name : Bytes)
  | followUpOperations (t : ι) (id : ℕ) (threw : Bool)
  | listMethods
  deriving DecidableEq, Repr

/-- One step, if its thread is there and the objects that it uses are. -/
def step [DecidableEq ι] (s : SharedMethodManager ι) :
    Action ι → Option (MethodResponse × SharedMethodManager ι)
  | .create name help deleteOnRemove => s.create name help deleteOnRemove
  | .addFunction name help => s.addFunction name help
  | .addMethod id => s.addMethod id
  | .removeMethod t name waitForDelayedRemove => s.removeMethod t name waitForDelayedRemove
  | .wake t name => s.wake t name
  | .executeMethod t name => s.executeMethod t name
  | .followUpOperations t id threw => s.followUpOperations t id threw
  | .listMethods => some (.names s.listMethods, s)

/-- The steps of a number of actions, one after the other. -/
def run [DecidableEq ι] : List (Action ι) → SharedMethodManager ι → Option (SharedMethodManager ι)
  | [], s => some s
  | a :: as, s => (s.step a).bind fun r => run as r.2

/-- No methods. -/
def empty : SharedMethodManager ι where
  objects _ := none
  nextId := 0
  methods := []

/-- `MethodManager()`: the methods `ListMethod` and `HelpMethod` are there. -/
def initial : SharedMethodManager ι :=
  let s := (empty.allocate
    { name := ascii "system.listMethods"
      help := ascii "List all methods available on a server as an array of strings" }).insert
        (ascii "system.listMethods") 0
  (s.allocate
    { name := ascii "system.methodHelp"
      help := ascii "Retrieve the help string for a named method" }).insert
        (ascii "system.methodHelp") 1

end SharedMethodManager

end AnyRpc
