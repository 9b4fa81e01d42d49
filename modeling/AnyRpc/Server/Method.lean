import AnyRpc.Value.Integer

/-! # Methods

The methods that a server executes by name, and what a request handler works on: the world that the
methods change, the calls of `ExecuteMethod` so far and the response stream. -/

namespace AnyRpc

open Library

/-- `Method::Execute`: from its parameters and a world, a method leaves a result in place of the
null value that it is given, or throws. -/
abbrev Method (ω : Type) := Value → Exec ω Value

/-- `MethodManager`: the methods by their names. -/
structure MethodManager (ω : Type) where
  find : Bytes → Option (Method ω)

/-- What a request handler works on. -/
structure Server (ω : Type) where
  world : ω
  /-- The names and parameters with which `ExecuteMethod` was called. -/
  executed : List (Bytes × Value) := []
  response : Bytes := []

/-- Every method returns a fully valid value or throws an exception of the program. -/
def MethodManager.WellBehaved {ω : Type} (manager : MethodManager ω) : Prop :=
  ∀ name method, manager.find name = some method → ∀ params world,
    (∃ v world', method params world = .ok v world' ∧ v.FullyValid) ∨
      ∃ e world', method params world = .error (.exception e) world'

/-- How a method ends that is called by its name. -/
inductive MethodManager.Ends {ω : Type} (manager : MethodManager ω) (name : Bytes) (params : Value) (world : ω) :
    Except AnyRpcException Value → ω → Prop where
  | missing : manager.find name = none → manager.Ends name params world
      (.error { code := ErrorCode.methodNotFound, message := ascii "Method not found" }) world
  | returned {method : Method ω} {v : Value} {world' : ω} : manager.find name = some method →
      method params world = .ok v world' → manager.Ends name params world (.ok v) world'
  | threw {method : Method ω} {e : AnyRpcException} {world' : ω} : manager.find name = some method →
      method params world = .error (.exception e) world' →
      manager.Ends name params world (.error e) world'

/-- The methods of a server that only knows how to give its parameters back. -/
def echoing : MethodManager Unit where
  find name := if name = ascii "echo" then some fun params world => .ok params world else none

/-- A server that counts its calls: `count` returns how many there were, and `fail` throws. -/
def counting : MethodManager ℕ where
  find name :=
    if name = ascii "count" then some fun _ n => .ok (.number (.ofInt (n + 1))) (n + 1)
    else if name = ascii "fail" then
      some fun _ n => .error (.exception { code := 7, message := ascii "failed" }) (n + 1)
    else none

/-- The methods of `counting` return a number or throw an exception of the program. -/
theorem counting_wellBehaved : counting.WellBehaved := by
  intro name method hfind params n
  simp only [counting] at hfind
  split at hfind
  · cases hfind
    exact .inl ⟨_, _, rfl, Value.noConfusion⟩
  · split at hfind
    · cases hfind
      exact .inr ⟨_, _, rfl⟩
    · cases hfind

namespace Server

variable {ω : Type}

/-- `ExecuteMethod`: the result of the method, or `none` where there is no such method. -/
def executeMethod (manager : MethodManager ω) (name : Bytes) (params : Value) :
    Exec (Server ω) (Option Value) := fun s =>
  let s := { s with executed := s.executed ++ [(name, params)] }
  match manager.find name with
  | none => .ok none s
  | some method =>
    match method params s.world with
    | .ok v world => .ok (some v) { s with world }
    | .error f world => .error f { s with world }

/-- `try { ... } catch (const AnyRpcException& fault) { ... }`. -/
def catchException {α : Type} (p : Exec (Server ω) α)
    (handler : AnyRpcException → Exec (Server ω) α) : Exec (Server ω) α := fun s =>
  match p s with
  | .error (.exception e) s' => handler e s'
  | r => r

theorem catchException_eq {α : Type} (p : Exec (Server ω) α)
    (handler : AnyRpcException → Exec (Server ω) α) :
    catchException p handler = catching p handler := by
  funext s
  rw [catchException, catching]
  cases p s with
  | ok a s' => rfl
  | error e s' => cases e <;> rfl

/-- The server behind a call of `ExecuteMethod`, with the world that its method leaves. -/
def after (s : Server ω) (call : Bytes × Value) (world : ω) : Server ω :=
  { s with world, executed := s.executed ++ [call] }

section

variable {manager : MethodManager ω} {name : Bytes} {method : Method ω} {params : Value} {s : Server ω}

/-- There is no such method. -/
theorem executeMethod_of_none (h : manager.find name = none) :
    executeMethod manager name params s = .ok none (s.after (name, params) s.world) := by
  simp only [executeMethod, h]
  rfl

/-- The method returns. -/
theorem executeMethod_of_ok {v : Value} {world : ω} (h : manager.find name = some method)
    (hrun : method params s.world = .ok v world) :
    executeMethod manager name params s = .ok (some v) (s.after (name, params) world) := by
  simp only [executeMethod, h, hrun]
  rfl

/-- The method does not return. -/
theorem executeMethod_of_error {f : Fault} {world : ω} (h : manager.find name = some method)
    (hrun : method params s.world = .error f world) :
    executeMethod manager name params s = .error f (s.after (name, params) world) := by
  simp only [executeMethod, h, hrun]
  rfl

end

/-- The three ways in which `ExecuteMethod` can end. -/
theorem executeMethod_cases {manager : MethodManager ω} (hmanager : manager.WellBehaved)
    (name : Bytes) (params : Value) (s : Server ω) :
    ∃ world, (executeMethod manager name params s =
        .ok none { s with world, executed := s.executed ++ [(name, params)] }) ∨
      (∃ v, v.FullyValid ∧ executeMethod manager name params s =
        .ok (some v) { s with world, executed := s.executed ++ [(name, params)] }) ∨
      ∃ e, executeMethod manager name params s =
        .error (.exception e) { s with world, executed := s.executed ++ [(name, params)] } := by
  simp only [executeMethod]
  cases hfind : manager.find name with
  | none => exact ⟨s.world, .inl rfl⟩
  | some method =>
    rcases hmanager name method hfind params s.world with ⟨v, world, hrun, hv⟩ | ⟨e, world, hrun⟩
    · exact ⟨world, .inr (.inl ⟨v, hv, by simp only [hrun]⟩)⟩
    · exact ⟨world, .inr (.inr ⟨e, by simp only [hrun]⟩)⟩

end Server

/-! ## Building a value -/

/-- A server, and the value that a part of a request handler builds. -/
structure Building (ω : Type) where
  server : Server ω
  value : Value := .invalid

namespace Building

variable {ω α : Type}

/-- A step of the server. -/
def onServer (p : Exec (Server ω) α) : Exec (Building ω) α := fun b =>
  match p b.server with
  | .ok a server => .ok a { b with server }
  | .error f server => .error f { b with server }

/-- A step that builds the value. -/
def onResult (p : Exec Value α) : Exec (Building ω) α := fun b =>
  match p b.value with
  | .ok a value => .ok a { b with value }
  | .error f value => .error f { b with value }

theorem onServer_of_ok {p : Exec (Server ω) α} {b : Building ω} {a : α} {server : Server ω}
    (h : p b.server = .ok a server) : onServer p b = .ok a { b with server } := by
  rw [onServer, h]

theorem onServer_of_error {p : Exec (Server ω) α} {b : Building ω} {f : Fault} {server : Server ω}
    (h : p b.server = .error f server) : onServer p b = .error f { b with server } := by
  rw [onServer, h]

/-- The value that is built from one that is not yet assigned. -/
def build (p : Exec (Building ω) Unit) : Exec (Server ω) Value := fun s =>
  match p { server := s } with
  | .ok _ b => .ok b.value b.server
  | .error f b => .error f b.server

end Building

end AnyRpc
