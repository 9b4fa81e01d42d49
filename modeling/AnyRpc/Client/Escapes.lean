import AnyRpc.Call.Call
import AnyRpc.Server.JsonLookUp
import AnyRpc.Value.Equality

/-! # Responses that `ProcessResponse` does not return from

What is wrong with a response becomes its result, and so does an exception that the processing throws.
A result that was assigned before and is no map cannot take the members of a fault, so that the
exception leaves `ProcessResponse`. -/

namespace AnyRpc

open Library Responding

namespace Responding

variable {s : Responding} {key : Bytes} {x : Value}

/-- An operation that leaves the message as it is. -/
theorem onMessage_of_ok {α : Type} {p : Exec Value α} {a : α} (h : p s.message = .ok a s.message) :
    onMessage p s = .ok a s := by
  rw [onMessage, h]

/-- An operation that leaves the result as it is. -/
theorem onResult_of_ok {α : Type} {p : Exec Value α} {a : α} (h : p s.result = .ok a s.result) :
    onResult p s = .ok a s := by
  rw [onResult, h]

/-- A reference to a member of the message. -/
theorem referred_of_field? (hkey : (0 : UInt8) ∉ key) (h : s.message.field? key = some x) :
    referred (Value.member key) s = .ok x s := by
  obtain ⟨i, hmember, hchild⟩ := Value.member_of_field? hkey h
  rw [referred, bind_of_ok (onMessage_of_ok hmember), bind_of_ok (get_apply s), hchild]
  rfl

/-- A reference to a member of the result. -/
theorem ofResult_of_field? (hkey : (0 : UInt8) ∉ key) (h : s.result.field? key = some x) :
    ofResult (Value.member key) s = .ok x s := by
  obtain ⟨i, hmember, hchild⟩ := Value.member_of_field? hkey h
  rw [ofResult, bind_of_ok (onResult_of_ok hmember), bind_of_ok (get_apply s), hchild]
  rfl

end Responding

namespace Value

variable {v : Value}

theorem eq_map_of_isMap (h : v.isMap = true) : ∃ ms c, v = .map ms c := by
  cases v with
  | map ms c => exact ⟨ms, c, rfl⟩
  | _ => cases h

/-- There is no member of what is no map. -/
theorem member_of_not_isMap (hmap : v.isMap = false) (hvalid : v.isInvalid = false)
    (str : Bytes) : ∃ e, member str v = .error (.exception e) v := by
  cases v with
  | map ms c => cases hmap
  | invalid => cases hvalid
  | _ => exact ⟨_, rfl⟩

theorem hasMember_of_not_isMap (hmap : v.isMap = false) (str : Bytes) :
    ∃ e, hasMember str v = .error (.exception e) v := by
  cases v with
  | map ms c => cases hmap
  | _ => exact ⟨_, rfl⟩

/-- Assignment to a member of a map that may have to grow for it. -/
theorem assignMember_map {key : Bytes} (hkey : (0 : UInt8) ∉ key) {ms : List (Bytes × Value)} {c : ℕ}
    (hsize : ms.length ≤ c) (hc : c ≤ maxMapCapacity) (hlimit : ms.length < maxMapCapacity)
    (v : Value) :
    ∃ ms' c', onChild (member key) (set v) (map ms c) = .ok () (map ms' c') ∧
      ms'.length ≤ ms.length + 1 ∧ ms'.length ≤ c' ∧ c' ≤ maxMapCapacity := by
  obtain ⟨i, ms', hmember, hlength, hsize', hc', -⟩ := member_lookUp hkey hsize hc hlimit
  have hchild := (member_ok hkey hmember).1
  have habsent : absent [key] ms ≤ 1 := List.countP_le_length
  have hset : (set v : Exec Value Unit) (((map ms c).field? key).getD invalid) = .ok () v := rfl
  refine ⟨_, _, onChild_of_ok hmember hchild hset, ?_, ?_, hc'⟩
  · rw [List.length_modify]
    omega
  · rw [List.length_modify]
    exact hsize'

end Value

namespace ClientHandler

/-! ## Faults -/

/-- A result that is not yet assigned takes a fault. -/
theorem closing_of_invalid (errorCode : BitVec 32) (errorMsg : Bytes) (message : Value) :
    ∃ t, closing errorCode errorMsg { message } = .ok .errorClose t :=
  ⟨_, rfl⟩

/-- A result that is no map does not. -/
theorem closing_of_not_isMap {result : Value} (hmap : result.isMap = false)
    (hvalid : result.isInvalid = false) (errorCode : BitVec 32) (errorMsg : Bytes) (message : Value) :
    ∃ e t, closing errorCode errorMsg { result, message } = .error (.exception e) t := by
  -- The code is put first, and the lookup of its member asserts that the result is a map.
  obtain ⟨e, hmember⟩ := Value.member_of_not_isMap hmap hvalid (ascii "code")
  have hchild : Value.onChild (Value.member (ascii "code"))
      (set (Value.number (.ofInt errorCode))) result = .error (.exception e) result := by
    rw [Value.onChild, bind_of_error hmember]
  refine ⟨e, { result, message }, ?_⟩
  rw [closing, generateFaultResult]
  refine bind_of_error ?_
  rw [onResult]
  dsimp only
  rw [bind_of_error hchild]

/-- A result that is a map takes it, where the map has room for its members. -/
theorem closing_of_map {ms : List (Bytes × Value)} {c : ℕ} (hsize : ms.length ≤ c)
    (hc : c ≤ Value.maxMapCapacity) (hlimit : ms.length + 2 ≤ Value.maxMapCapacity)
    (errorCode : BitVec 32) (errorMsg : Bytes) (message : Value) :
    ∃ t, closing errorCode errorMsg { result := .map ms c, message } = .ok .errorClose t := by
  obtain ⟨ms₁, c₁, hcode, hlength₁, hsize₁, hc₁⟩ := Value.assignMember_map
    (by decide : (0 : UInt8) ∉ ascii "code") hsize hc (by omega) (.number (.ofInt errorCode))
  obtain ⟨ms₂, c₂, hmessage, -⟩ := Value.assignMember_map
    (by decide : (0 : UInt8) ∉ ascii "message") hsize₁ hc₁ (by omega) (.string errorMsg)
  have hfault : generateFaultResult errorCode errorMsg { result := .map ms c, message } =
      .ok () { result := .map ms₂ c₂, message } := by
    rw [generateFaultResult, onResult]
    dsimp only
    rw [bind_of_ok hcode, hmessage]
  exact ⟨_, bind_of_ok hfault⟩

/-- A test of a number that is not made by a getter that throws. -/
theorem rejected_of_isUint (id : Value) (n : ℤ) (t : Responding) :
    rejected id.isUint id.getUint n t = .ok (!(id.isUint && decide (id.uint = n))) t := by
  cases hid : id.isUint with
  | true =>
    have hget : id.getUint t = .ok id.uint t := by
      rw [Value.getUint, hid]
      rfl
    rw [rejected_of_get rfl hget, Bool.true_and, decide_not]
  | false => rfl

/-- What the body of `ProcessResponse` throws before the result is assigned becomes the result. -/
theorem process_of_exception {τ : Type} {reader : Reader.Parsed Document τ}
    {body : Exec Responding ProcessResponseEnum} {e : AnyRpcException} {message : Value}
    (hok : reader.hasParseError = false)
    (hbody : body { message := reader.handler.value } = .error (.exception e) { message }) :
    ∃ t, process (.ok reader) body {} = .ok .errorClose t := by
  have hrun : (do
      modify fun s => { s with message := reader.handler.value }
      body : Exec Responding ProcessResponseEnum) {} = .error (.exception e) { message } := by
    rw [bind_of_ok (modify_apply _ _)]
    exact hbody
  -- The handler of the exception puts the fault into a result that nothing was assigned to yet.
  rw [process, hok, if_neg Bool.false_ne_true, catching_of_exception hrun]
  exact closing_of_invalid _ _ message

/-- What it throws behind the assignment of a result that is no map leaves `ProcessResponse`. -/
theorem process_of_not_isMap {τ : Type} {reader : Reader.Parsed Document τ}
    {body : Exec Responding ProcessResponseEnum} {e : AnyRpcException} {result message : Value}
    (hmap : result.isMap = false) (hvalid : result.isInvalid = false)
    (hok : reader.hasParseError = false)
    (hbody : body { message := reader.handler.value } = .error (.exception e) { result, message }) :
    ∃ e t, process (.ok reader) body {} = .error (.exception e) t := by
  have hrun : (do
      modify fun s => { s with message := reader.handler.value }
      body : Exec Responding ProcessResponseEnum) {} = .error (.exception e) { result, message } := by
    rw [bind_of_ok (modify_apply _ _)]
    exact hbody
  -- The fault is put into the result that the body left, and nothing catches what that throws.
  rw [process, hok, if_neg Bool.false_ne_true, catching_of_exception hrun]
  exact closing_of_not_isMap hmap hvalid _ _ message

/-- Nothing that is reported is a success. -/
theorem closing_eq_ok {errorCode : BitVec 32} {errorMsg : Bytes} {outcome : ProcessResponseEnum}
    {s t : Responding} (h : closing errorCode errorMsg s = .ok outcome t) : outcome = .errorClose := by
  obtain ⟨_, s', -, hpure⟩ := bind_eq_ok.mp h
  cases hpure
  rfl

/-- What returns is what was tried, or the handler of the exception. -/
theorem catching_eq_ok {p : Exec Responding ProcessResponseEnum}
    {handler : AnyRpcException → Exec Responding ProcessResponseEnum} {s t : Responding}
    {outcome : ProcessResponseEnum} (h : catching p handler s = .ok outcome t) :
    p s = .ok outcome t ∨ ∃ e s', handler e s' = .ok outcome t := by
  rw [catching] at h
  split at h
  · exact .inr ⟨_, _, h⟩
  · exact .inl h

/-- Only the body of `ProcessResponse` makes a success of a response. -/
theorem process_eq_success {τ : Type} {reader : Reader.Parsed Document τ}
    {body : Exec Responding ProcessResponseEnum} {t : Responding}
    (h : process (.ok reader) body {} = .ok .success t) :
    reader.hasParseError = false ∧ body { message := reader.handler.value } = .ok .success t := by
  rw [process] at h
  rcases catching_eq_ok h with hrun | ⟨e, s, hclosing⟩
  · cases hok : reader.hasParseError with
    | true =>
      -- A parse error is reported without running the body.
      rw [hok, if_pos rfl] at hrun
      cases closing_eq_ok hrun
    | false =>
      rw [hok, if_neg Bool.false_ne_true, bind_of_ok (modify_apply _ _)] at hrun
      exact ⟨rfl, hrun⟩
  · cases closing_eq_ok hclosing

/-- A parse error becomes the result. -/
theorem process_of_hasParseError {τ : Type} {reader : Reader.Parsed Document τ}
    {body : Exec Responding ProcessResponseEnum} (hok : reader.hasParseError = true) :
    ∃ t, process (.ok reader) body {} = .ok .errorClose t := by
  obtain ⟨t, hclosing⟩ := closing_of_invalid ErrorCode.responseParseError
    (ascii "Response parse error, offset=" ++ decimal reader.parseError.offset ++
      ascii ", code=" ++ decimalInt reader.parseError.code.toInt ++ ascii ", message=" ++
      reader.parseError.message) .invalid
  refine ⟨t, catching_of_ok ?_⟩
  rw [hok, if_pos rfl]
  exact hclosing

end ClientHandler

open ClientHandler

/-! ## JSON -/

namespace JsonClientHandler

variable {requestId : BitVec 32} {notification : Bool} {message e : Value}

/-- A response to the request that has an error. -/
def HasError (requestId : BitVec 32) (message e : Value) : Prop :=
  ∃ version id, message.field? (ascii "jsonrpc") = some (.string version) ∧
    cString version = ascii "2.0" ∧ message.field? (ascii "id") = some id ∧
    id.isUint = true ∧ id.uint = requestId.toNat ∧ message.field? (ascii "error") = some e

/-- A response to the request that has a result, and no error. -/
def HasResult (requestId : BitVec 32) (message r : Value) : Prop :=
  ∃ version id, message.field? (ascii "jsonrpc") = some (.string version) ∧
    cString version = ascii "2.0" ∧ message.field? (ascii "id") = some id ∧
    id.isUint = true ∧ id.uint = requestId.toNat ∧ message.field? (ascii "error") = none ∧
    message.field? (ascii "result") = some r

theorem HasResult.field? {r : Value} (h : HasResult requestId message r) :
    message.field? (ascii "error") = none ∧ message.field? (ascii "result") = some r := by
  obtain ⟨version, id, -, -, -, -, -, herror, hresult⟩ := h
  exact ⟨herror, hresult⟩

theorem HasError.field?_error (h : HasError requestId message e) :
    message.field? (ascii "error") = some e := by
  obtain ⟨version, id, -, -, -, -, -, herror⟩ := h
  exact herror

theorem HasError.eq {e' : Value} (h : HasError requestId message e)
    (h' : HasError requestId message e') : e = e' :=
  Option.some.inj (h.field?_error.symm.trans h'.field?_error)

/-- The tests of the version and of the id are passed. -/
theorem processMessage_of_answer {version : Bytes} {id : Value}
    (hrpc : message.field? (ascii "jsonrpc") = some (.string version))
    (hversion : cString version = ascii "2.0") (hid : message.field? (ascii "id") = some id)
    (huint : id.isUint = true) (hvalue : id.uint = requestId.toNat) :
    (∀ key, (0 : UInt8) ∉ key → onMessage (Value.hasMember key) { message } =
      .ok (message.field? key).isSome { message }) ∧
    processMessage requestId notification { message } =
      (do
        if ← onMessage (Value.hasMember (ascii "error")) then
          processError
        else if !(← onMessage (Value.hasMember (ascii "result"))) then
          invalidResponse (ascii "Invalid response, no result")
        else
          assign (← referred (Value.member (ascii "result")))
          return .success : Exec Responding ProcessResponseEnum) { message } := by
  cases message with
  | map ms c =>
    have hhas (key : Bytes) (hkey : (0 : UInt8) ∉ key) :
        onMessage (Value.hasMember key) { message := .map ms c } =
          .ok ((Value.map ms c).field? key).isSome { message := .map ms c } :=
      onMessage_of_ok (Value.hasMember_field? hkey)
    have hfound {key : Bytes} {x : Value} (hkey : (0 : UInt8) ∉ key)
        (hx : (Value.map ms c).field? key = some x) :
        onMessage (Value.hasMember key) { message := .map ms c } =
          .ok true { message := .map ms c } := by
      rw [hhas key hkey, hx]
      rfl
    have hid' := referred_of_field? (s := { message := .map ms c }) (by decide) hid
    have hrpc' := referred_of_field? (s := { message := .map ms c }) (by decide) hrpc
    have htest : rejected id.isUint id.getUint requestId.toNat { message := .map ms c } =
        .ok false { message := .map ms c } := by
      rw [rejected_of_isUint, huint, hvalue, decide_eq_true rfl]
      rfl
    refine ⟨hhas, ?_⟩
    rw [processMessage, bind_of_ok (get_apply _)]
    dsimp only
    rw [bind_of_ok (hfound (by decide) hrpc), if_neg (by decide),
      bind_of_ok (hfound (by decide) hid), if_neg (by decide), bind_of_ok hid', bind_of_ok hrpc',
      processMembers]
    simp only [hversion, decide_true, Bool.not_true]
    rw [if_neg Bool.false_ne_true, bind_of_ok htest, if_neg Bool.false_ne_true]
  | _ => cases hrpc

/-- The error of a response is looked at. -/
theorem processMessage_of_hasError (h : HasError requestId message e) :
    processMessage requestId notification { message } = processError { message } := by
  obtain ⟨version, id, hrpc, hversion, hid, huint, hvalue, herror⟩ := h
  obtain ⟨hhas, hrun⟩ := processMessage_of_answer hrpc hversion hid huint hvalue
  rw [hrun, bind_of_ok (hhas _ (by decide)), herror, Option.isSome_some, if_pos rfl]

/-- The result of a response is returned. -/
theorem processMessage_of_hasResult {r : Value} (h : HasResult requestId message r) :
    processMessage requestId notification { message } =
      .ok .success { result := r, message } := by
  obtain ⟨version, id, hrpc, hversion, hid, huint, hvalue, herror, hresult⟩ := h
  obtain ⟨hhas, hrun⟩ := processMessage_of_answer hrpc hversion hid huint hvalue
  rw [hrun, bind_of_ok (hhas _ (by decide)), herror, Option.isSome_none, if_neg Bool.false_ne_true,
    bind_of_ok (hhas _ (by decide)), hresult, Option.isSome_some, if_neg (by decide),
    bind_of_ok (referred_of_field? (by decide) hresult)]
  rfl

/-- An error that is a map is returned. -/
theorem processError_of_map {ms : List (Bytes × Value)} {c : ℕ}
    (herror : message.field? (ascii "error") = some (.map ms c)) :
    ∃ outcome t, processError { message } = .ok outcome t ∧ outcome ≠ .success := by
  let t : Responding := { result := .map ms c, message }
  have hreferred := referred_of_field? (s := { message }) (by decide) herror
  have hassign : assign (.map ms c) { message } = .ok () t := rfl
  have hhas : onResult (Value.hasMember (ascii "code")) t =
      .ok ((Value.map ms c).field? (ascii "code")).isSome t :=
    onResult_of_ok (Value.hasMember_field? (by decide))
  rw [processError, bind_of_ok hreferred, bind_of_ok hassign]
  cases hfield : (Value.map ms c).field? (ascii "code") with
  | none =>
    -- Without a code the member is not looked up, which would insert it into the result.
    rw [hfield] at hhas
    have hboth : andThen (onResult (Value.hasMember (ascii "code")))
        (do return (← ofResult (Value.member (ascii "code"))).isInt) t = .ok false t := by
      rw [andThen, bind_of_ok hhas]
      rfl
    rw [bind_of_ok hboth]
    exact ⟨_, _, rfl, ProcessResponseEnum.noConfusion⟩
  | some code =>
    rw [hfield] at hhas
    have hcode : ofResult (Value.member (ascii "code")) t = .ok code t :=
      ofResult_of_field? (by decide) hfield
    have hboth : andThen (onResult (Value.hasMember (ascii "code")))
        (do return (← ofResult (Value.member (ascii "code"))).isInt) t = .ok code.isInt t := by
      rw [andThen, bind_of_ok hhas, Option.isSome_some, if_pos rfl, bind_of_ok hcode]
      rfl
    rw [bind_of_ok hboth]
    cases hint : code.isInt with
    | false => exact ⟨_, _, rfl, ProcessResponseEnum.noConfusion⟩
    | true =>
      have hget : code.getInt t = .ok code.int t := by
        rw [Value.getInt, hint]
        rfl
      rw [if_pos rfl, bind_of_ok hcode, bind_of_ok hget]
      split_ifs
      · exact ⟨_, _, rfl, ProcessResponseEnum.noConfusion⟩
      · exact ⟨_, _, rfl, ProcessResponseEnum.noConfusion⟩

/-- The members of an error that is no map cannot be looked for, but the error is the result. -/
theorem processError_of_not_isMap (hmap : e.isMap = false)
    (herror : message.field? (ascii "error") = some e) :
    ∃ fault, processError { message } = .error (.exception fault) { result := e, message } := by
  obtain ⟨fault, hhas⟩ := Value.hasMember_of_not_isMap hmap (ascii "code")
  have hreferred := referred_of_field? (s := { message }) (by decide) herror
  have hassign : assign e { message } = .ok () { result := e, message } := rfl
  have hresult : onResult (Value.hasMember (ascii "code")) { result := e, message } =
      .error (.exception fault) { result := e, message } := by
    rw [onResult, hhas]
  refine ⟨fault, ?_⟩
  rw [processError, bind_of_ok hreferred, bind_of_ok hassign, andThen]
  exact bind_of_error (bind_of_error hresult)

/-- A response with an error is no success. -/
theorem processError_ne_success (herror : message.field? (ascii "error") = some e) {t : Responding} :
    processError { message } ≠ .ok .success t := by
  intro hsuccess
  cases hmap : e.isMap with
  | true =>
    obtain ⟨ms, c, rfl⟩ := Value.eq_map_of_isMap hmap
    obtain ⟨outcome, t', hrun, hne⟩ := processError_of_map herror
    cases hsuccess.symm.trans hrun
    exact hne rfl
  | false =>
    obtain ⟨fault, hrun⟩ := processError_of_not_isMap hmap herror
    cases hrun.symm.trans hsuccess

/-- Nothing to read is a response to a notification, with a transport that requires one. -/
theorem processMessage_of_invalid :
    processMessage requestId true { message := .invalid } =
      .ok .success { message := .invalid } :=
  rfl

/-- A response is none of those that are not reported. -/
def NoAnswer (requestId : BitVec 32) (notification : Bool) (message : Value) : Prop :=
  (∀ e, ¬ HasError requestId message e) ∧ (∀ r, ¬ HasResult requestId message r) ∧
    (message.isInvalid && notification) = false

/-- Whatever else a response is, is reported. -/
theorem processMessage_of_noAnswer (h : NoAnswer requestId notification message) :
    ∃ t, processMessage requestId notification { message } = .ok .errorClose t := by
  obtain ⟨hnoError, hnoResult, hnone⟩ := h
  have hreported (errorMsg : Bytes) :
      ∃ t, invalidResponse errorMsg { message } = .ok .errorClose t :=
    closing_of_invalid ErrorCode.invalidResponse errorMsg message
  rw [processMessage, bind_of_ok (get_apply _)]
  cases message with
  | map ms c =>
    have hhas {key : Bytes} (hkey : (0 : UInt8) ∉ key) :
        onMessage (Value.hasMember key) { message := .map ms c } =
          .ok ((Value.map ms c).field? key).isSome { message := .map ms c } :=
      onMessage_of_ok (Value.hasMember_field? hkey)
    dsimp only
    -- The tests of the source in their order: each one that fails is reported.
    rw [bind_of_ok (hhas (by decide))]
    cases hrpc : (Value.map ms c).field? (ascii "jsonrpc") with
    | none => exact hreported _
    | some rpc =>
      rw [Option.isSome_some, if_neg (by decide), bind_of_ok (hhas (by decide))]
      cases hid : (Value.map ms c).field? (ascii "id") with
      | none => exact hreported _
      | some id =>
        have hid' := referred_of_field? (s := { message := .map ms c }) (by decide) hid
        have hrpc' := referred_of_field? (s := { message := .map ms c }) (by decide) hrpc
        rw [Option.isSome_some, if_neg (by decide), bind_of_ok hid', bind_of_ok hrpc']
        cases rpc with
        | string version =>
          rw [processMembers]
          by_cases hversion : cString version = ascii "2.0"
          · simp only [hversion, decide_true, Bool.not_true]
            rw [if_neg Bool.false_ne_true, bind_of_ok (rejected_of_isUint id _ _)]
            cases htest : id.isUint && decide (id.uint = requestId.toNat) with
            | false => exact hreported _
            | true =>
              obtain ⟨huint, hvalue⟩ := Bool.and_eq_true_iff.mp htest
              have hvalue := of_decide_eq_true hvalue
              rw [Bool.not_true, if_neg Bool.false_ne_true, bind_of_ok (hhas (by decide))]
              cases herror : (Value.map ms c).field? (ascii "error") with
              | some e =>
                exact absurd ⟨version, id, hrpc, hversion, hid, huint, hvalue, herror⟩ (hnoError e)
              | none =>
                rw [Option.isSome_none, if_neg Bool.false_ne_true, bind_of_ok (hhas (by decide))]
                cases hresult : (Value.map ms c).field? (ascii "result") with
                | none => exact hreported _
                | some r =>
                  exact absurd ⟨version, id, hrpc, hversion, hid, huint, hvalue, herror, hresult⟩
                    (hnoResult r)
          · simp only [hversion, decide_false, Bool.not_false]
            rw [if_pos trivial]
            exact hreported _
        | _ => exact hreported _
  | invalid =>
    -- Only a notification takes nothing for an answer.
    dsimp only
    rw [hnone, if_neg Bool.false_ne_true]
    exact hreported _
  | _ => exact hreported _

/-- The ways in which a response without a parse error is processed: the error is looked at, there is a
result, there is nothing to read, or the response is reported. -/
theorem processMessage_cases (requestId : BitVec 32) (notification : Bool) (message : Value) :
    (∃ e, HasError requestId message e) ∨ (∃ r, HasResult requestId message r) ∨
      (message = .invalid ∧ notification = true) ∨ NoAnswer requestId notification message := by
  by_cases herror : ∃ e, HasError requestId message e
  · exact .inl herror
  by_cases hresult : ∃ r, HasResult requestId message r
  · exact .inr (.inl hresult)
  cases hnone : message.isInvalid && notification with
  | true =>
    obtain ⟨hmessage, hnotification⟩ := Bool.and_eq_true_iff.mp hnone
    cases message with
    | invalid => exact .inr (.inr (.inl ⟨rfl, hnotification⟩))
    | _ => cases hmessage
  | false => exact .inr (.inr (.inr ⟨not_exists.mp herror, not_exists.mp hresult, hnone⟩))

theorem not_hasError_invalid : ¬ HasError requestId .invalid e := by
  intro h
  cases h.field?_error

theorem HasResult.not_hasError {r : Value} (h : HasResult requestId message r) :
    ¬ HasError requestId message e := by
  intro herror
  cases h.field?.1.symm.trans herror.field?_error

variable [Platform]

/-- The error of a response that is read is not invalid. -/
theorem HasError.isInvalid {is : ReadStream} {d : Document} {reader : Reader.Parsed Document JsonReader}
    (hread : JsonReader.parseStream is d = .ok reader) (hok : reader.hasParseError = false)
    (h : HasError requestId reader.handler.value e) : e.isInvalid = false := by
  obtain ⟨version, id, hrpc, -, -, -, -, herror⟩ := h
  have hvalid : e.FullyValid := by
    rcases JsonReader.fullyValid_of_parseStream hread hok with hvalue | hvalue
    · rw [hvalue] at hrpc
      cases hrpc
    · exact Value.All.field? hvalue herror
  cases e with
  | invalid => exact absurd rfl (Value.All.root hvalid)
  | _ => rfl

/-- `ProcessResponse` returns unless the response answers the request with an error that is no map. -/
theorem returns_iff_isMap_error {response : Bytes} {beyond : UInt8}
    {reader : Reader.Parsed Document JsonReader}
    (hread : JsonReader.parseStream (.inSituString response true false beyond) {} = .ok reader) :
    (∃ outcome t, processResponse response beyond requestId notification {} = .ok outcome t) ↔
      (reader.hasParseError = false →
        ∀ e, HasError requestId reader.handler.value e → e.isMap = true) := by
  rw [processResponse, hread]
  cases hok : reader.hasParseError with
  | true =>
    obtain ⟨t, hrun⟩ : ∃ t, process (.ok reader) (processMessage requestId notification) {} =
        .ok .errorClose t := process_of_hasParseError hok
    exact iff_of_true ⟨_, t, hrun⟩ fun hok => Bool.noConfusion hok
  | false =>
    have hdone {outcome : ProcessResponseEnum} {t : Responding}
        (hrun : processMessage requestId notification { message := reader.handler.value } =
          .ok outcome t) (hnoError : ∀ e, ¬ HasError requestId reader.handler.value e) :
        (∃ outcome t, process (.ok reader) (processMessage requestId notification) {} =
          .ok outcome t) ↔ (false = false →
            ∀ e, HasError requestId reader.handler.value e → e.isMap = true) :=
      iff_of_true ⟨outcome, t, process_of_ok hok hrun⟩ fun _ e he => absurd he (hnoError e)
    rcases processMessage_cases requestId notification reader.handler.value with
      ⟨e, he⟩ | ⟨r, hr⟩ | ⟨hmessage, rfl⟩ | hnone
    · have hbody : processMessage requestId notification { message := reader.handler.value } =
          processError { message := reader.handler.value } := processMessage_of_hasError he
      have hfield := he.field?_error
      cases hmap : e.isMap with
      | true =>
        obtain ⟨ms, c, rfl⟩ := Value.eq_map_of_isMap hmap
        obtain ⟨outcome, t, hrun, -⟩ := processError_of_map hfield
        rw [← hbody] at hrun
        refine iff_of_true ⟨outcome, t, process_of_ok hok hrun⟩ fun _ e' he' => ?_
        rw [he'.eq he]
        rfl
      | false =>
        -- The error is the result by then, and the fault cannot be put into it.
        have hvalid := he.isInvalid hread hok
        obtain ⟨fault, hrun⟩ := processError_of_not_isMap hmap hfield
        rw [← hbody] at hrun
        obtain ⟨fault', t', hescape⟩ := process_of_not_isMap hmap hvalid hok hrun
        refine iff_of_false ?_ fun h => ?_
        · rintro ⟨outcome, t, hreturns⟩
          cases hescape.symm.trans hreturns
        · exact absurd (h rfl e he) (hmap ▸ Bool.false_ne_true)
    · exact hdone (processMessage_of_hasResult hr) fun _ => hr.not_hasError
    · have hrun : processMessage requestId true { message := reader.handler.value } =
          .ok .success { message := .invalid } := by
        rw [hmessage]
        exact processMessage_of_invalid
      refine hdone hrun fun e => ?_
      rw [hmessage]
      exact not_hasError_invalid
    · obtain ⟨t, hrun⟩ := processMessage_of_noAnswer hnone
      exact hdone hrun hnone.1

/-- The client is told of success by the responses to the request that have a result and no error, and
with a notification also by nothing. -/
theorem accepts_iff_hasResult {response : Bytes} {beyond : UInt8}
    {reader : Reader.Parsed Document JsonReader}
    (hread : JsonReader.parseStream (.inSituString response true false beyond) {} = .ok reader)
    (r : Value) :
    (∃ t, processResponse response beyond requestId notification {} = .ok .success t ∧
        t.result = r) ↔
      reader.hasParseError = false ∧ (HasResult requestId reader.handler.value r ∨
        reader.handler.value = .invalid ∧ notification = true ∧ r = .invalid) := by
  rw [processResponse, hread]
  constructor
  · rintro ⟨t, hsuccess, rfl⟩
    obtain ⟨hok, hbody⟩ := process_eq_success hsuccess
    refine ⟨hok, ?_⟩
    rcases processMessage_cases requestId notification reader.handler.value with
      ⟨e, he⟩ | ⟨r, hr⟩ | ⟨hmessage, rfl⟩ | hnone
    · rw [processMessage_of_hasError he] at hbody
      exact absurd hbody (processError_ne_success he.field?_error)
    · cases hbody.symm.trans (processMessage_of_hasResult hr)
      exact .inl hr
    · rw [hmessage, processMessage_of_invalid] at hbody
      cases hbody
      exact .inr ⟨hmessage, rfl, rfl⟩
    · obtain ⟨t', hrun⟩ := processMessage_of_noAnswer hnone
      cases hbody.symm.trans hrun
  · rintro ⟨hok, hr | ⟨hmessage, rfl, rfl⟩⟩
    · exact ⟨_, process_of_ok hok (processMessage_of_hasResult hr), rfl⟩
    · refine ⟨{ message := .invalid }, process_of_ok hok ?_, rfl⟩
      rw [hmessage]
      exact processMessage_of_invalid

/-- A response with an error that is a string. -/
def stringError : Bytes := ascii "\x7b\"jsonrpc\":\"2.0\",\"id\":0,\"error\":\"\"\x7d"

omit [Platform] in
theorem returns_iff_isMap_error_string :
    letI := Platform.blank
    ¬ ∃ outcome t, processResponse stringError 0 0 false {} = .ok outcome t := by
  let _ := Platform.blank
  let parsed : Except Fault (Reader.Parsed Document JsonReader) :=
    JsonReader.parseStream (.inSituString stringError true false 0) {}
  have hread : parsed.toOption.map (fun reader => (reader.hasParseError, reader.handler.value)) =
      some (false, .map [(ascii "jsonrpc", .string (ascii "2.0")),
        (ascii "id", .number (.ofInteger 0)), (ascii "error", .string [])] 16) := by
    decide +kernel
  obtain ⟨reader, hparse, hok, hvalue⟩ := Reader.exists_parsed hread
  refine fun h => absurd ((returns_iff_isMap_error hparse).mp h hok (.string []) ?_)
    Bool.false_ne_true
  rw [hvalue]
  exact ⟨ascii "2.0", .number (.ofInteger 0), rfl, by decide, rfl, by decide, by decide, rfl⟩

/-- A response with a result. -/
def trueResult : Bytes := ascii "\x7b\"jsonrpc\":\"2.0\",\"id\":0,\"result\":true\x7d"

omit [Platform] in
theorem accepts_iff_hasResult_true :
    letI := Platform.blank
    ∃ t, processResponse trueResult 0 0 false {} = .ok .success t ∧ t.result = .bool true := by
  let _ := Platform.blank
  let parsed : Except Fault (Reader.Parsed Document JsonReader) :=
    JsonReader.parseStream (.inSituString trueResult true false 0) {}
  have hread : parsed.toOption.map (fun reader => (reader.hasParseError, reader.handler.value)) =
      some (false, .map [(ascii "jsonrpc", .string (ascii "2.0")),
        (ascii "id", .number (.ofInteger 0)), (ascii "result", .bool true)] 16) := by
    decide +kernel
  obtain ⟨reader, hparse, hok, hvalue⟩ := Reader.exists_parsed hread
  refine (accepts_iff_hasResult hparse (.bool true)).mpr ⟨hok, .inl ?_⟩
  rw [hvalue]
  exact ⟨ascii "2.0", .number (.ofInteger 0), rfl, by decide, rfl, by decide, by decide, rfl, rfl⟩

end JsonClientHandler

/-! ## MessagePack -/

namespace MessagePackClientHandler

variable {requestId : BitVec 32} {notification : Bool} {message type id fault msgResult : Value}

/-- The elements of a response to the request. -/
def Answers (requestId : BitVec 32) (type id : Value) : Prop :=
  (type.isInt = true ∧ type.int = 1) ∧ id.isUint = true ∧ id.uint = requestId.toNat

/-- A response to the request that has a result, and no fault. -/
def HasResult (requestId : BitVec 32) (message r : Value) : Prop :=
  ∃ type id c, message = .array [type, id, .null, r] c ∧ Answers requestId type id

/-- A response to the request that has a fault. -/
def HasFault (requestId : BitVec 32) (message fault : Value) : Prop :=
  ∃ type id msgResult c, message = .array [type, id, fault, msgResult] c ∧
    Answers requestId type id ∧ fault ≠ .null

theorem rejected_of_isInt (type : Value) (n : ℤ) (t : Responding) :
    rejected type.isInt type.getInt n t = .ok (!(type.isInt && decide (type.int = n))) t := by
  cases htype : type.isInt with
  | true =>
    have hget : type.getInt t = .ok type.int t := by
      rw [Value.getInt, htype]
      rfl
    rw [rejected_of_get rfl hget, Bool.true_and, decide_not]
  | false => rfl

/-- The id is read without a test of its type, so that an id that is no number throws. -/
theorem rejected_of_isValid (id : Value) (n : ℤ) (t : Responding) :
    rejected id.isValid id.getUint n t = .ok (!(id.isUint && decide (id.uint = n))) t ∨
      id.isUint = false ∧
        ∃ e, rejected id.isValid id.getUint n t = .error (.exception e) t := by
  cases hvalid : id.isValid with
  | false =>
    cases id with
    | invalid => exact .inl rfl
    | _ => cases hvalid
  | true =>
    cases huint : id.isUint with
    | true =>
      have hget : id.getUint t = .ok id.uint t := by
        rw [Value.getUint, huint]
        rfl
      refine .inl ?_
      rw [rejected_of_get rfl hget, Bool.true_and, decide_not]
    | false =>
      have hget : ∃ e, id.getUint t = .error (.exception e) t := by
        rw [Value.getUint, huint]
        exact ⟨_, rfl⟩
      obtain ⟨e, hget⟩ := hget
      exact .inr ⟨rfl, e, bind_of_error hget⟩

/-- What is done with a fault. -/
def processFault (fault : Value) : Exec Responding ProcessResponseEnum := do
  assign fault
  if ← andThen (onResult (Value.hasMember (ascii "code")))
      (onResult (Value.hasMember (ascii "message"))) then
    return .errorKeepOpen
  else
    invalidResponse (ascii "Invalid response, wrong fault fields")

/-- The tests of the type and of the id are passed. -/
theorem Answers.tests (h : Answers requestId type id) (t : Responding) :
    rejected type.isInt type.getInt 1 t = .ok false t ∧
      rejected id.isValid id.getUint requestId.toNat t = .ok false t := by
  obtain ⟨⟨hint, hone⟩, huint, hvalue⟩ := h
  constructor
  · rw [rejected_of_isInt, hint, hone, decide_eq_true rfl]
    rfl
  · rcases rejected_of_isValid id requestId.toNat t with hrun | ⟨hnot, -⟩
    · rw [hrun, huint, hvalue, decide_eq_true rfl]
      rfl
    · cases huint.symm.trans hnot

/-- The fault of a response is looked at. -/
theorem processElements_of_answers (h : Answers requestId type id) (hfault : fault ≠ .null)
    (t : Responding) :
    processElements type id fault msgResult requestId t = processFault fault t := by
  obtain ⟨htype, hid⟩ := h.tests t
  rw [processElements, bind_of_ok htype, if_neg Bool.false_ne_true, bind_of_ok hid,
    if_neg Bool.false_ne_true]
  -- The branch for a fault that is not null.
  · rfl
  · exact hfault

/-- A fault that is a map is returned where it has the members of a fault, and reported otherwise. -/
theorem processFault_map (ms : List (Bytes × Value)) (c : ℕ) (message : Value) :
    ∃ b : Bool, processFault (.map ms c) { message } =
      (if b then return .errorKeepOpen
      else invalidResponse (ascii "Invalid response, wrong fault fields") :
        Exec Responding ProcessResponseEnum) { result := .map ms c, message } := by
  let t : Responding := { result := .map ms c, message }
  have hassign : assign (.map ms c) { message } = .ok () t := rfl
  have hhas {key : Bytes} (hkey : (0 : UInt8) ∉ key) :
      onResult (Value.hasMember key) t = .ok ((Value.map ms c).field? key).isSome t :=
    onResult_of_ok (Value.hasMember_field? hkey)
  have hboth : ∃ b, andThen (onResult (Value.hasMember (ascii "code")))
      (onResult (Value.hasMember (ascii "message"))) t = .ok b t := by
    rw [andThen, bind_of_ok (hhas (by decide))]
    cases ((Value.map ms c).field? (ascii "code")).isSome with
    | true => exact ⟨_, hhas (by decide)⟩
    | false => exact ⟨_, rfl⟩
  obtain ⟨b, hboth⟩ := hboth
  exact ⟨b, by rw [processFault, bind_of_ok hassign, bind_of_ok hboth]⟩

theorem processFault_of_map {ms : List (Bytes × Value)} {c : ℕ} (hsize : ms.length ≤ c)
    (hc : c ≤ Value.maxMapCapacity) (hlimit : ms.length + 2 ≤ Value.maxMapCapacity)
    (message : Value) :
    ∃ outcome t, processFault (.map ms c) { message } = .ok outcome t := by
  obtain ⟨b, hrun⟩ := processFault_map ms c message
  rw [hrun]
  cases b with
  | true => exact ⟨_, _, rfl⟩
  | false =>
    obtain ⟨t, hclosing⟩ := closing_of_map hsize hc hlimit ErrorCode.invalidResponse
      (ascii "Invalid response, wrong fault fields") message
    exact ⟨_, t, hclosing⟩

/-- The members of a fault that is no map cannot be looked for, but the fault is the result. -/
theorem processFault_of_not_isMap (hmap : fault.isMap = false) (message : Value) :
    ∃ e, processFault fault { message } = .error (.exception e) { result := fault, message } := by
  obtain ⟨e, hhas⟩ := Value.hasMember_of_not_isMap hmap (ascii "code")
  have hassign : assign fault { message } = .ok () { result := fault, message } := rfl
  have hresult : onResult (Value.hasMember (ascii "code")) { result := fault, message } =
      .error (.exception e) { result := fault, message } := by
    rw [onResult, hhas]
  refine ⟨e, ?_⟩
  rw [processFault, bind_of_ok hassign, andThen]
  exact bind_of_error (bind_of_error hresult)

/-- A response with a fault is no success. -/
theorem processFault_ne_success {t : Responding} : processFault fault { message } ≠ .ok .success t := by
  intro hsuccess
  cases hmap : fault.isMap with
  | true =>
    obtain ⟨ms, c, rfl⟩ := Value.eq_map_of_isMap hmap
    obtain ⟨b, hrun⟩ := processFault_map ms c message
    rw [hrun] at hsuccess
    cases b with
    | true => cases hsuccess
    | false => cases closing_eq_ok hsuccess
  | false =>
    obtain ⟨e, hrun⟩ := processFault_of_not_isMap hmap message
    cases hrun.symm.trans hsuccess

/-- The result of a response is returned. -/
theorem processMessage_of_hasResult {r : Value} (h : HasResult requestId message r) :
    processMessage requestId { message } = .ok .success { result := r, message } := by
  obtain ⟨type, id, c, rfl, hanswers⟩ := h
  obtain ⟨htype, hid⟩ := hanswers.tests { message := .array [type, id, .null, r] c }
  rw [processMessage, bind_of_ok (get_apply _)]
  dsimp only
  rw [processElements, bind_of_ok htype, if_neg Bool.false_ne_true, bind_of_ok hid,
    if_neg Bool.false_ne_true]
  rfl

/-- Whatever else a response is, is reported, or throws before the result is assigned. -/
theorem processMessage_of_noAnswer (hnoFault : ∀ fault, ¬ HasFault requestId message fault)
    (hnoResult : ∀ r, ¬ HasResult requestId message r) :
    (∃ t, processMessage requestId { message } = .ok .errorClose t) ∨
      ∃ e, processMessage requestId { message } = .error (.exception e) { message } := by
  have hreported (errorMsg : Bytes) :
      ∃ t, invalidResponse errorMsg { message } = .ok .errorClose t :=
    closing_of_invalid ErrorCode.invalidResponse errorMsg message
  rw [processMessage, bind_of_ok (get_apply _)]
  dsimp only
  split
  · next type id fault msgResult c =>
    unfold processElements
    rw [bind_of_ok (rejected_of_isInt type 1 _)]
    cases htype : type.isInt && decide (type.int = 1) with
    | false => exact .inl (hreported _)
    | true =>
      rw [Bool.not_true, if_neg Bool.false_ne_true]
      -- An id that is no number throws here, where the result is not assigned yet.
      rcases rejected_of_isValid id requestId.toNat _ with hrun | ⟨-, e, hrun⟩
      · rw [bind_of_ok hrun]
        cases hid : id.isUint && decide (id.uint = requestId.toNat) with
        | false => exact .inl (hreported _)
        | true =>
          rw [Bool.and_eq_true, decide_eq_true_eq] at htype hid
          by_cases hfault : fault = .null
          · subst hfault
            exact absurd ⟨type, id, c, rfl, htype, hid⟩ (hnoResult msgResult)
          · exact absurd ⟨type, id, msgResult, c, rfl, ⟨htype, hid⟩, hfault⟩ (hnoFault fault)
      · exact .inr ⟨e, bind_of_error hrun⟩
  · exact .inl (hreported _)

/-- A fault of a response to the request is what the body of `ProcessResponse` ends with. -/
theorem processMessage_of_hasFault (h : HasFault requestId message fault) :
    processMessage requestId { message } = processFault fault { message } := by
  obtain ⟨type, id, msgResult, c, rfl, hanswers, hfault⟩ := h
  rw [processMessage, bind_of_ok (get_apply _)]
  exact processElements_of_answers hanswers hfault _

theorem HasFault.eq {fault' : Value} (h : HasFault requestId message fault)
    (h' : HasFault requestId message fault') : fault = fault' := by
  obtain ⟨type, id, msgResult, c, rfl, -⟩ := h
  obtain ⟨type', id', msgResult', c', heq, -⟩ := h'
  cases heq
  rfl

variable [Platform]

/-- The fault of a response that is read is a map within the limits, or what can be no map. -/
theorem HasFault.sized {is : ReadStream} {d : Document}
    {reader : Reader.Parsed Document MessagePackReader} (hregion : is.region = none)
    (hread : MessagePackReader.parseStream is d = .ok reader) (hok : reader.hasParseError = false)
    (h : HasFault requestId reader.handler.value fault) :
    fault.isInvalid = false ∧ ∀ ms c, fault = .map ms c → ms.length ≤ c ∧ c ≤ Value.maxMapCapacity := by
  obtain ⟨reader', hread', hcases⟩ := MessagePackReader.parseStream_cases is hregion d
  cases hread.symm.trans hread'
  obtain herror | ⟨-, t, v, -, hbuild, hhandler⟩ := hcases
  · cases hok.symm.trans herror
  · obtain ⟨type, id, msgResult, c, hvalue, -⟩ := h
    rw [hhandler] at hvalue
    have hvalue' : v = .array [type, id, fault, msgResult] c := hvalue
    subst hvalue'
    have hmem : fault ∈ [type, id, fault, msgResult] := by simp
    have hvalid : fault ≠ .invalid :=
      ((Value.all_array.mp (EventTree.fullyValid_of_build hbuild)).2 fault hmem).root
    have hsized := ((Value.all_array.mp (EventTree.grown_of_build hbuild).sized).2 fault hmem).root
    refine ⟨?_, fun ms c heq => ?_⟩
    · cases fault with
      | invalid => exact absurd rfl hvalid
      | _ => rfl
    · subst heq
      exact hsized

/-- `ProcessResponse` returns unless the response answers the request with a fault that is no map. -/
theorem returns_iff_isMap_fault {response : Bytes} {beyond : UInt8}
    {reader : Reader.Parsed Document MessagePackReader}
    (hread : MessagePackReader.parseStream (.inSituString response true false beyond) {} = .ok reader)
    (hlimit : ∀ ms c, HasFault requestId reader.handler.value (.map ms c) →
      ms.length + 2 ≤ Value.maxMapCapacity) :
    (∃ outcome t, processResponse response beyond requestId notification {} = .ok outcome t) ↔
      ((notification && response.isEmpty) = false → reader.hasParseError = false →
        ∀ fault, HasFault requestId reader.handler.value fault → fault.isMap = true) := by
  rw [processResponse, hread]
  cases hempty : notification && response.isEmpty with
  | true => exact iff_of_true ⟨_, _, rfl⟩ fun h => Bool.noConfusion h
  | false =>
    rw [if_neg Bool.false_ne_true]
    cases hok : reader.hasParseError with
    | true =>
      obtain ⟨t, hrun⟩ : ∃ t, process (.ok reader) (processMessage requestId) {} =
          .ok .errorClose t := process_of_hasParseError hok
      exact iff_of_true ⟨_, t, hrun⟩ fun _ hok => Bool.noConfusion hok
    | false =>
      by_cases hfault : ∃ fault, HasFault requestId reader.handler.value fault
      · obtain ⟨fault, hf⟩ := hfault
        obtain ⟨hvalid, hsized⟩ := hf.sized rfl hread hok
        have hbody := processMessage_of_hasFault hf
        cases hmap : fault.isMap with
        | true =>
          obtain ⟨ms, c, rfl⟩ := Value.eq_map_of_isMap hmap
          obtain ⟨hsize, hc⟩ := hsized ms c rfl
          obtain ⟨outcome, t, hrun⟩ := processFault_of_map hsize hc (hlimit ms c hf)
            reader.handler.value
          rw [← hbody] at hrun
          refine iff_of_true ⟨outcome, t, process_of_ok hok hrun⟩ fun _ _ fault' hf' => ?_
          rw [hf'.eq hf]
          rfl
        | false =>
          -- The fault is the result by then, and no other can be put into it.
          obtain ⟨e, hrun⟩ := processFault_of_not_isMap hmap reader.handler.value
          rw [← hbody] at hrun
          obtain ⟨e', t', hescape⟩ := process_of_not_isMap hmap hvalid hok hrun
          refine iff_of_false ?_ fun h => ?_
          · rintro ⟨outcome, t, hreturns⟩
            cases hescape.symm.trans hreturns
          · exact absurd (h rfl rfl fault hf) (hmap ▸ Bool.false_ne_true)
      · refine iff_of_true ?_ fun _ _ fault hf => absurd ⟨fault, hf⟩ hfault
        by_cases hresult : ∃ r, HasResult requestId reader.handler.value r
        · obtain ⟨r, hr⟩ := hresult
          exact ⟨_, _, process_of_ok hok (processMessage_of_hasResult hr)⟩
        · rcases processMessage_of_noAnswer (not_exists.mp hfault) (not_exists.mp hresult) with
            ⟨t, hrun⟩ | ⟨e, hrun⟩
          · exact ⟨_, t, process_of_ok hok hrun⟩
          · obtain ⟨t, hreturns⟩ := process_of_exception hok hrun
            exact ⟨_, t, hreturns⟩

omit [Platform] in
/-- A fault that is a string. -/
theorem returns_iff_isMap_fault_string :
    letI := Platform.blank
    ¬ ∃ outcome t, processResponse [0x94, 0x01, 0x00, 0xa0, 0xc0] 0 0 false {} = .ok outcome t := by
  let _ := Platform.blank
  let parsed : Except Fault (Reader.Parsed Document MessagePackReader) :=
    MessagePackReader.parseStream (.inSituString [0x94, 0x01, 0x00, 0xa0, 0xc0] true false 0) {}
  have hread : parsed.toOption.map (fun reader => (reader.hasParseError, reader.handler.value)) =
      some (false, .array [.number (.ofInteger 1), .number (.ofInteger 0), .string [], .null] 16) := by
    decide +kernel
  obtain ⟨reader, hparse, hok, hvalue⟩ := Reader.exists_parsed hread
  have hlimit (ms : List (Bytes × Value)) (c : ℕ)
      (hfault : HasFault 0 reader.handler.value (.map ms c)) :
      ms.length + 2 ≤ Value.maxMapCapacity := by
    obtain ⟨type, id, msgResult, c', heq, -⟩ := hfault
    rw [hvalue] at heq
    cases heq
  refine fun h => absurd ((returns_iff_isMap_fault hparse hlimit).mp h rfl hok (.string []) ?_)
    Bool.false_ne_true
  rw [hvalue]
  exact ⟨_, _, _, _, rfl, ⟨by decide, by decide, by decide⟩, Value.noConfusion⟩

/-- The client is told of success by the responses to the request that have a null fault. -/
theorem accepts_iff_null_fault {response : Bytes} {beyond : UInt8}
    {reader : Reader.Parsed Document MessagePackReader}
    (hread : MessagePackReader.parseStream (.inSituString response true false beyond) {} = .ok reader)
    (r : Value) :
    (∃ t, processResponse response beyond requestId notification {} = .ok .success t ∧
        t.result = r) ↔
      (notification && response.isEmpty) = false ∧ reader.hasParseError = false ∧
        HasResult requestId reader.handler.value r := by
  rw [processResponse, hread]
  cases hempty : notification && response.isEmpty with
  | true =>
    refine iff_of_false ?_ fun h => Bool.noConfusion h.1
    rintro ⟨t, hsuccess, -⟩
    cases hsuccess
  | false =>
    rw [if_neg Bool.false_ne_true]
    constructor
    · rintro ⟨t, hsuccess, rfl⟩
      obtain ⟨hok, hbody⟩ := process_eq_success hsuccess
      refine ⟨rfl, hok, ?_⟩
      by_cases hresult : ∃ r, HasResult requestId reader.handler.value r
      · obtain ⟨r, hr⟩ := hresult
        cases hbody.symm.trans (processMessage_of_hasResult hr)
        exact hr
      -- A fault is no success, and what is neither a fault nor a result is reported.
      by_cases hfault : ∃ fault, HasFault requestId reader.handler.value fault
      · obtain ⟨fault, hf⟩ := hfault
        rw [processMessage_of_hasFault hf] at hbody
        exact absurd hbody processFault_ne_success
      rcases processMessage_of_noAnswer (not_exists.mp hfault) (not_exists.mp hresult) with
        ⟨t', hrun⟩ | ⟨e, hrun⟩
      · cases hbody.symm.trans hrun
      · cases hrun.symm.trans hbody
    · rintro ⟨-, hok, hr⟩
      exact ⟨_, process_of_ok hok (processMessage_of_hasResult hr), rfl⟩

omit [Platform] in
/-- A response with the result `true`. -/
theorem accepts_iff_null_fault_true :
    letI := Platform.blank
    ∃ t, processResponse [0x94, 0x01, 0x00, 0xc0, 0xc3] 0 0 false {} = .ok .success t ∧
      t.result = .bool true := by
  let _ := Platform.blank
  let parsed : Except Fault (Reader.Parsed Document MessagePackReader) :=
    MessagePackReader.parseStream (.inSituString [0x94, 0x01, 0x00, 0xc0, 0xc3] true false 0) {}
  have hread : parsed.toOption.map (fun reader => (reader.hasParseError, reader.handler.value)) =
      some (false, .array [.number (.ofInteger 1), .number (.ofInteger 0), .null, .bool true] 16) := by
    decide +kernel
  obtain ⟨reader, hparse, hok, hvalue⟩ := Reader.exists_parsed hread
  refine (accepts_iff_null_fault hparse (.bool true)).mpr ⟨rfl, hok, ?_⟩
  rw [hvalue]
  exact ⟨_, _, _, rfl, ⟨by decide, by decide⟩, by decide, by decide⟩

end MessagePackClientHandler

end AnyRpc
