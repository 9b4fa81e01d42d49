import AnyRpc.MessagePack.Sound
import AnyRpc.MessagePack.Writer
import AnyRpc.Server.Method
import AnyRpc.Value.Equality

/-! # The MessagePack-RPC request handler

`MessagePackRpcHandler`. A request is an array of four elements and is answered by an array of four
elements; a notification is an array of three and is not answered. The test of the type of a message
asks for the value of a type that is not an integer, which throws outside of every `try` block, and
does not look at the value of one that is (`messagePackRpcHandler_iff`). -/

namespace AnyRpc

open Library Reader

namespace Server

variable {ω : Type}

/-! ## The handler -/

/-- `MessagePackGenerateResponse`. -/
def messagePackGenerateResponse (result id : Value) : Value :=
  .array [.number (.ofInt 1), id, .null, result] 4

/-- `MessagePackGenerateFaultResponse`. -/
def messagePackGenerateFaultResponse (errorCode : BitVec 32) (errorMsg : Bytes) (id : Value) :
    Value :=
  .array [.number (.ofInt 1), id,
    .map [(ascii "code", .number (.ofInt errorCode)), (ascii "message", .string errorMsg)]
      Value.defaultMapCapacity,
    .null] 4

/-- `!type.IsInt() && (type.GetInt() != expected)`. -/
def typeRejected (type : Value) (expected : ℤ) : Exec (Server ω) Bool :=
  if type.isInt then pure false
  else do return decide ((← type.getInt) ≠ expected)

/-- The body of the `try` block: the response to a call of a method. -/
def messagePackExecute (manager : MethodManager ω) (methodName : Bytes) (id params : Value) :
    Exec (Server ω) Value := do
  match ← executeMethod manager methodName params with
  | none =>
    return messagePackGenerateFaultResponse ErrorCode.methodNotFound (ascii "Method not found") id
  | some result => return messagePackGenerateResponse result id

/-- The response to a message that is malformed. -/
def messagePackInvalidRequest : Value :=
  messagePackGenerateFaultResponse ErrorCode.invalidRequest (ascii "Invalid Request") .null

/-- The response to an array of four elements, from where its type is admitted. -/
def messagePackProcessTyped (manager : MethodManager ω) (id method params : Value) :
    Exec (Server ω) Value :=
  if !id.isUint then pure messagePackInvalidRequest
  else
    match method with
    | .string methodName =>
      catchException (messagePackExecute manager (cString methodName) id params)
        fun fault => return messagePackGenerateFaultResponse fault.code fault.message id
    | _ => pure messagePackInvalidRequest

/-- The response to an array of four elements. -/
def messagePackProcessCall (manager : MethodManager ω) (type id method params : Value) :
    Exec (Server ω) Value := do
  if ← typeRejected type 0 then
    return messagePackInvalidRequest
  else
    messagePackProcessTyped manager id method params

/-- The processing of an array of three elements, from where its type is admitted. -/
def messagePackProcessTypedNotification (manager : MethodManager ω) (method params : Value) :
    Exec (Server ω) Unit :=
  match method with
  | .string methodName =>
    catchException (do let _ ← executeMethod manager (cString methodName) params)
      fun _ => pure ()
  | _ => pure ()

/-- The processing of an array of three elements, to which there is no response. The type is
compared with 1, which rejects nothing that is an integer. -/
def messagePackProcessNotification (manager : MethodManager ω) (type method params : Value) :
    Exec (Server ω) Unit := do
  if ← typeRejected type 1 then
    return ()
  else
    messagePackProcessTypedNotification manager method params

variable [Platform]

/-- `valueResponse.Traverse(mpackStrWriter)`. -/
def messagePackRespond (valueResponse : Value) : Exec (Server ω) Unit := fun s =>
  match Value.traverse valueResponse ({ os := s.response } : MessagePackWriter) with
  | .ok _ w => .ok () { s with response := w.os }
  | .error f w => .error f { s with response := w.os }

/-- The parsing of a request in place, and the byte that stands after it. -/
def messagePackParse (request : Bytes) (beyond : UInt8) :
    Except Fault (Parsed Document MessagePackReader) :=
  MessagePackReader.parseStream (.inSituString request true false beyond) {}

/-- `MessagePackRpcHandler`. -/
def messagePackRpcHandler (manager : MethodManager ω) (request : Bytes) (beyond : UInt8) :
    Exec (Server ω) Bool := do
  match messagePackParse request beyond with
  | .error f => throw f
  | .ok reader =>
    if reader.hasParseError then
      messagePackRespond (messagePackGenerateFaultResponse ErrorCode.parseError
        (ascii "Parse error") .null)
      return true
    else
      match reader.handler.value with
      | .array [type, id, method, params] _ =>
        messagePackRespond (← messagePackProcessCall manager type id method params)
        return true
      | .array [type, method, params] _ =>
        messagePackProcessNotification manager type method params
        return false
      | _ =>
        messagePackRespond messagePackInvalidRequest
        return true

/-! ## What it should do -/

/-- The message that a request holds, where it can be parsed. -/
def messagePackMessage? (request : Bytes) (beyond : UInt8) : Option Value :=
  match messagePackParse request beyond with
  | .ok reader => if reader.hasParseError then none else some reader.handler.value
  | .error _ => none

/-- The calls of `ExecuteMethod` for which a message asks: that of a request with an unsigned id, or
of a notification, of a method that is a string. -/
def messagePackCalls : Option Value → List (Bytes × Value)
  | some (.array [type, id, .string methodName, params] _) =>
    if type.HoldsInt 0 ∧ id.isUint = true then [(cString methodName, params)] else []
  | some (.array [type, .string methodName, params] _) =>
    if type.HoldsInt 2 then [(cString methodName, params)] else []
  | _ => []

/-- The id with which a message of four elements is answered. -/
def messagePackResponseId (id method : Value) : Value :=
  if id.isUint && method.isString then id else .null

/-- A message of four elements is answered by one array `[1, id, error, result]`, in which one of
the last two is null, and one of three elements by nothing. -/
def MessagePackAnswered (message : Option Value) (returned : Bool) (answer : Bytes) : Prop :=
  match message with
  | some (.array [_, id, method, _] _) => returned = true ∧ ∃ error result c,
      (error = Value.null ∨ result = Value.null) ∧
        answer = (Value.array [.number (.ofInt 1), messagePackResponseId id method, error, result]
          c).messagePack
  | some (.array [_, _, _] _) => returned = false ∧ answer = []
  | _ => True

/-- The handler returns, with exactly the calls and the answer that the message calls for. -/
def MessagePackServed (manager : MethodManager ω) (request : Bytes) (beyond : UInt8)
    (s : Server ω) : Prop :=
  ∃ returned s' answer, messagePackRpcHandler manager request beyond s = .ok returned s' ∧
    s'.executed = s.executed ++ messagePackCalls (messagePackMessage? request beyond) ∧
    s'.response = s.response ++ answer ∧
    MessagePackAnswered (messagePackMessage? request beyond) returned answer

/-- The type of a message is an integer, and either the one that is expected or the message is
malformed anyway. -/
def MessagePackTyped : Option Value → Prop
  | some (.array [type, id, method, _] _) =>
    type.isInt = true ∧ (type.int = 0 ∨ id.isUint = false ∨ method.isString = false)
  | some (.array [type, method, _] _) =>
    type.isInt = true ∧ (type.int = 2 ∨ method.isString = false)
  | _ => True

/-! ## What it does -/

/-- A response that is fully valid is written. -/
theorem messagePackRespond_eq {v : Value} (hv : v.FullyValid) (s : Server ω) :
    messagePackRespond v s = .ok () { s with response := s.response ++ v.messagePack } := by
  have h := MessagePackWriter.traverse_eq hv { os := s.response }
  rw [outcome_eq_ok] at h
  simp only [messagePackRespond, h]

omit [Platform] in
/-- A fault response is fully valid where its id is. -/
theorem fullyValid_fault (code : BitVec 32) (msg : Bytes) {id : Value} (hid : id.FullyValid) :
    (messagePackGenerateFaultResponse code msg id).FullyValid := by
  refine Value.all_array.mpr ⟨Value.noConfusion, ?_⟩
  simp only [List.forall_mem_cons]
  refine ⟨Value.noConfusion, hid, ?_, Value.noConfusion, by simp⟩
  refine Value.all_map.mpr ⟨Value.noConfusion, ?_⟩
  simp only [List.forall_mem_cons]
  exact ⟨Value.noConfusion, Value.noConfusion, by simp⟩

omit [Platform] in
/-- A response is fully valid where its id and its result are. -/
theorem fullyValid_response {result id : Value} (hresult : result.FullyValid)
    (hid : id.FullyValid) : (messagePackGenerateResponse result id).FullyValid := by
  refine Value.all_array.mpr ⟨Value.noConfusion, ?_⟩
  simp only [List.forall_mem_cons]
  exact ⟨Value.noConfusion, hid, Value.noConfusion, hresult, by simp⟩

omit [Platform] in
/-- An unsigned number is fully valid. -/
theorem fullyValid_of_isUint {id : Value} (h : id.isUint = true) : id.FullyValid := by
  cases id with
  | number n => exact Value.noConfusion
  | _ => cases h

omit [Platform] in
/-- The test of the type throws unless the type is an integer. -/
theorem typeRejected_of_isInt {type : Value} (h : type.isInt = true) (z : ℤ) :
    (typeRejected type z : Exec (Server ω) Bool) = pure false := by
  rw [typeRejected, if_pos h]

omit [Platform] in
theorem typeRejected_of_not_isInt {type : Value} (h : type.isInt = false) (z : ℤ) (s : Server ω) :
    ∃ f, typeRejected type z s = .error f s := by
  have hget : (type.getInt : Exec (Server ω) ℤ) s = .error (.exception
      { code := ErrorCode.valueAccess,
        message := ascii "Not Int, type=" ++ decimal type.getType }) s := by
    rw [Value.getInt, bind_apply, h, anyrpcAssert_false, anyrpcThrow_apply]
  exact ⟨_, by rw [typeRejected, if_neg (by simp [h]), bind_of_error hget]⟩

/-- What the handler does, by the message that a request holds. -/
theorem messagePackRpcHandler_eq (manager : MethodManager ω) (request : Bytes) (beyond : UInt8)
    (s : Server ω) :
    messagePackRpcHandler manager request beyond s =
      match messagePackMessage? request beyond with
      | some (.array [type, id, method, params] _) => (do
          messagePackRespond (← messagePackProcessCall manager type id method params)
          return true : Exec (Server ω) Bool) s
      | some (.array [type, method, params] _) => (do
          messagePackProcessNotification manager type method params
          return false : Exec (Server ω) Bool) s
      | some _ => (do
          messagePackRespond messagePackInvalidRequest
          return true : Exec (Server ω) Bool) s
      | none => (do
          messagePackRespond (messagePackGenerateFaultResponse ErrorCode.parseError
            (ascii "Parse error") .null)
          return true : Exec (Server ω) Bool) s := by
  obtain ⟨r, hr, -⟩ := MessagePackReader.parseStream_cases
    (.inSituString request true false beyond) rfl {}
  have hparse : messagePackParse request beyond = .ok r := hr
  simp only [messagePackRpcHandler, messagePackMessage?, hparse]
  cases herr : r.hasParseError with
  | true => rfl
  | false =>
    simp only [Bool.false_eq_true, if_false]
    split <;> simp_all

section

variable {manager : MethodManager ω} (hmanager : manager.WellBehaved)
variable (type id method params : Value) (s : Server ω)

include hmanager

omit [Platform] in
/-- The body of the `try` block and its handler: one call, and one response with the id. -/
theorem messagePackExecute_spec {id : Value} (hid : id.FullyValid) (methodName : Bytes) :
    ∃ world error result, (error = Value.null ∨ result = Value.null) ∧
      (Value.array [.number (.ofInt 1), id, error, result] 4).FullyValid ∧
      catchException (messagePackExecute manager methodName id params)
          (fun fault => return messagePackGenerateFaultResponse fault.code fault.message id) s =
        .ok (.array [.number (.ofInt 1), id, error, result] 4)
          { s with world, executed := s.executed ++ [(methodName, params)] } := by
  obtain ⟨world, hrun | ⟨v, hv, hrun⟩ | ⟨e, hrun⟩⟩ :=
    executeMethod_cases hmanager methodName params s
  · refine ⟨world, _, _, .inr rfl, fullyValid_fault ErrorCode.methodNotFound
      (ascii "Method not found") hid, ?_⟩
    simp only [catchException, messagePackExecute, bind_of_ok hrun]
    rfl
  · refine ⟨world, _, _, .inl rfl, fullyValid_response hv hid, ?_⟩
    simp only [catchException, messagePackExecute, bind_of_ok hrun]
    rfl
  · refine ⟨world, _, _, .inr rfl, fullyValid_fault e.code e.message hid, ?_⟩
    simp only [catchException, messagePackExecute, bind_of_error hrun]
    rfl

/-- The calls of a message of four elements whose type is an integer, whichever it is. -/
def messagePackIntCalls (id method params : Value) : List (Bytes × Value) :=
  match method with
  | .string methodName => if id.isUint = true then [(cString methodName, params)] else []
  | _ => []

omit [Platform] in
/-- A message of four elements whose type is an integer is answered. -/
theorem messagePackProcessCall_spec (htype : type.isInt = true) :
    ∃ world error result, (error = Value.null ∨ result = Value.null) ∧
      (Value.array [.number (.ofInt 1), messagePackResponseId id method, error, result]
        4).FullyValid ∧
      messagePackProcessCall manager type id method params s =
        .ok (.array [.number (.ofInt 1), messagePackResponseId id method, error, result] 4)
          { s with world, executed := s.executed ++ messagePackIntCalls id method params } := by
  have hrun : messagePackProcessCall manager type id method params s =
      messagePackProcessTyped manager id method params s := by
    rw [messagePackProcessCall, typeRejected_of_isInt htype]
    rfl
  have hnull : Value.null.FullyValid := Value.noConfusion
  have hfault := fullyValid_fault ErrorCode.invalidRequest (ascii "Invalid Request") hnull
  have hsame : s = { s with world := s.world, executed := s.executed ++ [] } := by
    rw [List.append_nil]
  rw [hrun]
  unfold messagePackProcessTyped
  cases hid : id.isUint with
  | false =>
    have hcalls : messagePackIntCalls id method params = [] := by
      cases method <;> simp [messagePackIntCalls, hid]
    rw [messagePackResponseId, hid, hcalls]
    exact ⟨s.world, _, _, .inr rfl, hfault, congrArg (EStateM.Result.ok _) hsame⟩
  | true =>
    cases method with
    | string methodName =>
      obtain ⟨world, error, result, hnone, hvalid, hexecute⟩ := messagePackExecute_spec hmanager
        params s (fullyValid_of_isUint hid) (cString methodName)
      refine ⟨world, error, result, hnone, ?_, ?_⟩
      · rw [messagePackResponseId, hid]
        exact hvalid
      · rw [messagePackResponseId, hid, messagePackIntCalls, if_pos hid]
        exact hexecute
    | _ =>
      rw [messagePackResponseId, hid, messagePackIntCalls]
      · exact ⟨s.world, _, _, .inr rfl, hfault, congrArg (EStateM.Result.ok _) hsame⟩
      all_goals simp

/-- The calls of a message of three elements whose type is an integer, whichever it is. -/
def messagePackIntNotifications (method params : Value) : List (Bytes × Value) :=
  match method with
  | .string methodName => [(cString methodName, params)]
  | _ => []

omit [Platform] in
/-- A message of three elements whose type is an integer, whichever it is. -/
theorem messagePackProcessNotification_spec (htype : type.isInt = true) :
    ∃ world, messagePackProcessNotification manager type method params s = .ok ()
      { s with world, executed := s.executed ++ messagePackIntNotifications method params } := by
  have hrun : messagePackProcessNotification manager type method params s =
      messagePackProcessTypedNotification manager method params s := by
    rw [messagePackProcessNotification, typeRejected_of_isInt htype]
    rfl
  have hsame : s = { s with world := s.world, executed := s.executed ++ [] } := by
    rw [List.append_nil]
  rw [hrun]
  cases method with
  | string methodName =>
    obtain ⟨world, hrun | ⟨v, -, hrun⟩ | ⟨e, hrun⟩⟩ :=
      executeMethod_cases hmanager (cString methodName) params s
    · exact ⟨world, by
        simp only [messagePackProcessTypedNotification, catchException, bind_of_ok hrun]
        rfl⟩
    · exact ⟨world, by
        simp only [messagePackProcessTypedNotification, catchException, bind_of_ok hrun]
        rfl⟩
    · exact ⟨world, by
        simp only [messagePackProcessTypedNotification, catchException, bind_of_error hrun]
        rfl⟩
  | _ => exact ⟨s.world, congrArg (EStateM.Result.ok _) hsame⟩

end

/-! ## When it does what it should -/

/-- A type that is no integer throws out of the handler. -/
theorem messagePackRpcHandler_throws (manager : MethodManager ω) {request : Bytes} {beyond : UInt8}
    {type : Value} {rest : List Value} {c : ℕ}
    (hmessage : messagePackMessage? request beyond = some (.array (type :: rest) c))
    (hlen : rest.length = 3 ∨ rest.length = 2) (htype : type.isInt = false) (s : Server ω) :
    ∃ f, messagePackRpcHandler manager request beyond s = .error f s := by
  rw [messagePackRpcHandler_eq, hmessage]
  rcases hlen with hlen | hlen
  · obtain ⟨id, method, params, rfl⟩ := List.length_eq_three.mp hlen
    obtain ⟨f, hf⟩ := typeRejected_of_not_isInt htype 0 s
    have hcall : messagePackProcessCall manager type id method params s = .error f s := by
      rw [messagePackProcessCall, bind_of_error hf]
    exact ⟨f, by simp only [bind_of_error hcall]⟩
  · obtain ⟨method, params, rfl⟩ := List.length_eq_two.mp hlen
    obtain ⟨f, hf⟩ := typeRejected_of_not_isInt htype 1 s
    have hcall : messagePackProcessNotification manager type method params s = .error f s := by
      rw [messagePackProcessNotification, bind_of_error hf]
    exact ⟨f, by simp only [bind_of_error hcall]⟩

omit [Platform] in
/-- The calls for which a message of four elements asks are those that are made, where its type is an
integer, unless the type is not zero and the message is otherwise well formed. -/
theorem messagePackIntCalls_eq_iff (type id method params : Value) (c : ℕ)
    (htype : type.isInt = true) :
    messagePackIntCalls id method params =
        messagePackCalls (some (.array [type, id, method, params] c)) ↔
      type.int = 0 ∨ id.isUint = false ∨ method.isString = false := by
  cases method with
  | string methodName =>
    simp only [messagePackIntCalls, messagePackCalls, Value.HoldsInt, htype, true_and,
      Value.isString]
    cases id.isUint <;> by_cases hint : type.int = 0 <;> simp [hint]
  | _ => simp [messagePackIntCalls, messagePackCalls, Value.isString]

/-- A message of four elements is served exactly if its type is an integer, and zero unless the
message is malformed. -/
theorem messagePackServed_call_iff {manager : MethodManager ω} (hmanager : manager.WellBehaved)
    {request : Bytes} {beyond : UInt8} {type id method params : Value} {c : ℕ}
    (hmessage : messagePackMessage? request beyond = some (.array [type, id, method, params] c))
    (s : Server ω) :
    MessagePackServed manager request beyond s ↔
      MessagePackTyped (some (.array [type, id, method, params] c)) := by
  cases htype : type.isInt with
  | false =>
    obtain ⟨f, hf⟩ := messagePackRpcHandler_throws manager hmessage (.inl rfl) htype s
    constructor
    · rintro ⟨returned, s', answer, hrun, -⟩
      rw [hf] at hrun
      cases hrun
    · rintro ⟨hint, -⟩
      rw [htype] at hint
      cases hint
  | true =>
    obtain ⟨world, error, result, hnone, hvalid, hcall⟩ :=
      messagePackProcessCall_spec hmanager type id method params s htype
    have hrun : messagePackRpcHandler manager request beyond s = .ok true
        { world, executed := s.executed ++ messagePackIntCalls id method params,
          response := s.response ++ (Value.array [.number (.ofInt 1),
            messagePackResponseId id method, error, result] 4).messagePack } := by
      rw [messagePackRpcHandler_eq, hmessage]
      simp only [bind_of_ok hcall, bind_of_ok (messagePackRespond_eq hvalid _)]
      rfl
    rw [MessagePackServed, hmessage, MessagePackTyped]
    constructor
    · rintro ⟨returned, s', answer, hrun', hexecuted, -, -⟩
      rw [hrun] at hrun'
      cases hrun'
      exact ⟨htype, (messagePackIntCalls_eq_iff type id method params c htype).mp
        (List.append_cancel_left hexecuted)⟩
    · rintro ⟨-, htyped⟩
      have hcalls := (messagePackIntCalls_eq_iff type id method params c htype).mpr htyped
      exact ⟨true, _, _, hrun, by rw [← hcalls], rfl, rfl, error, result, 4, hnone, rfl⟩

/-- A message of three elements is served exactly if its type is an integer, and two unless the
message is malformed. -/
theorem messagePackServed_notification_iff {manager : MethodManager ω}
    (hmanager : manager.WellBehaved) {request : Bytes} {beyond : UInt8}
    {type method params : Value} {c : ℕ}
    (hmessage : messagePackMessage? request beyond = some (.array [type, method, params] c))
    (s : Server ω) :
    MessagePackServed manager request beyond s ↔
      MessagePackTyped (some (.array [type, method, params] c)) := by
  cases htype : type.isInt with
  | false =>
    obtain ⟨f, hf⟩ := messagePackRpcHandler_throws manager hmessage (.inr rfl) htype s
    constructor
    · rintro ⟨returned, s', answer, hrun, -⟩
      rw [hf] at hrun
      cases hrun
    · rintro ⟨hint, -⟩
      rw [htype] at hint
      cases hint
  | true =>
    obtain ⟨world, hprocess⟩ :=
      messagePackProcessNotification_spec hmanager type method params s htype
    have hrun : messagePackRpcHandler manager request beyond s = .ok false
        { s with world, executed := s.executed ++ messagePackIntNotifications method params } := by
      rw [messagePackRpcHandler_eq, hmessage]
      simp only [bind_of_ok hprocess]
      rfl
    have hcalls : messagePackIntNotifications method params =
        messagePackCalls (some (.array [type, method, params] c)) ↔
        type.int = 2 ∨ method.isString = false := by
      cases method <;>
        simp [messagePackIntNotifications, messagePackCalls, Value.HoldsInt, htype, Value.isString]
    rw [MessagePackServed, hmessage, MessagePackTyped]
    constructor
    · rintro ⟨returned, s', answer, hrun', hexecuted, -, -⟩
      rw [hrun] at hrun'
      cases hrun'
      exact ⟨htype, hcalls.mp (List.append_cancel_left hexecuted)⟩
    · rintro ⟨-, htyped⟩
      exact ⟨false, _, [], hrun, by rw [← hcalls.mpr htyped], (List.append_nil _).symm, rfl, rfl⟩

/-- Any other message is served: it is answered by a fault and calls nothing. -/
theorem messagePackServed_of_fault {manager : MethodManager ω} {request : Bytes} {beyond : UInt8}
    {fault : Value} {s : Server ω} (hfault : fault.FullyValid)
    (hrun : messagePackRpcHandler manager request beyond s =
      (do messagePackRespond fault; return true : Exec (Server ω) Bool) s)
    (hcalls : messagePackCalls (messagePackMessage? request beyond) = [])
    (hanswered : ∀ returned answer,
      MessagePackAnswered (messagePackMessage? request beyond) returned answer) :
    MessagePackServed manager request beyond s := by
  rw [bind_of_ok (messagePackRespond_eq hfault s)] at hrun
  exact ⟨true, _, fault.messagePack, hrun, by rw [hcalls, List.append_nil], rfl, hanswered _ _⟩

/-- A server without methods. -/
def noMethods : MethodManager Unit where
  find _ := none

/-- The request `[0, 1, method, [nil]]`. -/
def nilRequest (method : Bytes) : Bytes :=
  [0x94, 0x00, 0x01, 0xa0 + .ofNat method.length] ++ method ++ [0x91, 0xc0]

/-- The notification `[2, method, [nil]]`. -/
def nilNotification (method : Bytes) : Bytes :=
  [0x93, 0x02, 0xa0 + .ofNat method.length] ++ method ++ [0x91, 0xc0]

omit [Platform] in
/-- What the requests for the methods of `counting` are read as, the second with a method that
throws, and a notification. -/
theorem messagePackMessage?_nilRequest :
    letI := Platform.blank
    messagePackMessage? (nilRequest (ascii "count")) 0 = some (.array [.number (.ofUint 0),
        .number (.ofUint 1), .string (ascii "count"), .array [.null] 16] 16) ∧
      messagePackMessage? (nilRequest (ascii "fail")) 0 = some (.array [.number (.ofUint 0),
        .number (.ofUint 1), .string (ascii "fail"), .array [.null] 16] 16) ∧
      messagePackMessage? (nilNotification (ascii "count")) 0 = some (.array
        [.number (.ofUint 2), .string (ascii "count"), .array [.null] 16] 16) := by
  decide +kernel

/-- A message that throws is not served. -/
theorem not_messagePackServed_of_threw {manager : MethodManager ω} {request : Bytes}
    {beyond : UInt8} {s : Server ω}
    (h : threw (messagePackRpcHandler manager request beyond s) = true) :
    ¬ MessagePackServed manager request beyond s := by
  rintro ⟨returned, s', answer, hrun, -⟩
  rw [hrun] at h
  cases h

/-- A message with another number of calls than it asks for is not served. -/
theorem not_messagePackServed_of_executed {manager : MethodManager ω} {request : Bytes}
    {beyond : UInt8} {s : Server ω}
    (h : (reached (messagePackRpcHandler manager request beyond s)).executed.length ≠
      s.executed.length + (messagePackCalls (messagePackMessage? request beyond)).length) :
    ¬ MessagePackServed manager request beyond s := by
  rintro ⟨returned, s', answer, hrun, hexecuted, -⟩
  rw [hrun, reached_ok, hexecuted, List.length_append] at h
  exact h rfl

end Server

end AnyRpc
