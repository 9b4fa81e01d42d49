import AnyRpc.Call.Call
import AnyRpc.MessagePack.RoundTrip
import AnyRpc.Server.MessagePack

/-! # Calls by MessagePack

The request and the response are written by one side and read in place by the other one, with the
conversion of extensions. -/

namespace AnyRpc

open Library Handler Reader Value

/-- A value that is read as it is written, in place and with the conversion. -/
structure Value.Sendable (v : Value) : Prop where
  plain : v.All IsPlain
  readable : v.All (IsReadable true)
  ordinary : v.All IsOrdinary

/-- An end that the client can be told. -/
def Sendable : Except AnyRpcException Value → Prop
  | .ok v => v.Sendable
  | .error e => e.message.length < 2 ^ 32

variable [Platform] {ω : Type}

/-- MessagePack-RPC. -/
def messagePackProtocol : CallProtocol ω where
  generateRequest := MessagePackClientHandler.generateRequest
  rpcHandler := Server.messagePackRpcHandler
  processResponse := MessagePackClientHandler.processResponse

/-! ## Messages -/

omit [Platform] in
/-- An array of a few values that can be sent. -/
theorem Value.sendable_array {es : List Value} {c : ℕ} (hlen : es.length ≤ 4)
    (hes : ∀ e ∈ es, e.Sendable) (hx : EventTree.extension? es = none) :
    (Value.array es c).Sendable where
  plain := all_array.mpr ⟨lt_of_le_of_lt hlen (by decide), fun e he => (hes e he).plain⟩
  readable := all_array.mpr ⟨hlen.trans (by decide), fun e he => (hes e he).readable⟩
  ordinary := all_array.mpr ⟨hx, fun e he => (hes e he).ordinary⟩

omit [Platform] in
theorem Value.sendable_ofInt (i : BitVec 32) : (Value.number (.ofInt i)).Sendable := by
  have hplain : (Value.number (.ofInt i)).IsPlain := by
    refine .inl ⟨i.toInt, ?_, Number.ofInt_eq i⟩
    have hlo := i.le_toInt
    have hhi := i.toInt_lt
    constructor <;> omega
  exact ⟨hplain, trivial, trivial⟩

omit [Platform] in
theorem Value.sendable_ofUint (u : BitVec 32) : (Value.number (.ofUint u)).Sendable := by
  have hplain : (Value.number (.ofUint u)).IsPlain := by
    refine .inl ⟨u.toNat, ?_, Number.ofUint_eq u⟩
    have hlt := u.isLt
    constructor <;> omega
  exact ⟨hplain, trivial, trivial⟩

omit [Platform] in
theorem Value.sendable_string {str : Bytes} (h : str.length < 2 ^ 32) :
    (Value.string str).Sendable := ⟨h, trivial, trivial⟩

omit [Platform] in
theorem Value.sendable_null : Value.null.Sendable := ⟨trivial, trivial, trivial⟩

/-- A value that can be sent is read in place as it is written. -/
theorem MessagePackReader.parses_messagePack {v : Value} (hv : v.Sendable) (beyond : UInt8) :
    ∃ r, parseStream (.inSituString v.messagePack true false beyond) ({} : Document) = .ok r ∧
      r.hasParseError = false ∧ r.handler.value.contents = v.contents := by
  have hleft : Left false { new (.inSituString v.messagePack true false beyond) with calls := [] }
      (v.messagePack ++ []) := ⟨rfl, rfl, (List.append_nil _).symm⟩
  obtain ⟨t, hbuilds, s', hrun, hstep, -⟩ :=
    parse_messagePack hv.plain hv.readable (Nat.le_succ _) _ _ _ rfl hleft
  obtain ⟨w, hbuild, hcontents⟩ := hbuilds.of_isOrdinary hv.ordinary true
  exact ⟨_, parseStream_of_build hrun (by rw [hstep.events]; rfl) hbuild, rfl, hcontents⟩

/-- The message that the handler of the server finds in a request. -/
theorem Server.message?_of_sendable {v : Value} (hv : v.Sendable) (beyond : UInt8) :
    ∃ w, messagePackMessage? v.messagePack beyond = some w ∧ w.contents = v.contents := by
  obtain ⟨r, hr, hok, hcontents⟩ := MessagePackReader.parses_messagePack hv beyond
  have hparse : messagePackParse v.messagePack beyond = .ok r := hr
  exact ⟨_, by simp [messagePackMessage?, hparse, hok], hcontents⟩

/-! ## The server -/

namespace Server

/-- The answer to a call, by how its method ended. -/
def messagePackAnswer (id : BitVec 32) : Except AnyRpcException Value → Value
  | .ok v => messagePackGenerateResponse v (.number (.ofUint id))
  | .error e => messagePackGenerateFaultResponse e.code e.message (.number (.ofUint id))

omit [Platform] in
/-- The answer of an end that can be told can be sent. -/
theorem sendable_messagePackAnswer (id : BitVec 32) {r : Except AnyRpcException Value}
    (hr : Sendable r) : (messagePackAnswer id r).Sendable := by
  have hid := Value.sendable_ofUint id
  have htype := Value.sendable_ofInt 1
  cases r with
  | ok v =>
    refine Value.sendable_array (by simp) ?_ rfl
    simp only [List.forall_mem_cons]
    exact ⟨htype, hid, Value.sendable_null, hr, by simp⟩
  | error e =>
    refine Value.sendable_array (by simp) ?_ rfl
    simp only [List.forall_mem_cons]
    refine ⟨htype, hid, ?_, Value.sendable_null, by simp⟩
    have hcode := Value.sendable_ofInt e.code
    have hmessage := Value.sendable_string hr
    have hkeys : ∀ m ∈ [(ascii "code", Value.number (.ofInt e.code)),
        (ascii "message", Value.string e.message)], MessagePackReader.KeyReadable true m.1 := by
      simp only [List.forall_mem_cons]
      exact ⟨⟨by decide, .inl rfl⟩, ⟨by decide, .inl rfl⟩, by simp⟩
    refine ⟨all_map.mpr ⟨show 2 ≤ maxMapCapacity by decide, ?_⟩, all_map.mpr ⟨hkeys, ?_⟩,
      all_map.mpr ⟨trivial, ?_⟩⟩
    all_goals simp only [List.forall_mem_cons]
    · exact ⟨hcode.plain, hmessage.plain, by simp⟩
    · exact ⟨hcode.readable, hmessage.readable, by simp⟩
    · exact ⟨hcode.ordinary, hmessage.ordinary, by simp⟩

variable {manager : MethodManager ω} {name : Bytes} {params : Value} {s : Server ω}
variable {r : Except AnyRpcException Value} {world : ω} {request : Bytes} {beyond : UInt8} {c : ℕ}

omit [Platform] in
/-- A call of a method, by how the method ends. -/
theorem messagePackExecute_of_ends (hends : manager.Ends name params s.world r world)
    (id : BitVec 32) :
    catchException (messagePackExecute manager name (.number (.ofUint id)) params)
        (fun fault => pure (messagePackGenerateFaultResponse fault.code fault.message
          (.number (.ofUint id)))) s =
      .ok (messagePackAnswer id r) (s.after (name, params) world) := by
  rw [catchException_eq]
  cases hends with
  | missing hfind =>
    refine catching_of_ok ?_
    rw [messagePackExecute, bind_of_ok (executeMethod_of_none hfind)]
    rfl
  | returned hfind hrun =>
    refine catching_of_ok ?_
    rw [messagePackExecute, bind_of_ok (executeMethod_of_ok hfind hrun)]
    rfl
  | threw hfind hrun =>
    refine (catching_of_exception ?_).trans rfl
    rw [messagePackExecute, bind_of_error (executeMethod_of_error hfind hrun)]

/-- A request is answered by how its method ends. -/
theorem messagePackRpcHandler_of_ends {id : BitVec 32}
    (hmessage : messagePackMessage? request beyond = some (.array [.number (.ofInt 0),
      .number (.ofUint id), .string name, params] c))
    (hends : manager.Ends (cString name) params s.world r world) (hr : Sendable r) :
    messagePackRpcHandler manager request beyond s =
      .ok true { s.after (cString name, params) world with
        response := s.response ++ (messagePackAnswer id r).messagePack } := by
  have hint : (Value.number (.ofInt 0)).isInt = true := by decide
  have hprocess : messagePackProcessCall manager (.number (.ofInt 0)) (.number (.ofUint id))
      (.string name) params s =
        .ok (messagePackAnswer id r) (s.after (cString name, params) world) := by
    rw [messagePackProcessCall, typeRejected_of_isInt hint, pure_bind,
      if_neg Bool.false_ne_true, messagePackProcessTyped, Value.isUint_ofUint, if_neg (by simp)]
    exact messagePackExecute_of_ends hends id
  have hvalid : (messagePackAnswer id r).FullyValid :=
    (sendable_messagePackAnswer id hr).plain.mono fun v hv => by rintro rfl; exact hv
  rw [messagePackRpcHandler_eq, hmessage]
  simp only [bind_of_ok hprocess, bind_of_ok (messagePackRespond_eq hvalid _)]
  rfl

/-- A notification is carried out, however its method ends. -/
theorem messagePackRpcHandler_of_notification
    (hmessage : messagePackMessage? request beyond = some (.array [.number (.ofInt 2),
      .string name, params] c))
    (hends : manager.Ends (cString name) params s.world r world) :
    messagePackRpcHandler manager request beyond s =
      .ok false (s.after (cString name, params) world) := by
  have hint : (Value.number (.ofInt 2)).isInt = true := by decide
  have hprocess : messagePackProcessNotification manager (.number (.ofInt 2)) (.string name) params
      s = .ok () (s.after (cString name, params) world) := by
    rw [messagePackProcessNotification, typeRejected_of_isInt hint, pure_bind,
      if_neg Bool.false_ne_true, messagePackProcessTypedNotification, catchException_eq]
    cases hends with
    | missing hfind =>
      refine catching_of_ok ?_
      rw [bind_of_ok (executeMethod_of_none hfind)]
      rfl
    | returned hfind hrun =>
      refine catching_of_ok ?_
      rw [bind_of_ok (executeMethod_of_ok hfind hrun)]
      rfl
    | @threw _ e _ hfind hrun =>
      have herror := executeMethod_of_error hfind hrun
      exact catching_of_exception (bind_of_error herror)
  rw [messagePackRpcHandler_eq, hmessage]
  simp only [bind_of_ok hprocess]
  rfl

end Server

/-! ## The client -/

namespace MessagePackClientHandler

open ClientHandler

variable {requestId : BitVec 32} {msgResult : Value}

omit [Platform] in
/-- The tests of a response with the right type and the right id. -/
theorem rejected_of_answer (requestId : BitVec 32) (t : Responding) :
    rejected (Value.number (.ofInt 1)).isInt (Value.number (.ofInt 1)).getInt 1 t = .ok false t ∧
      rejected (Value.number (.ofUint requestId)).isValid
        (Value.number (.ofUint requestId)).getUint requestId.toNat t = .ok false t := by
  have hvalid : (Value.number (.ofUint requestId)).isValid = true := rfl
  refine ⟨rejected_of_get (by decide) rfl, ?_⟩
  exact (rejected_of_get hvalid (Value.getUint_ofUint requestId t)).trans (by simp)

omit [Platform] in
/-- A response with a result. -/
theorem processElements_of_result (t : Responding) :
    processElements (.number (.ofInt 1)) (.number (.ofUint requestId)) .null msgResult requestId t =
      .ok .success { t with result := msgResult } := by
  obtain ⟨htype, hid⟩ := rejected_of_answer requestId t
  rw [processElements, bind_of_ok htype, if_neg Bool.false_ne_true, bind_of_ok hid,
    if_neg Bool.false_ne_true]
  rfl

omit [Platform] in
/-- A response with a fault that has both of its members. -/
theorem processElements_of_fault {ms : List (Bytes × Value)} {c : ℕ}
    (hcode : (Value.memberIndex (ascii "code") ms).isSome = true)
    (hmessage : (Value.memberIndex (ascii "message") ms).isSome = true) (t : Responding) :
    processElements (.number (.ofInt 1)) (.number (.ofUint requestId)) (.map ms c) msgResult
        requestId t = .ok .errorKeepOpen { t with result := .map ms c } := by
  obtain ⟨htype, hid⟩ := rejected_of_answer requestId t
  have hhas {key : Bytes} (hkey : (0 : UInt8) ∉ key)
      (h : (Value.memberIndex key ms).isSome = true) :
      Responding.onResult (Value.hasMember key) { t with result := .map ms c } =
        .ok true { t with result := .map ms c } := by
    rw [Responding.onResult, Value.hasMember_map hkey, h]
  have hboth : andThen (Responding.onResult (Value.hasMember (ascii "code")))
      (Responding.onResult (Value.hasMember (ascii "message"))) { t with result := .map ms c } =
        .ok true { t with result := .map ms c } := by
    rw [andThen, bind_of_ok (hhas (by decide) hcode), if_pos rfl, hhas (by decide) hmessage]
  have hassign : Responding.assign (.map ms c) t = .ok () { t with result := .map ms c } := rfl
  rw [processElements, bind_of_ok htype, if_neg Bool.false_ne_true, bind_of_ok hid,
    if_neg Bool.false_ne_true, bind_of_ok hassign, bind_of_ok hboth]
  · rfl
  · exact Value.noConfusion

/-- The client is told by an answer how the method ended. -/
theorem processResponse_tells {r : Except AnyRpcException Value} (hr : Sendable r) (beyond : UInt8) :
    ∃ outcome t, processResponse (Server.messagePackAnswer requestId r).messagePack beyond requestId
        false {} = .ok outcome t ∧ Tells (fun _ => .errorKeepOpen) r outcome t.result := by
  obtain ⟨reader, hparse, hok, hcontents⟩ := MessagePackReader.parses_messagePack
    (Server.sendable_messagePackAnswer requestId hr) beyond
  have hprocess {outcome : ProcessResponseEnum} {t : Responding}
      (h : processMessage requestId { message := reader.handler.value } = .ok outcome t) :
      processResponse (Server.messagePackAnswer requestId r).messagePack beyond requestId false {} =
        .ok outcome t := by
    rw [processResponse, Bool.false_and, if_neg Bool.false_ne_true, hparse]
    exact process_of_ok hok h
  cases r with
  | ok v =>
    obtain ⟨type, id, fault, msgResult, c, hes, htype, hid, hfault, hresult⟩ :=
      Value.eq_four_of_contents hcontents
    cases Value.eq_of_contents htype rfl rfl
    cases Value.eq_of_contents hid rfl rfl
    cases eq_null_of_contents hfault
    refine ⟨.success, { message := reader.handler.value, result := msgResult }, hprocess ?_, rfl,
      hresult⟩
    rw [processMessage, bind_of_ok (get_apply _), hes]
    exact processElements_of_result _
  | error e =>
    obtain ⟨type, id, fault, msgResult, c, hes, htype, hid, hfault, -⟩ :=
      Value.eq_four_of_contents hcontents
    cases Value.eq_of_contents htype rfl rfl
    cases Value.eq_of_contents hid rfl rfl
    obtain ⟨ms, c', rfl, hms⟩ := Value.eq_members_of_contents hfault
    obtain _ | ⟨⟨hcode, -⟩, _ | ⟨⟨hmessage, -⟩, hnil⟩⟩ := hms
    cases hnil
    refine ⟨.errorKeepOpen, { message := reader.handler.value, result := .map _ c' }, hprocess ?_,
      rfl, hfault.trans rfl⟩
    rw [processMessage, bind_of_ok (get_apply _), hes]
    have hne : ascii "code" ≠ ascii "message" := by decide
    refine processElements_of_fault ?_ ?_ _
    · simp [Value.memberIndex, List.findIdx?_cons, hcode]
    · simp [Value.memberIndex, List.findIdx?_cons, hcode, hmessage, hne]

end MessagePackClientHandler

/-! ## Calls -/

section

variable {method : Bytes} {g : Generation} {s : Server ω}

omit [Platform] in
/-- The request for parameters that can be sent can be sent. -/
theorem sendable_messagePackRequest (hmethod : method.length < 2 ^ 32) {params : Value}
    (hparams : params.Sendable) (id : Option (BitVec 32)) :
    (MessagePackClientHandler.request method params id).Sendable := by
  have hname : (Value.string (cString method)).Sendable :=
    Value.sendable_string (lt_of_le_of_lt (List.takeWhile_prefix _).length_le hmethod)
  cases id with
  | none =>
    refine Value.sendable_array (by simp) ?_ rfl
    simp only [List.forall_mem_cons]
    exact ⟨Value.sendable_ofInt 2, hname, hparams, by simp⟩
  | some id =>
    refine Value.sendable_array (by simp) ?_ rfl
    simp only [List.forall_mem_cons]
    exact ⟨Value.sendable_ofInt 0, Value.sendable_ofUint id, hname, hparams, by simp⟩

/-- The request that is sent is that for the parameters, which are given back. -/
theorem MessagePackClientHandler.generates (hmethod : method.length < 2 ^ 32)
    (hparams : g.params.Sendable) (hos : g.os = []) (notification : Bool) :
    ∃ g', generateRequest method notification g = .ok true g' ∧ g'.params = g.params ∧
      g'.requestId = (if notification then 0 else g.nextId) ∧
      g'.os = (request method g.params (if notification then none else some g.nextId)).messagePack := by
  have hvalid (id : Option (BitVec 32)) : (request method g.params id).FullyValid :=
    (sendable_messagePackRequest hmethod hparams id).plain.mono
      fun v hv => by rintro rfl; exact hv
  have hstart : (g.requested notification (request method g.params)).os = [] := by
    cases notification <;> exact hos
  have htraverse (id : Option (BitVec 32)) :
      Value.traverse (request method g.params id) ({} : MessagePackWriter) =
        .ok () ⟨(request method g.params id).messagePack⟩ :=
    outcome_eq_ok.mp (MessagePackWriter.traverse_eq (hvalid id) {})
  rw [generateRequest_eq]
  cases notification with
  | true =>
    have hchild : (g.requested true (request method g.params)).request.child? 2 = some g.params := rfl
    obtain ⟨g', hsend, hos', hparams', hid⟩ := Generation.send_of_traverse (fun os => { os })
      MessagePackWriter.os (by rw [hstart]; exact htraverse none)
      (by rfl : Value.element 2 _ = .ok 2 _) hchild
    exact ⟨g', hsend, hparams', hid, hos'⟩
  | false =>
    have hchild : (g.requested false (request method g.params)).request.child? 3 = some g.params := rfl
    obtain ⟨g', hsend, hos', hparams', hid⟩ := Generation.send_of_traverse (fun os => { os })
      MessagePackWriter.os (by rw [hstart]; exact htraverse (some g.nextId))
      (by rfl : Value.element 3 _ = .ok 3 _) hchild
    exact ⟨g', hsend, hparams', hid, hos'⟩

/-- The message of a request. -/
theorem Server.message?_of_request (hmethod : method.length < 2 ^ 32) {params : Value}
    (hparams : params.Sendable) (beyond : UInt8) :
    (∀ id, ∃ params' c, params'.contents = params.contents ∧
      messagePackMessage? (MessagePackClientHandler.request method params (some id)).messagePack
        beyond = some (.array [.number (.ofInt 0), .number (.ofUint id), .string (cString method),
          params'] c)) ∧
      ∃ params' c, params'.contents = params.contents ∧
        messagePackMessage? (MessagePackClientHandler.request method params none).messagePack
          beyond = some (.array [.number (.ofInt 2), .string (cString method), params'] c) := by
  constructor
  · intro id
    obtain ⟨w, hw, hcontents⟩ :=
      message?_of_sendable (sendable_messagePackRequest hmethod hparams (some id)) beyond
    obtain ⟨type, id', name, params', c, rfl, htype, hid, hname, hparams'⟩ :=
      Value.eq_four_of_contents hcontents
    cases Value.eq_of_contents htype rfl rfl
    cases Value.eq_of_contents hid rfl rfl
    cases Value.eq_of_contents hname rfl rfl
    exact ⟨params', c, hparams', hw⟩
  · obtain ⟨w, hw, hcontents⟩ :=
      message?_of_sendable (sendable_messagePackRequest hmethod hparams none) beyond
    obtain ⟨type, name, params', c, rfl, htype, hname, hparams'⟩ :=
      Value.eq_three_of_contents hcontents
    cases Value.eq_of_contents htype rfl rfl
    cases Value.eq_of_contents hname rfl rfl
    exact ⟨params', c, hparams', hw⟩

/-- A call by MessagePack is a call of the method, and so is a notification, for parameters and
results that can be sent. -/
theorem messagePackProtocol_calls (manager : MethodManager ω) (hmethod : method.length < 2 ^ 32)
    (hparams : g.params.Sendable) (hos : g.os = []) (hresponse : s.response = [])
    (beyond beyond' : UInt8) :
    messagePackProtocol.Calls manager Sendable (fun _ => .errorKeepOpen) method g s beyond beyond' ∧
      messagePackProtocol.Notifies manager (fun _ => True) method g s beyond := by
  constructor
  · obtain ⟨g', hgenerate, hparams', hid, hrequest⟩ :=
      MessagePackClientHandler.generates hmethod hparams hos false
    obtain ⟨params, c, hcontents, hmessage⟩ :=
      (Server.message?_of_request hmethod hparams beyond).1 g.nextId
    refine ⟨g', hgenerate, hparams', params, hcontents, fun r world hends hr => ?_⟩
    have hname : cString (cString method) = cString method := cString_of_notMem (notMem_cString _)
    rw [← hname] at hends
    have hhandler := Server.messagePackRpcHandler_of_ends hmessage hends hr
    refine ⟨_, by rw [hrequest]; exact hhandler, rfl, by rw [hname]; rfl, ?_⟩
    show ∃ outcome t, MessagePackClientHandler.processResponse
      (s.response ++ (Server.messagePackAnswer g.nextId r).messagePack) beyond' g'.requestId false {} =
        .ok outcome t ∧ Tells (fun _ => .errorKeepOpen) r outcome t.result
    rw [hid, hresponse]
    exact MessagePackClientHandler.processResponse_tells hr beyond'
  · obtain ⟨g', hgenerate, hparams', -, hrequest⟩ :=
      MessagePackClientHandler.generates hmethod hparams hos true
    obtain ⟨params, c, hcontents, hmessage⟩ :=
      (Server.message?_of_request hmethod hparams beyond).2
    refine ⟨g', hgenerate, hparams', params, hcontents, fun r world hends _ => ?_⟩
    have hname : cString (cString method) = cString method := cString_of_notMem (notMem_cString _)
    rw [← hname] at hends ⊢
    rw [hrequest]
    exact Server.messagePackRpcHandler_of_notification hmessage hends

end

omit [Platform] in
theorem messagePackProtocol_calls_echoing :
    letI := Platform.blank
    let g : Generation := { params := .array [.bool true] 1 }
    messagePackProtocol.Calls echoing Sendable (fun _ => .errorKeepOpen) (ascii "echo") g
        { world := () } 0 0 ∧
      messagePackProtocol.Notifies echoing (fun _ => True) (ascii "echo") g { world := () } 0 := by
  let _ := Platform.blank
  refine messagePackProtocol_calls echoing (by decide) ?_ rfl rfl 0 0
  refine Value.sendable_array (by decide) ?_ rfl
  simp only [List.forall_mem_cons]
  exact ⟨⟨trivial, trivial, trivial⟩, by simp⟩

end AnyRpc
