import AnyRpc.Call.Call
import AnyRpc.Server.JsonAnswers

/-! # Calls by JSON

The request and the response are texts, which are read in place and with the conversion of extensions.
A method that throws is told by its code whether the connection is kept open, and a notification of
which the method throws is answered though nobody waits for it. -/

namespace AnyRpc

open Library Handler Reader Value Building

variable [Platform] {ω : Type}

/-- JSON-RPC. -/
def jsonProtocol : CallProtocol ω where
  generateRequest := JsonClientHandler.generateRequest
  rpcHandler := Server.jsonRpcHandler
  processResponse := JsonClientHandler.processResponse

/-- An end whose result can be written as JSON. -/
def Legible (r : Except AnyRpcException Value) : Prop :=
  ∀ v, r = .ok v → v.All (IsJson true)

/-- Behind an exception of the application the connection is kept. -/
def jsonKept (e : AnyRpcException) : ProcessResponseEnum :=
  if e.code.toInt > -32300 ∨ e.code.toInt < -32500 then .errorKeepOpen else .errorClose

/-! ## Messages -/

omit [Platform] in
/-- A map of a few members that can be written as JSON. -/
theorem Value.isJson_map {ms : List (Bytes × Value)} {c : ℕ} (hlen : ms.length ≤ 4)
    (hms : ∀ m ∈ ms, m.2.All (IsJson true)) : (Value.map ms c).All (IsJson true) :=
  all_map.mpr ⟨hlen.trans (by decide), hms⟩

omit [Platform] in
theorem Value.isJson_ofUint (u : BitVec 32) : (Value.number (.ofUint u)).All (IsJson true) := by
  have hlt := u.isLt
  refine ⟨u.toNat, ?_, Number.ofUint_eq u⟩
  constructor <;> omega

omit [Platform] in
theorem Value.isJson_ofInt (i : BitVec 32) : (Value.number (.ofInt i)).All (IsJson true) := by
  have hlo := i.le_toInt
  have hhi := i.toInt_lt
  refine ⟨i.toInt, ?_, Number.ofInt_eq i⟩
  constructor <;> omega

omit [Platform] in
/-- A request for parameters that can be written can be written. -/
theorem isJson_jsonRequest (method : Bytes) {params : Value} (hparams : params.All (IsJson true))
    (id : Option (BitVec 32)) : (JsonClientHandler.request method params id).All (IsJson true) := by
  cases id with
  | none =>
    refine Value.isJson_map (by simp) ?_
    simp only [Option.map_none, Option.toList_none, List.append_nil, List.forall_mem_cons]
    exact ⟨trivial, trivial, hparams, by simp⟩
  | some id =>
    refine Value.isJson_map (by simp) ?_
    simp only [Option.map_some, Option.toList_some, List.cons_append, List.nil_append,
      List.forall_mem_cons]
    exact ⟨trivial, trivial, hparams, Value.isJson_ofUint id, by simp⟩

/-! ## The client -/

/-- The request that is sent is that for the parameters, which are given back. -/
theorem JsonClientHandler.generates (method : Bytes) {g : Generation}
    (hparams : g.params.All (IsJson true)) (hos : g.os = []) (notification : Bool) :
    ∃ g', generateRequest method notification g = .ok true g' ∧ g'.params = g.params ∧
      g'.requestId = (if notification then 0 else g.nextId) ∧
      ∀ (is : ReadStream) (d : Document), is.rest = g'.os → d.convertExtensions = true →
        ∃ r, JsonReader.parseStream is d = .ok r ∧ r.hasParseError = false ∧
          r.handler.value.contents = (request method g.params
            (if notification then none else some g.nextId)).contents := by
  have hstart : (g.requested notification (request method g.params)).os = [] := by
    cases notification <;> exact hos
  have hrequest : (g.requested notification (request method g.params)).request =
      request method g.params (if notification then none else some g.nextId) := by
    cases notification <;> rfl
  obtain ⟨text, htraverse, -, htext⟩ := JsonWriter.roundTrips_of_isUtf8
    (isJson_jsonRequest method hparams (if notification then none else some g.nextId))
    (w := { os := [] }) le_rfl nofun
  have href : Value.member (ascii "params") (g.requested notification (request method g.params)).request =
      .ok 2 (g.requested notification (request method g.params)).request := by
    cases notification <;> exact Value.member_of_some (by decide) rfl
  have hchild : (g.requested notification (request method g.params)).request.child? 2 =
      some g.params := by
    cases notification <;> rfl
  have htraverse' : Value.traverse (g.requested notification (request method g.params)).request
      ({ os := (g.requested notification (request method g.params)).os } : JsonWriter) =
        .ok () { os := text } := by
    rw [hstart, hrequest, htraverse]
    rfl
  rw [generateRequest_eq]
  obtain ⟨g', hsend, hos', hparams', hid⟩ :=
    Generation.send_of_traverse (fun os => { os }) JsonWriter.os htraverse' href hchild
  refine ⟨g', hsend, hparams', hid.trans ?_, fun is d hrest => htext is d (hrest.trans hos')⟩
  cases notification <;> rfl

namespace JsonClientHandler

open ClientHandler Responding

/-- A response with the right version and the right id. -/
def answered (requestId : BitVec 32) (key : Bytes) (v : Value) (c : ℕ) : Value :=
  .map [(ascii "jsonrpc", .string (ascii "2.0")), (ascii "id", .number (.ofUint requestId)), (key, v)] c

variable {requestId : BitVec 32} {key : Bytes} {v : Value} {c : ℕ}

omit [Platform] in
/-- The tests of the version and of the id are passed. -/
theorem processMessage_answered (result : Value) :
    processMessage requestId false { result, message := answered requestId key v c } =
      (do
        if ← onMessage (Value.hasMember (ascii "error")) then
          processError
        else if !(← onMessage (Value.hasMember (ascii "result"))) then
          invalidResponse (ascii "Invalid response, no result")
        else
          assign (← referred (Value.member (ascii "result")))
          return .success) { result, message := answered requestId key v c } := by
  generalize hmessage : ({ result, message := answered requestId key v c } : Responding) = t
  have hversion : onMessage (Value.hasMember (ascii "jsonrpc")) t = .ok true t := by
    rw [← hmessage]
    rfl
  have hid : onMessage (Value.hasMember (ascii "id")) t = .ok true t := by
    rw [← hmessage]
    rfl
  have hid' : referred (Value.member (ascii "id")) t = .ok (.number (.ofUint requestId)) t := by
    rw [← hmessage]
    rfl
  have hrpc : referred (Value.member (ascii "jsonrpc")) t = .ok (.string (ascii "2.0")) t := by
    rw [← hmessage]
    rfl
  have htest : rejected (Value.number (.ofUint requestId)).isUint
      (Value.number (.ofUint requestId)).getUint requestId.toNat t = .ok false t :=
    (rejected_of_get (Value.isUint_ofUint requestId) (Value.getUint_ofUint requestId t)).trans
      (by simp)
  have hget : (get : Exec Responding Responding) t = .ok t t := get_apply t
  rw [processMessage, bind_of_ok hget]
  have hmap : t.message = answered requestId key v c := by rw [← hmessage]
  rw [hmap, answered]
  dsimp only
  rw [bind_of_ok hversion, if_neg (by decide), bind_of_ok hid, if_neg (by decide), bind_of_ok hid',
    bind_of_ok hrpc, processMembers, if_neg (by decide), bind_of_ok htest,
    if_neg Bool.false_ne_true]

omit [Platform] in
/-- A response with a result. -/
theorem processMessage_of_result (result : Value) :
    processMessage requestId false { result, message := answered requestId (ascii "result") v c } =
      .ok .success { result := v, message := answered requestId (ascii "result") v c } := by
  rw [processMessage_answered]
  rfl

omit [Platform] in
/-- A response with an error, whose code decides whether the connection is kept. -/
theorem processMessage_of_error (e : AnyRpcException) (result : Value) {fault : Value} {c' : ℕ}
    (hfault : fault = .map [(ascii "code", .number (.ofInt e.code)),
      (ascii "message", .string e.message)] c') :
    processMessage requestId false { result, message := answered requestId (ascii "error") fault c } =
      .ok (jsonKept e)
        { result := fault, message := answered requestId (ascii "error") fault c } := by
  subst hfault
  rw [processMessage_answered]
  generalize hfault : Value.map [(ascii "code", .number (.ofInt e.code)),
    (ascii "message", .string e.message)] c' = fault
  generalize hmessage : answered requestId (ascii "error") fault c = message
  let t : Responding := { result := fault, message }
  have herror : onMessage (Value.hasMember (ascii "error")) { result, message } =
      .ok true { result, message } := by
    rw [← hmessage]
    rfl
  have hreferred : referred (Value.member (ascii "error")) { result, message } =
      .ok fault { result, message } := by
    rw [← hmessage]
    rfl
  have hassign : assign fault { result, message } = .ok () t := rfl
  have hcode : ofResult (Value.member (ascii "code")) t = .ok (.number (.ofInt e.code)) t := by
    show ofResult (Value.member (ascii "code")) { result := fault, message } = .ok _ { result := fault, message }
    rw [← hfault]
    rfl
  have hhas : onResult (Value.hasMember (ascii "code")) t = .ok true t := by
    show onResult (Value.hasMember (ascii "code")) { result := fault, message } =
      .ok true { result := fault, message }
    rw [← hfault]
    rfl
  have hboth : andThen (onResult (Value.hasMember (ascii "code")))
      (do return (← ofResult (Value.member (ascii "code"))).isInt) t = .ok true t := by
    rw [andThen, bind_of_ok hhas, if_pos rfl, bind_of_ok hcode, Value.isInt_ofInt]
    rfl
  rw [bind_of_ok herror, if_pos rfl, processError, bind_of_ok hreferred, bind_of_ok hassign,
    bind_of_ok hboth, if_pos rfl, bind_of_ok hcode, bind_of_ok (Value.getInt_ofInt e.code t), jsonKept]
  simp only [Bool.or_eq_true, decide_eq_true_eq]
  split_ifs <;> rfl

omit [Platform] in
/-- A value with the contents of a response is one. -/
theorem eq_answered_of_contents {w : Value} (h : w.contents = (answered requestId key v c).contents) :
    ∃ v' c', w = answered requestId key v' c' ∧ v'.contents = v.contents := by
  obtain ⟨ns, c', rfl, hns⟩ := Value.eq_members_of_contents h
  obtain _ | ⟨⟨hrpc, hversion⟩, _ | ⟨⟨hid, hnumber⟩, _ | ⟨⟨hkey, hvalue⟩, hnil⟩⟩⟩ := hns
  rename_i m₁ m₂ m₃ rest
  cases hnil
  obtain ⟨k₁, v₁⟩ := m₁
  obtain ⟨k₂, v₂⟩ := m₂
  obtain ⟨k₃, v₃⟩ := m₃
  cases hrpc
  cases hid
  cases hkey
  cases Value.eq_of_contents hversion rfl rfl
  cases Value.eq_of_contents hnumber rfl rfl
  exact ⟨v₃, c', rfl, hvalue⟩

/-- The client is told by the answer how the method ended. -/
theorem processResponse_tells {r : Except AnyRpcException Value} {text : Bytes} {answer : Value}
    (hanswer : Server.jsonReply (.number (.ofUint requestId)) r = some answer)
    (htext : ∀ (is : ReadStream) (d : Document), is.rest = text → d.convertExtensions = true →
      ∃ r, JsonReader.parseStream is d = .ok r ∧ r.hasParseError = false ∧
        r.handler.value.contents = answer.contents) (beyond : UInt8) :
    ∃ outcome t, processResponse text beyond requestId false {} = .ok outcome t ∧
      Tells jsonKept r outcome t.result := by
  obtain ⟨reader, hparse, hok, hcontents⟩ :=
    htext (.inSituString text true false beyond) {} rfl rfl
  have hprocess {outcome : ProcessResponseEnum} {t : Responding}
      (h : processMessage requestId false { message := reader.handler.value } = .ok outcome t) :
      processResponse text beyond requestId false {} = .ok outcome t := by
    rw [processResponse, hparse]
    exact process_of_ok hok h
  cases r with
  | ok v =>
    cases hanswer
    obtain ⟨v', c', hvalue, hv'⟩ := eq_answered_of_contents (c := 16) hcontents
    rw [hvalue] at hprocess
    exact ⟨_, _, hprocess (processMessage_of_result .invalid), rfl, hv'⟩
  | error e =>
    cases hanswer
    obtain ⟨v', c', hvalue, hv'⟩ := eq_answered_of_contents (c := 16) hcontents
    obtain ⟨ns, d, hfault, hns⟩ := Value.eq_members_of_contents hv'
    obtain _ | ⟨⟨hcode, hnumber⟩, _ | ⟨⟨hmessage, hstring⟩, hnil⟩⟩ := hns
    rename_i m₁ m₂ rest
    cases hnil
    obtain ⟨k₁, v₁⟩ := m₁
    obtain ⟨k₂, v₂⟩ := m₂
    cases hcode
    cases hmessage
    cases Value.eq_of_contents hnumber rfl rfl
    cases Value.eq_of_contents hstring rfl rfl
    rw [hvalue] at hprocess
    have hrun := hprocess (processMessage_of_error e .invalid hfault)
    refine ⟨jsonKept e, _, hrun, rfl, ?_⟩
    rw [hv', Server.jsonError, faultResult, contents_map, contents_map]

end JsonClientHandler

/-! ## The server -/

namespace Server

variable {manager : MethodManager ω} {method : Bytes} {params : Value} {s : Server ω}
variable {r : Except AnyRpcException Value} {world : ω} {c : ℕ}

omit [Platform] in
/-- There is room for the members that the lookups of a request may add. -/
theorem not_overflows_of_le {ms : List (Bytes × Value)} (h : ms.length + 4 ≤ c) :
    ¬ Overflows ms c := by
  have hmethod : Value.absent [ascii "method"] ms ≤ 1 := List.countP_le_length
  have hlater : Value.absent laterKeys ms ≤ 3 := List.countP_le_length
  rw [Overflows, Value.capacityBehind, if_neg (by omega)]
  omega

omit [Platform] in
/-- A value with the contents of a valid one is valid. -/
theorem isValid_of_contents {v w : Value} (h : w.contents = v.contents) (hv : v.All (IsJson true)) :
    w.isValid = true := by
  refine (Value.isValid_iff w).mpr ?_
  rintro rfl
  have hroot := hv.root
  cases v with
  | invalid => exact hroot
  | _ => simp [contents] at h

/-- A request of the client, with the members behind the first three. -/
def requested (name : Bytes) (params : Value) (rest : List (Bytes × Value)) (c : ℕ) : Value :=
  .map ((ascii "jsonrpc", .string (ascii "2.0")) :: (ascii "method", .string name) ::
    (ascii "params", params) :: rest) c

omit [Platform] in
/-- A value with the contents of a request is one. -/
theorem eq_requested_of_contents {message : Value} {name : Bytes} {rest : List (Bytes × Value)}
    (h : message.contents = (requested name params rest c).contents) :
    ∃ params' rest' c', message = requested name params' rest' c' ∧
      params'.contents = params.contents ∧
      List.Forall₂ (fun n m => n.1 = m.1 ∧ n.2.contents = m.2.contents) rest' rest := by
  obtain ⟨ns, c', rfl, hns⟩ := Value.eq_members_of_contents h
  obtain _ | ⟨⟨hkey₁, hversion⟩, _ | ⟨⟨hkey₂, hname⟩, _ | ⟨⟨hkey₃, hcontents⟩, hrest⟩⟩⟩ := hns
  rename_i m₁ m₂ m₃ rest'
  obtain ⟨k₁, v₁⟩ := m₁
  obtain ⟨k₂, v₂⟩ := m₂
  obtain ⟨k₃, params'⟩ := m₃
  cases hkey₁
  cases hkey₂
  cases hkey₃
  have hversion' : v₁ = .string (ascii "2.0") := Value.eq_of_contents hversion rfl rfl
  have hname' : v₂ = .string name := Value.eq_of_contents hname rfl rfl
  rw [hversion', hname']
  exact ⟨params', rest', c', rfl, hcontents, hrest⟩

omit [Platform] in
/-- A request asks for its method. -/
theorem jsonAsked?_requested {name : Bytes} {rest : List (Bytes × Value)}
    (hparams : params.isValid = true) :
    jsonAsked? (requested name params rest c) = some ⟨name, params, true⟩ := by
  have hversion : cString (ascii "2.0") = ascii "2.0" ∧ params.isValid = true := ⟨rfl, hparams⟩
  have hmethod : (requested name params rest c).field? (ascii "method") = some (.string name) := rfl
  have hrpc : (requested name params rest c).field? (ascii "jsonrpc") =
      some (.string (ascii "2.0")) := rfl
  have hparams : (requested name params rest c).field? (ascii "params") = some params := rfl
  rw [jsonAsked?, hmethod, hrpc, hparams]
  exact if_pos hversion

omit [Platform] in
/-- A request of the client is served by a call of its method. -/
theorem jsonServes_requested {name : Bytes} (id : Option (BitVec 32)) (c : ℕ) {world' : ω}
    (hparams : params.isValid = true)
    (hends : manager.Ends (cString name) params world r world') :
    JsonServes manager (requested name params
        (id.map fun id => (ascii "id", Value.number (.ofUint id))).toList c) world
      [(cString name, params)]
      (jsonReply ((id.map fun id => Value.number (.ofUint id)).getD .invalid) r) world' := by
  refine .executed (jsonAsked?_requested hparams) ?_ hends
  cases id <;> rfl

omit [Platform] in
/-- The lookups of a request of the client return. -/
theorem looksUp_requested {name : Bytes} {rest : List (Bytes × Value)} (hlength : rest.length ≤ 1)
    (hgrown : (requested name params rest c).Grown) : LooksUp (requested name params rest c) := by
  obtain ⟨-, rfl⟩ := (Value.all_map.mp hgrown).1
  have hroom : ∀ n ≤ 1, n + 3 + 4 ≤ Value.capacityOf (n + 3) ∧
      Value.capacityOf (n + 3) ≤ Value.maxMapCapacity := by
    decide
  obtain ⟨hle, hmax⟩ := hroom rest.length hlength
  generalize hms : (ascii "jsonrpc", Value.string (ascii "2.0")) ::
    (ascii "method", Value.string name) :: (ascii "params", params) :: rest = ms
  have hsize : ms.length = rest.length + 3 := by rw [← hms]; rfl
  rw [requested, hms, hsize]
  have hfits : ms.length ≤ Value.capacityOf (rest.length + 3) := by omega
  rcases jsonLookUp_cases hfits hmax (by omega) with ⟨-, request, w, hrun⟩ | ⟨hover, -⟩
  · exact ⟨request, w, hrun⟩
  · exact absurd hover (not_overflows_of_le (by omega))

omit [Platform] in
/-- A call is answered, and its answer can be written where the result can. -/
theorem exists_jsonReply (id : BitVec 32) (hr : Legible r) :
    ∃ answer, jsonReply (.number (.ofUint id)) r = some answer ∧ answer.All (IsJson true) := by
  have hid := Value.isJson_ofUint id
  cases r with
  | ok v =>
    refine ⟨_, rfl, Value.isJson_map (by simp) ?_⟩
    simp only [List.forall_mem_cons]
    exact ⟨trivial, hid, hr v rfl, by simp⟩
  | error e =>
    have herror : (jsonError e).All (IsJson true) := by
      refine Value.isJson_map (by simp) ?_
      simp only [List.forall_mem_cons]
      exact ⟨Value.isJson_ofInt e.code, trivial, by simp⟩
    have hfault : jsonFault (.number (.ofUint id)) e = .map [(ascii "jsonrpc", .string (ascii "2.0")),
        (ascii "id", .number (.ofUint id)), (ascii "error", jsonError e)] 16 := rfl
    refine ⟨_, rfl, ?_⟩
    rw [hfault]
    refine Value.isJson_map (by simp) ?_
    simp only [List.forall_mem_cons]
    exact ⟨trivial, hid, herror, by simp⟩

variable (manager s) in
/-- What is made of a request of the client, by how its method ends. -/
theorem build_of_request {id : Option (BitVec 32)} {text : Bytes} (hparams : params.All (IsJson true))
    (htext : ∀ (is : ReadStream) (d : Document), is.rest = text → d.convertExtensions = true →
      ∃ r, JsonReader.parseStream is d = .ok r ∧ r.hasParseError = false ∧
        r.handler.value.contents = (JsonClientHandler.request method params id).contents)
    (beyond : UInt8) :
    ∃ reader params', jsonParse text beyond = .ok reader ∧ params'.contents = params.contents ∧
      ∀ r world, manager.Ends (cString method) params' s.world r world →
        build (jsonAnswer manager reader) s =
          .ok ((jsonReply ((id.map fun id => Value.number (.ofUint id)).getD .invalid) r).getD .invalid)
            { s with world, executed := s.executed ++ [(cString method, params')] } := by
  obtain ⟨reader, hparse, hok, hcontents⟩ :=
    htext (.inSituString text true false beyond) {} rfl rfl
  have hread : jsonParse text beyond = .ok reader := hparse
  obtain ⟨params', rest', c', hvalue, hcontents', hrest⟩ := eq_requested_of_contents hcontents
  have hrest' : rest' = (id.map fun id => (ascii "id", Value.number (.ofUint id))).toList := by
    cases id with
    | none =>
      cases hrest
      rfl
    | some id =>
      obtain _ | ⟨⟨hkey, hnumber⟩, hnil⟩ := hrest
      rename_i m rest
      cases hnil
      obtain ⟨k, v⟩ := m
      cases hkey
      have hnumber' : v = .number (.ofUint id) := Value.eq_of_contents hnumber rfl rfl
      rw [hnumber']
      rfl
  have hlength : rest'.length ≤ 1 := by
    rw [hrest']
    cases id <;> simp
  have hgrown := JsonReader.grown_of_parseStream hread hok
  rw [hvalue] at hgrown
  have hlook := looksUp_requested hlength hgrown
  have hvalid := isValid_of_contents hcontents' hparams
  rw [hrest'] at hvalue hlook
  refine ⟨reader, params', hread, hcontents', fun r world hends => ?_⟩
  have hname : cString (cString method) = cString method := cString_of_notMem (notMem_cString _)
  rw [← hname] at hends
  have hserves := jsonServes_requested id c' hvalid hends
  have hsingle := jsonExecuteSingleRequest_serves hlook hserves
  rw [hname] at hsingle
  rw [jsonAnswer, hok, if_neg Bool.false_ne_true, hvalue]
  exact hsingle

end Server

/-! ## Calls -/

/-- A call by JSON is a call of the method, for parameters and results that can be written, and so is a
notification. It is not answered when its method returns. -/
theorem jsonProtocol_calls (manager : MethodManager ω) {method : Bytes} {g : Generation} {s : Server ω}
    (hparams : g.params.All (IsJson true)) (hos : g.os = []) (hresponse : s.response = [])
    (beyond beyond' : UInt8) :
    jsonProtocol.Calls manager Legible jsonKept method g s beyond beyond' ∧
      jsonProtocol.Notifies manager (fun r => ∃ v, r = .ok v) method g s beyond := by
  constructor
  · obtain ⟨g', hgenerate, hparams', hid, htext⟩ :=
      JsonClientHandler.generates method hparams hos false
    obtain ⟨reader, params, hread, hcontents, hbuild⟩ :=
      Server.build_of_request manager s hparams htext beyond
    refine ⟨g', hgenerate, hparams', params, hcontents, fun r world hends hr => ?_⟩
    obtain ⟨answer, hanswer, hjson⟩ := Server.exists_jsonReply g.nextId hr
    have hrun : build (Server.jsonAnswer manager reader) s =
        .ok ((Server.jsonReply (.number (.ofUint g.nextId)) r).getD .invalid)
          { s with world, executed := s.executed ++ [(cString method, params)] } :=
      hbuild r world hends
    rw [hanswer, Option.getD_some] at hrun
    obtain ⟨text, hhandler, hanswered⟩ := Server.jsonRpcHandler_of_isJson hread hrun hjson
    refine ⟨_, hhandler, rfl, rfl, ?_⟩
    show ∃ outcome t, JsonClientHandler.processResponse (s.response ++ text) beyond' g'.requestId
      false {} = .ok outcome t ∧ Tells jsonKept r outcome t.result
    rw [hresponse, hid]
    exact JsonClientHandler.processResponse_tells hanswer hanswered beyond'
  · obtain ⟨g', hgenerate, hparams', -, htext⟩ :=
      JsonClientHandler.generates method hparams hos true
    obtain ⟨reader, params, hread, hcontents, hbuild⟩ :=
      Server.build_of_request manager s hparams htext beyond
    refine ⟨g', hgenerate, hparams', params, hcontents, fun r world hends hquiet => ?_⟩
    obtain ⟨v, rfl⟩ := hquiet
    exact Server.jsonRpcHandler_of_invalid hread (hbuild _ world hends)

omit [Platform] in
theorem jsonProtocol_calls_echoing :
    letI := Platform.blank
    let g : Generation := { params := .array [.bool true] 1 }
    jsonProtocol.Calls echoing Legible jsonKept (ascii "echo") g { world := () } 0 0 ∧
      jsonProtocol.Notifies echoing (fun r => ∃ v, r = .ok v) (ascii "echo") g { world := () } 0 := by
  let _ := Platform.blank
  refine jsonProtocol_calls echoing ?_ rfl rfl 0 0
  refine Value.all_array.mpr ⟨⟨(by decide : 1 ≤ maxPushedElements), fun _ => rfl⟩, ?_⟩
  simp only [List.forall_mem_cons]
  exact ⟨trivial, nofun⟩

end AnyRpc
