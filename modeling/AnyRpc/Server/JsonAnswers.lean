import AnyRpc.Json.RoundTrip
import AnyRpc.Server.JsonLookUp
import AnyRpc.Value.Equality
import Mathlib.Data.List.ReduceOption

/-! # What a JSON message is answered

Each request of a message is served by itself: it is refused, or its method is executed and the answer
follows from how the method ends (`Server.JsonServes`). The handler serves the requests in their order,
and its response is read as the answers, in the same order (`Server.jsonRpcHandler_serves`). -/

namespace AnyRpc

open Library Handler Reader Building

namespace Server

variable {ω : Type}

/-! ## Answers -/

/-- The exception that stands for a malformed request. -/
def invalidRequest : AnyRpcException :=
  { code := ErrorCode.invalidRequest, message := ascii "Invalid Request" }

/-- The error member of a response. -/
def jsonError (e : AnyRpcException) : Value :=
  .map [(ascii "code", .number (.ofInt e.code)), (ascii "message", .string e.message)]
    Value.defaultMapCapacity

/-- The id member of a response, for an id that is assigned. -/
def jsonIdMember (id : Value) : List (Bytes × Value) :=
  if id.isValid then [(ascii "id", id)] else []

/-- The response for a request that failed. -/
def jsonFault (id : Value) (e : AnyRpcException) : Value :=
  .map ((ascii "jsonrpc", .string (ascii "2.0")) :: jsonIdMember id ++ [(ascii "error", jsonError e)])
    Value.defaultMapCapacity

/-- The response with the result of a method. -/
def jsonResponse (id result : Value) : Value :=
  .map [(ascii "jsonrpc", .string (ascii "2.0")), (ascii "id", id), (ascii "result", result)]
    Value.defaultMapCapacity

/-- The answer to a request for a method, by how the method ended. A failure is answered also where no
id was given. -/
def jsonReply (id : Value) : Except AnyRpcException Value → Option Value
  | .ok result => if id.isValid then some (jsonResponse id result) else none
  | .error e => some (jsonFault id e)

/-- How a request is served: the calls that are made for it, and its answer if it has one. -/
inductive JsonServes (manager : MethodManager ω) (message : Value) (world : ω) :
    List (Bytes × Value) → Option Value → ω → Prop where
  | refused {id : Value} : jsonAsked? message = none →
      Value.copyInternal (JsonRequest.ofMessage message).id = .ok id →
      JsonServes manager message world [] (some (jsonFault id invalidRequest)) world
  | executed {asked : Asked} {id : Value} {r : Except AnyRpcException Value} {world' : ω} :
      jsonAsked? message = some asked →
      Value.copyInternal (JsonRequest.ofMessage message).id = .ok id →
      manager.Ends asked.call.1 asked.params world r world' →
      JsonServes manager message world [asked.call] (jsonReply id r) world'

/-- How the requests of a message are served, one after the other. -/
inductive JsonServesAll (manager : MethodManager ω) :
    List Value → ω → List (Bytes × Value) → List (Option Value) → ω → Prop where
  | nil {world : ω} : JsonServesAll manager [] world [] [] world
  | cons {message : Value} {messages : List Value} {world world₁ world₂ : ω}
      {calls calls' : List (Bytes × Value)} {reply : Option Value} {replies : List (Option Value)} :
      JsonServes manager message world calls reply world₁ →
      JsonServesAll manager messages world₁ calls' replies world₂ →
      JsonServesAll manager (message :: messages) world (calls ++ calls') (reply :: replies) world₂

/-! ## Building an answer -/

section

variable {key : Bytes} {ms : List (Bytes × Value)} {c : ℕ} {op : Exec Value Unit} {v w : Value}
variable (hkey : (0 : UInt8) ∉ key) (hnew : ∀ m ∈ ms, m.1 ≠ key)

include hkey hnew

/-- An operation on a new member. -/
theorem onChild_new (hroom : ms.length < c) (hop : op .invalid = .ok () w) :
    Value.onChild (Value.member key) op (.map ms c) = .ok () (.map (ms ++ [(key, w)]) c) := by
  have hchild : (Value.map (ms ++ [(key, .invalid)]) c).child? ms.length = some .invalid := by
    rw [Value.child?, List.getElem?_concat_length, Option.map_some]
  have hmember := Value.member_of_none (c := c) hkey (Value.memberIndex_eq_none.mpr hnew) hroom
  rw [Value.onChild_of_ok hmember hchild hop, Value.setChild_append]

/-- An operation on the member that was added last. -/
theorem onChild_last (hop : op v = .ok () w) :
    Value.onChild (Value.member key) op (.map (ms ++ [(key, v)]) c) =
      .ok () (.map (ms ++ [(key, w)]) c) := by
  have hchild : (Value.map (ms ++ [(key, v)]) c).child? ms.length = some v := by
    rw [Value.child?, List.getElem?_concat_length, Option.map_some]
  have hmember := Value.member_of_some (c := c) hkey (Value.memberIndex_append hnew v [])
  rw [Value.onChild_of_ok hmember hchild hop, Value.setChild_append]

end

section

variable {id id' : Value}

/-- A copy of a value is assigned to a value that is not. -/
theorem assign_copy (hid : Value.copyInternal id = .ok id') :
    CopyOp.assign.run id .invalid = .ok () id' := by
  rw [CopyOp.run_eq id fun _ => rfl, Value.copyFrom, hid]
  rfl

/-- Copies of members are those of a map. -/
theorem isValid_of_copyMembers {ms done : List (Bytes × Value)} {c : ℕ} {v : Value}
    (h : Value.copyMembers ms done c = .ok v) : v.isValid = true := by
  induction ms generalizing done c with
  | nil =>
    cases h
    rfl
  | cons m ms ih =>
    obtain ⟨k, v'⟩ := m
    simp only [Value.copyMembers] at h
    by_cases hroom : done.length < if c ≤ done.length then Value.grownMapCapacity c else c
    · rw [if_pos hroom] at h
      cases hcopy : Value.copyInternal v' with
      | error f =>
        rw [hcopy] at h
        cases h
      | ok w =>
        rw [hcopy] at h
        exact ih h
    · rw [if_neg hroom] at h
      cases h

/-- A copy is assigned where the value is. -/
theorem isValid_of_copy (hid : Value.copyInternal id = .ok id') : id'.isValid = id.isValid := by
  cases id with
  | map ms c => exact isValid_of_copyMembers hid
  | array es c =>
    rw [Value.copyInternal] at hid
    split_ifs at hid
    cases hcopy : Value.copyElements es with
    | error f =>
      rw [hcopy] at hid
      cases hid
    | ok ws =>
      rw [hcopy] at hid
      cases hid
      rfl
  | _ =>
    cases hid
    rfl

/-- A step that is left out where a condition fails. -/
theorem ite_bind_of_ok {σ α : Type} {p : Prop} [Decidable p] {x : Exec σ Unit} {y : Exec σ α}
    {s s' : σ} (h : (if p then x else pure ()) s = .ok () s') :
    (if p then (do x; y) else y) s = y s' := by
  split_ifs at h ⊢
  · exact bind_of_ok h
  · cases h
    rfl

/-- The id is the second member of a response, where there is one. -/
theorem onChild_id (hid : Value.copyInternal id = .ok id') :
    (if id.isValid then Value.onChild (Value.member (ascii "id")) (CopyOp.assign.run id) else pure ())
        (.map [(ascii "jsonrpc", .string (ascii "2.0"))] Value.defaultMapCapacity) =
      .ok () (.map ((ascii "jsonrpc", .string (ascii "2.0")) :: jsonIdMember id')
        Value.defaultMapCapacity) := by
  have hvalid := isValid_of_copy hid
  cases hcase : id.isValid with
  | true =>
    rw [hcase] at hvalid
    rw [if_pos rfl, jsonIdMember, hvalid, if_pos rfl]
    exact onChild_new (by decide) (by decide) (by decide) (assign_copy hid)
  | false =>
    rw [hcase] at hvalid
    rw [if_neg Bool.false_ne_true, jsonIdMember, hvalid, if_neg Bool.false_ne_true]
    rfl

/-- The response for a request that failed. -/
theorem jsonGenerateFaultResponse_eq (e : AnyRpcException) (hid : Value.copyInternal id = .ok id') :
    jsonGenerateFaultResponse e.code e.message id .invalid = .ok () (jsonFault id' e) := by
  have hrpc : (0 : UInt8) ∉ ascii "jsonrpc" := by decide
  have hversion := Value.assignMember_invalid hrpc (.string (ascii "2.0"))
  have hnew : ∀ m ∈ (ascii "jsonrpc", Value.string (ascii "2.0")) :: jsonIdMember id',
      m.1 ≠ ascii "error" := by
    intro m hm
    rcases List.mem_cons.mp hm with rfl | hm
    · exact (by decide : ascii "jsonrpc" ≠ ascii "error")
    · rw [jsonIdMember] at hm
      split_ifs at hm
      · cases List.mem_singleton.mp hm
        exact (by decide : ascii "id" ≠ ascii "error")
      · cases hm
  have hroom : ((ascii "jsonrpc", Value.string (ascii "2.0")) :: jsonIdMember id').length <
      Value.defaultMapCapacity := by
    rw [jsonIdMember]
    split_ifs
    · exact (by decide : 2 < 16)
    · exact (by decide : 1 < 16)
  have hcodeKey : (0 : UInt8) ∉ ascii "code" := by decide
  have hmessageKey : (0 : UInt8) ∉ ascii "message" := by decide
  have hcode := Value.assignMember_invalid hcodeKey (.number (.ofInt e.code))
  have hnone : ∀ m ∈ [(ascii "code", Value.number (.ofInt e.code))], m.1 ≠ ascii "message" := by
    simp only [List.forall_mem_singleton]
    decide
  have hmessage := Value.assignMember_of_none (c := Value.defaultMapCapacity) hmessageKey hnone
    (by decide : 1 < 16) (.string e.message)
  rw [jsonGenerateFaultResponse, bind_of_ok hversion]
  refine (ite_bind_of_ok (onChild_id hid)).trans ?_
  rw [bind_of_ok (onChild_new (by decide) hnew hroom hcode)]
  exact onChild_last (by decide) hnew hmessage

/-- The response with a result. -/
theorem jsonGenerateResponse_eq (result : Value) (hid : Value.copyInternal id = .ok id')
    (hvalid : id.isValid = true) :
    jsonGenerateResponse result id .invalid = .ok () (jsonResponse id' result) := by
  have hrpc : (0 : UInt8) ∉ ascii "jsonrpc" := by decide
  have hversion := Value.assignMember_invalid hrpc (.string (ascii "2.0"))
  rw [jsonGenerateResponse, hvalid, if_pos rfl, bind_of_ok hversion,
    bind_of_ok (onChild_new (by decide) (by decide) (by decide) (assign_copy hid))]
  refine onChild_new (by decide) ?_ (by decide : 2 < 16) rfl
  simp only [List.singleton_append, List.forall_mem_cons]
  exact ⟨by decide, by decide, nofun⟩

end

/-! ## One request -/

section

variable {manager : MethodManager ω} {message : Value} {s : Server ω}

/-- What is done for a request, by what it asks for. -/
theorem jsonExecuteRequest_eq (manager : MethodManager ω) (message : Value) :
    jsonExecuteRequest manager (.ofMessage message) =
      match jsonAsked? message with
      | none => jsonInvalidRequest (JsonRequest.ofMessage message).id
      | some asked =>
        catching (jsonExecute manager asked.call.1 (JsonRequest.ofMessage message).id asked.params)
          fun fault => onResult (jsonGenerateFaultResponse fault.code fault.message
            (JsonRequest.ofMessage message).id) := by
  rw [jsonExecuteRequest, jsonAsked?, JsonRequest.ofMessage]
  dsimp only
  cases message.field? (ascii "method") with
  | none => rfl
  | some method =>
    cases message.field? (ascii "jsonrpc") with
    | none => cases method <;> rfl
    | some rpc =>
      cases message.field? (ascii "params") with
      | none =>
        cases method with
        | string name =>
          cases rpc with
          | string rpc => simp [Value.isInvalid]
          | _ => rfl
        | _ => rfl
      | some params =>
        cases method with
        | string name =>
          cases rpc with
          | string rpc =>
            by_cases hversion : cString rpc = ascii "2.0"
            · cases hparams : params.isInvalid with
              | true => simp [hversion, hparams, Value.isValid]
              | false => simp [hversion, hparams, Value.isValid, Asked.call]
            · simp [hversion]
          | _ => rfl
        | _ => rfl

/-- A step that builds the value returns. -/
theorem onResult_of_ok {b : Building ω} {p : Exec Value Unit} {v : Value}
    (h : p b.value = .ok () v) : onResult p b = .ok () { b with value := v } := by
  rw [onResult, h]

/-- What is built where nothing was, from how the building ends. -/
theorem build_of_ok {p : Exec (Building ω) Unit} {s' : Server ω} {v : Value}
    (h : p { server := s } = .ok () { server := s', value := v }) : build p s = .ok v s' := by
  rw [build, h]

/-- A request is served. -/
theorem jsonExecuteRequest_serves {calls : List (Bytes × Value)} {reply : Option Value} {world : ω}
    (h : JsonServes manager message s.world calls reply world) :
    build (jsonExecuteRequest manager (.ofMessage message)) s =
      .ok (reply.getD .invalid) { s with world, executed := s.executed ++ calls } := by
  rw [jsonExecuteRequest_eq]
  cases h with
  | refused hasked hid =>
    rw [hasked, List.append_nil]
    exact build_of_ok (onResult_of_ok (jsonGenerateFaultResponse_eq invalidRequest hid))
  | @executed asked id r world' hasked hid hends =>
    rw [hasked]
    dsimp only
    have hfault (e : AnyRpcException) := jsonGenerateFaultResponse_eq e hid
    cases hends with
    | missing hfind =>
      have hrun : onServer (executeMethod manager asked.call.1 asked.params) { server := s } =
          .ok none ({ server := s.after (asked.call.1, asked.params) s.world } : Building ω) :=
        onServer_of_ok (executeMethod_of_none hfind)
      refine build_of_ok (catching_of_ok ?_)
      rw [jsonExecute, bind_of_ok hrun]
      exact onResult_of_ok (hfault
        { code := ErrorCode.methodNotFound, message := ascii "Method not found" })
    | returned hfind hmethod =>
      have hrun : onServer (executeMethod manager asked.call.1 asked.params) { server := s } =
          .ok (some _) ({ server := s.after (asked.call.1, asked.params) world } : Building ω) :=
        onServer_of_ok (executeMethod_of_ok hfind hmethod)
      have hvalid := isValid_of_copy hid
      cases hcase : (JsonRequest.ofMessage message).id.isValid with
      | true =>
        rw [hcase] at hvalid
        rw [jsonReply, hvalid, if_pos rfl]
        refine build_of_ok (catching_of_ok ?_)
        rw [jsonExecute, bind_of_ok hrun]
        dsimp only
        rw [hcase, if_pos rfl]
        exact onResult_of_ok (jsonGenerateResponse_eq _ hid hcase)
      | false =>
        rw [hcase] at hvalid
        rw [jsonReply, hvalid, if_neg Bool.false_ne_true]
        refine build_of_ok (catching_of_ok ?_)
        rw [jsonExecute, bind_of_ok hrun]
        dsimp only
        rw [hcase, if_neg Bool.false_ne_true]
        rfl
    | @threw _ e _ hfind hmethod =>
      have hrun : onServer (executeMethod manager asked.call.1 asked.params) { server := s } =
          .error (.exception e)
            ({ server := s.after (asked.call.1, asked.params) world } : Building ω) :=
        onServer_of_error (executeMethod_of_error hfind hmethod)
      have hthrows : jsonExecute manager asked.call.1 (JsonRequest.ofMessage message).id asked.params
          { server := s } = .error (.exception e)
            { server := s.after (asked.call.1, asked.params) world } := by
        rw [jsonExecute, bind_of_error hrun]
      exact build_of_ok ((catching_of_exception hthrows).trans (onResult_of_ok (hfault e)))

end

/-! ## A message -/

/-- The lookups of a request return. -/
def LooksUp (message : Value) : Prop := ∃ request w, jsonLookUp message = .ok request w

/-- The responses so far. -/
def Responses (answers : List Value) (v : Value) : Prop :=
  (answers = [] ∧ v = .invalid) ∨ (answers ≠ [] ∧ ∃ c, v = .array answers c)

section

variable {manager : MethodManager ω} {message : Value} {s : Server ω} {world : ω}
variable {calls : List (Bytes × Value)}

/-- An answer is a map. -/
theorem JsonServes.isMap {world₀ : ω} {answer : Value}
    (h : JsonServes manager message world₀ calls (some answer) world) : answer.isMap = true := by
  generalize hreply : some answer = reply at h
  cases h with
  | refused hasked hid =>
    cases hreply
    rfl
  | @executed asked id r world hasked hid hends =>
    cases r with
    | ok result =>
      rw [jsonReply] at hreply
      split_ifs at hreply
      cases hreply
      rfl
    | error e =>
      cases hreply
      rfl

theorem jsonExecuteSingleRequest_serves {reply : Option Value} (hlook : LooksUp message)
    (h : JsonServes manager message s.world calls reply world) :
    build (jsonExecuteSingleRequest manager message) s =
      .ok (reply.getD .invalid) { s with world, executed := s.executed ++ calls } := by
  obtain ⟨request, w, hrun⟩ := hlook
  have hrequest : request = .ofMessage message := jsonLookUp_ok hrun
  rw [jsonExecuteSingleRequest, hrun, hrequest]
  exact jsonExecuteRequest_serves h

/-- One more response. -/
theorem responses_append {answers : List Value} {v : Value} (h : Responses answers v)
    (hlimit : answers.length + 1 < Value.maxArrayCapacity) (answer : Value) :
    ∃ w, Value.onChild (Value.element answers.length) (set answer) v = .ok () w ∧
      Responses (answers ++ [answer]) w := by
  have hne : answers ++ [answer] ≠ [] := List.append_ne_nil_of_right_ne_nil _ (List.cons_ne_nil _ _)
  rcases h with ⟨rfl, rfl⟩ | ⟨-, c, rfl⟩
  · exact ⟨_, rfl, .inr ⟨hne, _, rfl⟩⟩
  · have helement := Value.element_grow (c := c) (le_refl answers.length) hlimit
    rw [Nat.add_sub_cancel_left, List.replicate_one] at helement
    have hchild : (Value.array (answers ++ [.invalid]) (max (answers.length + 1) c)).child?
        answers.length = some .invalid := List.getElem?_concat_length
    have hset : (set answer : Exec Value Unit) .invalid = .ok () answer := rfl
    refine ⟨_, Value.onChild_of_ok helement hchild hset,
      .inr ⟨hne, max (answers.length + 1) c, ?_⟩⟩
    rw [Value.setChild, List.set_append_right _ _ le_rfl, Nat.sub_self]
    rfl

/-- The requests of an array are served in their order. -/
theorem jsonExecuteRequests_serves {messages : List Value} {replies : List (Option Value)}
    (hlook : ∀ m ∈ messages, LooksUp m)
    (h : JsonServesAll manager messages s.world calls replies world) {answers : List Value}
    (hlimit : answers.length + messages.length < Value.maxArrayCapacity) {v : Value}
    (hv : Responses answers v) :
    ∃ w, jsonExecuteRequests manager messages answers.length { server := s, value := v } =
        .ok () { server := { s with world, executed := s.executed ++ calls }, value := w } ∧
      Responses (answers ++ replies.reduceOption) w := by
  induction messages generalizing s calls replies answers v with
  | nil =>
    cases h
    refine ⟨v, ?_, ?_⟩
    · rw [List.append_nil]
      rfl
    · rw [List.reduceOption_nil, List.append_nil]
      exact hv
  | cons message messages ih =>
    obtain _ | ⟨hserves, hall⟩ := h
    rename_i world₁ calls₁ calls₂ reply replies
    rw [List.length_cons] at hlimit
    have hsingle := onServer_of_ok (b := { server := s, value := v })
      (jsonExecuteSingleRequest_serves (hlook message List.mem_cons_self) hserves)
    have hlooks : ∀ m ∈ messages, LooksUp m := fun m hm => hlook m (List.mem_cons_of_mem _ hm)
    let s₁ : Server ω := { s with world := world₁, executed := s.executed ++ calls₁ }
    rw [jsonExecuteRequests, bind_of_ok hsingle]
    cases reply with
    | none =>
      rw [Option.getD_none, if_neg (by decide), List.reduceOption_cons_of_none]
      obtain ⟨w, hrun, hw⟩ := ih (s := s₁) hlooks hall (by omega) hv
      refine ⟨w, hrun.trans ?_, hw⟩
      rw [← List.append_assoc]
    | some answer =>
      have hvalid : answer.isValid = true := by
        cases answer <;> first | rfl | exact absurd hserves.isMap Bool.false_ne_true
      obtain ⟨w₁, hset, hw₁⟩ := responses_append hv (by omega) answer
      rw [Option.getD_some, if_pos hvalid, List.reduceOption_cons_of_some,
        bind_of_ok (onResult_of_ok hset)]
      have hlength : (answers ++ [answer]).length = answers.length + 1 := List.length_append
      obtain ⟨w, hrun, hw⟩ := ih (s := s₁) hlooks hall (by omega) hw₁
      rw [hlength] at hrun
      refine ⟨w, hrun.trans ?_, ?_⟩
      · rw [← List.append_assoc]
      · rw [List.append_assoc] at hw
        exact hw

end

section

variable {manager : MethodManager ω} {message : Value} {s : Server ω} {world : ω}
variable {calls : List (Bytes × Value)} {replies : List (Option Value)}

/-- There is an answer or none for each request. -/
theorem JsonServesAll.length_eq {messages : List Value} {world' : ω}
    (h : JsonServesAll manager messages world calls replies world') :
    replies.length = messages.length := by
  induction h with
  | nil => rfl
  | cons _ _ ih => rw [List.length_cons, List.length_cons, ih]

/-- All answers are maps. -/
theorem JsonServesAll.isMap {messages : List Value} {world' : ω}
    (h : JsonServesAll manager messages world calls replies world') {answer : Value}
    (hanswer : answer ∈ replies.reduceOption) : answer.isMap = true := by
  rw [List.reduceOption_mem_iff] at hanswer
  induction h with
  | nil => cases hanswer
  | cons hserves hall ih =>
    rcases List.mem_cons.mp hanswer with rfl | hanswer
    · exact hserves.isMap
    · exact ih hanswer

/-- The value of a response to a message with these answers, where an array has a capacity. -/
def jsonMessage (answers : List Value) (c : ℕ) : Value → Value
  | .array _ _ => .array answers c
  | _ => answers.headD .invalid

/-- A message is processed. -/
theorem jsonProcess_serves (hrequests : jsonRequests message ≠ [])
    (hlook : ∀ m ∈ jsonRequests message, LooksUp m)
    (hall : JsonServesAll manager (jsonRequests message) s.world calls replies world)
    (hsize : (jsonRequests message).length < Value.maxArrayCapacity) :
    ∃ v, build (jsonProcess manager message) s =
        .ok v { s with world, executed := s.executed ++ calls } ∧
      (replies.reduceOption = [] → v = .invalid) ∧
      (replies.reduceOption ≠ [] → ∃ c, v = jsonMessage replies.reduceOption c message) := by
  cases message with
  | map ms c =>
    obtain _ | ⟨hserves, hnil⟩ := hall
    cases hnil
    rename_i calls reply
    have hrun := jsonExecuteSingleRequest_serves (hlook _ List.mem_cons_self) hserves
    rw [List.append_nil]
    refine ⟨_, hrun, ?_⟩
    cases reply with
    | none => exact ⟨fun _ => rfl, fun hne => absurd rfl hne⟩
    | some answer => exact ⟨fun hnil => absurd hnil (List.cons_ne_nil _ _), fun _ => ⟨0, rfl⟩⟩
  | array messages c =>
    cases messages with
    | nil => exact absurd rfl hrequests
    | cons m ms =>
      have hlimit : ([] : List Value).length + (m :: ms).length < Value.maxArrayCapacity := by
        rw [List.length_nil, Nat.zero_add]
        exact hsize
      obtain ⟨v, hrun, hv⟩ := jsonExecuteRequests_serves hlook hall hlimit (.inl ⟨rfl, rfl⟩)
      refine ⟨v, build_of_ok hrun, fun hnil => ?_, fun hne => ?_⟩
      · exact (hv.resolve_right fun h => h.1 hnil).2
      · obtain ⟨-, c', rfl⟩ := hv.resolve_left fun h => hne h.1
        exact ⟨c', rfl⟩
  | _ => exact absurd rfl hrequests

end

section

variable [Platform] {manager : MethodManager ω} {s : Server ω} {world : ω}
variable {calls : List (Bytes × Value)} {replies : List (Option Value)}

omit [Platform] in
/-- Answers that can be read make a response that can be read. -/
theorem isJson_jsonMessage {convert : Bool} {answers : List Value} {message : Value} {c : ℕ}
    (hlength : answers.length ≤ maxPushedElements) (hmaps : ∀ answer ∈ answers, answer.isMap = true)
    (hjson : ∀ answer ∈ answers, answer.All (Value.IsJson convert)) (hne : answers ≠ []) :
    (jsonMessage answers c message).All (Value.IsJson convert) := by
  obtain ⟨answer, rest, rfl⟩ := List.exists_cons_of_ne_nil hne
  have hfirst := hmaps answer List.mem_cons_self
  cases message with
  | array messages c' =>
    refine Value.all_array.mpr ⟨⟨hlength, fun _ => ?_⟩, hjson⟩
    cases answer <;> first | rfl | cases hfirst
  | _ => exact hjson answer List.mem_cons_self

/-- The value of a response is what the response is read as. -/
theorem jsonRpcHandler_of_isJson {request : Bytes} {beyond : UInt8} {reader : Parsed Document JsonReader}
    (hread : jsonParse request beyond = .ok reader) {s' : Server ω} {v : Value}
    (hrun : build (jsonAnswer manager reader) s = .ok v s') {convert : Bool}
    (hv : v.All (Value.IsJson convert)) :
    ∃ text, jsonRpcHandler manager request beyond s =
        .ok true { s' with response := s'.response ++ text } ∧
      ∀ (is : ReadStream) (d : Document), is.rest = text → d.convertExtensions = convert →
        ∃ r, JsonReader.parseStream is d = .ok r ∧ r.hasParseError = false ∧
          r.handler.value.contents = v.contents := by
  have hvalid : v.isInvalid = false := by
    have hroot := hv.root
    cases v <;> first | rfl | exact hroot.elim
  obtain ⟨text, htraverse, -, htext⟩ := JsonWriter.roundTrips_of_isUtf8 hv
    (w := { os := s'.response }) le_rfl nofun
  have hrespond : jsonRespond v s' = .ok () { s' with response := s'.response ++ text } := by
    rw [jsonRespond, htraverse]
    rfl
  refine ⟨text, ?_, htext⟩
  rw [jsonRpcHandler, hread]
  dsimp only
  rw [bind_of_ok hrun, hvalid, if_neg Bool.false_ne_true]
  exact bind_of_ok hrespond

/-- Where no value is made there is no response. -/
theorem jsonRpcHandler_of_invalid {request : Bytes} {beyond : UInt8}
    {reader : Parsed Document JsonReader} (hread : jsonParse request beyond = .ok reader)
    {s' : Server ω} (hrun : build (jsonAnswer manager reader) s = .ok .invalid s') :
    jsonRpcHandler manager request beyond s = .ok false s' := by
  rw [jsonRpcHandler, hread]
  dsimp only
  rw [bind_of_ok hrun]
  exact congrFun (if_pos rfl) _

/-- A message of requests is answered by the answers to its requests, in their order. -/
theorem jsonRpcHandler_serves {request : Bytes} {beyond : UInt8} {reader : Parsed Document JsonReader}
    (hread : jsonParse request beyond = .ok reader) (hok : reader.hasParseError = false)
    (hrequests : jsonRequests reader.handler.value ≠ [])
    (hlook : ∀ m ∈ jsonRequests reader.handler.value, LooksUp m)
    (hall : JsonServesAll manager (jsonRequests reader.handler.value) s.world calls replies world)
    {convert : Bool}
    (hjson : ∀ answer ∈ replies.reduceOption, answer.All (Value.IsJson convert)) :
    (replies.reduceOption = [] ∧ jsonRpcHandler manager request beyond s =
        .ok false { s with world, executed := s.executed ++ calls }) ∨
      (replies.reduceOption ≠ [] ∧ ∃ text, jsonRpcHandler manager request beyond s =
          .ok true { world, executed := s.executed ++ calls, response := s.response ++ text } ∧
        ∀ (is : ReadStream) (d : Document), is.rest = text → d.convertExtensions = convert →
          ∃ r, JsonReader.parseStream is d = .ok r ∧ r.hasParseError = false ∧
            r.handler.value.contents =
              (jsonMessage replies.reduceOption 0 reader.handler.value).contents) := by
  have hlength := length_jsonRequests_le (JsonReader.grown_of_parseStream hread hok)
  obtain ⟨v, hrun, hnone, hsome⟩ := jsonProcess_serves hrequests hlook hall
    (lt_of_le_of_lt hlength (by decide))
  have hanswer : build (jsonAnswer manager reader) s =
      .ok v { s with world, executed := s.executed ++ calls } := by
    rw [jsonAnswer, hok, if_neg Bool.false_ne_true]
    exact hrun
  by_cases hne : replies.reduceOption = []
  · rw [hnone hne] at hanswer
    exact .inl ⟨hne, jsonRpcHandler_of_invalid hread hanswer⟩
  · have hanswers : replies.reduceOption.length ≤ maxPushedElements :=
      (List.reduceOption_length_le replies).trans (hall.length_eq.le.trans hlength)
    obtain ⟨c, rfl⟩ := hsome hne
    have hv : (jsonMessage replies.reduceOption c reader.handler.value).All (Value.IsJson convert) :=
      isJson_jsonMessage hanswers (fun answer hmem => hall.isMap hmem) hjson hne
    obtain ⟨text, hhandler, htext⟩ := jsonRpcHandler_of_isJson hread hanswer hv
    refine .inr ⟨hne, text, hhandler, fun is d hrest hconvert => ?_⟩
    obtain ⟨r, hr, hok', hcontents⟩ := htext is d hrest hconvert
    refine ⟨r, hr, hok', hcontents.trans ?_⟩
    cases reader.handler.value <;> rfl

end

/-- A call and a notification. -/
def batchCall : Value :=
  .map [(ascii "method", .string (ascii "echo")), (ascii "jsonrpc", .string (ascii "2.0")),
    (ascii "params", .number (.ofInteger 1)), (ascii "id", .number (.ofInteger 7))] 16

def batchNotification : Value :=
  .map [(ascii "method", .string (ascii "echo")), (ascii "jsonrpc", .string (ascii "2.0")),
    (ascii "params", .number (.ofInteger 2))] 16

/-- The text of both in one message. -/
def batchRequest : Bytes :=
  ascii ("[\x7b\"method\":\"echo\",\"jsonrpc\":\"2.0\",\"params\":1,\"id\":7\x7d," ++
    "\x7b\"method\":\"echo\",\"jsonrpc\":\"2.0\",\"params\":2\x7d]")

/-- Only the call is answered. -/
theorem jsonRpcHandler_serves_batch :
    letI := Platform.blank
    ∃ text, jsonRpcHandler echoing batchRequest 0 { world := () } =
        .ok true { world := (), response := text,
                   executed := [(ascii "echo", .number (.ofInteger 1)),
                     (ascii "echo", .number (.ofInteger 2))] } ∧
      ∀ (is : ReadStream) (d : Document), is.rest = text → d.convertExtensions = false →
        ∃ r, JsonReader.parseStream is d = .ok r ∧ r.hasParseError = false ∧
          r.handler.value.contents = (Value.array
            [jsonResponse (.number (.ofInteger 7)) (.number (.ofInteger 1))] 0).contents := by
  let _ := Platform.blank
  have hread : (jsonParse batchRequest 0).toOption.map
      (fun reader => (reader.hasParseError, reader.handler.value)) =
        some (false, .array [batchCall, batchNotification] 16) := by
    decide +kernel
  obtain ⟨reader, hparse, hok, hvalue⟩ := exists_parsed hread
  have hcalled : jsonAsked? batchCall = some ⟨ascii "echo", .number (.ofInteger 1), true⟩ := rfl
  have hnotified : jsonAsked? batchNotification =
      some ⟨ascii "echo", .number (.ofInteger 2), true⟩ := rfl
  have hseven : Value.copyInternal (JsonRequest.ofMessage batchCall).id =
      .ok (.number (.ofInteger 7)) := rfl
  have hnoId : Value.copyInternal (JsonRequest.ofMessage batchNotification).id = .ok .invalid := rfl
  have hall : JsonServesAll echoing (jsonRequests (.array [batchCall, batchNotification] 16)) ()
      [(ascii "echo", .number (.ofInteger 1)), (ascii "echo", .number (.ofInteger 2))]
      [some (jsonResponse (.number (.ofInteger 7)) (.number (.ofInteger 1))), none] () :=
    .cons (.executed hcalled hseven (.returned rfl rfl))
      (.cons (.executed hnotified hnoId (.returned rfl rfl)) .nil)
  have hlook : ∀ m ∈ jsonRequests (.array [batchCall, batchNotification] 16), LooksUp m := by
    intro m hm
    rcases List.mem_cons.mp hm with rfl | hm
    · exact ⟨_, _, rfl⟩
    · cases List.mem_singleton.mp hm
      exact ⟨_, _, rfl⟩
  have hinteger (z : ℤ) (hz : Number.InRange z) :
      (Value.number (.ofInteger z)).All (Value.IsJson false) := ⟨z, hz, rfl⟩
  have hjson : (jsonResponse (.number (.ofInteger 7)) (.number (.ofInteger 1))).All
      (Value.IsJson false) := by
    refine Value.all_map.mpr ⟨(by decide : 3 ≤ Value.maxMapCapacity), ?_⟩
    simp only [List.forall_mem_cons]
    exact ⟨trivial, hinteger 7 ⟨by decide, by decide⟩, hinteger 1 ⟨by decide, by decide⟩, nofun⟩
  rw [← hvalue] at hall hlook
  rcases jsonRpcHandler_serves hparse hok (by rw [hvalue]; exact List.cons_ne_nil _ _) hlook hall
    (fun answer hmem => by cases List.mem_singleton.mp hmem; exact hjson) with
    ⟨hnone, -⟩ | ⟨-, text, hrun, htext⟩
  · cases hnone
  · refine ⟨text, hrun, fun is d hrest hconvert => ?_⟩
    obtain ⟨r, hr, hok', hcontents⟩ := htext is d hrest hconvert
    rw [hvalue] at hcontents
    exact ⟨r, hr, hok', hcontents⟩

end Server

end AnyRpc
