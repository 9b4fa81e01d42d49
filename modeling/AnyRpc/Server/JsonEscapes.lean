import AnyRpc.Server.JsonAnswers

/-! # What escapes the JSON request handler

Only the method of a request is executed under the protection of a `try` block. Its lookups are not, and
so an element of a batch that is no map, or a request that loses a reference, ends the handler with the
answers of all other requests lost. There is nothing else that does
(`Server.jsonRpcHandler_returns_iff`). -/

namespace AnyRpc

open Library Handler Reader Building

/-! ## Copies -/

namespace Value

/-- Copies of elements are fully valid where those of each one are. -/
theorem fullyValid_copyElements {es ws : List Value}
    (hes : ∀ e ∈ es, ∀ {w : Value}, copyInternal e = .ok w → w.FullyValid)
    (h : copyElements es = .ok ws) : ∀ w ∈ ws, w.FullyValid := by
  induction es generalizing ws with
  | nil =>
    cases h
    exact nofun
  | cons e es ih =>
    rw [copyElements] at h
    cases hcopy : copyInternal e with
    | error f =>
      rw [hcopy] at h
      cases h
    | ok e' =>
      cases hrest : copyElements es with
      | error f =>
        rw [hcopy, hrest] at h
        cases h
      | ok es' =>
        rw [hcopy, hrest] at h
        cases h
        have htail := ih (fun e he => hes e (List.mem_cons_of_mem _ he)) hrest
        intro w hw
        rcases List.mem_cons.mp hw with rfl | hw
        · exact hes e List.mem_cons_self hcopy
        · exact htail w hw

/-- Copies of members are fully valid where those of each value are. -/
theorem fullyValid_copyMembers {ms done : List (Bytes × Value)} {c : ℕ} {w : Value}
    (hms : ∀ m ∈ ms, ∀ {w : Value}, copyInternal m.2 = .ok w → w.FullyValid)
    (hdone : ∀ m ∈ done, m.2.FullyValid) (h : copyMembers ms done c = .ok w) : w.FullyValid := by
  induction ms generalizing done c with
  | nil =>
    cases h
    exact all_map.mpr ⟨Value.noConfusion, hdone⟩
  | cons m ms ih =>
    obtain ⟨k, v⟩ := m
    simp only [copyMembers] at h
    -- A member is copied behind those that are done, where the map can grow for it.
    by_cases hroom : done.length < if c ≤ done.length then grownMapCapacity c else c
    · rw [if_pos hroom] at h
      cases hcopy : copyInternal v with
      | error f =>
        rw [hcopy] at h
        cases h
      | ok w' =>
        rw [hcopy] at h
        refine ih (fun m hm => hms m (List.mem_cons_of_mem _ hm)) (fun m hm => ?_) h
        rcases List.mem_append.mp hm with hm | hm
        · exact hdone m hm
        · cases List.mem_singleton.mp hm
          exact hms (k, v) List.mem_cons_self hcopy
    · rw [if_neg hroom] at h
      cases h

/-- A copy of a fully valid value is fully valid. -/
theorem fullyValid_copy {v w : Value} (h : copyInternal v = .ok w) (hv : v.FullyValid) :
    w.FullyValid := by
  induction v using Value.induction generalizing w with
  | map ms c ih =>
    have hms := (all_map.mp hv).2
    exact fullyValid_copyMembers (fun m hm _ hcopy => ih m hm hcopy (hms m hm))
      (fun m hm => by cases hm) h
  | array es c ih =>
    rw [copyInternal] at h
    split_ifs at h
    have hes := (all_array.mp hv).2
    cases hcopy : copyElements es with
    | error f =>
      rw [hcopy] at h
      cases h
    | ok ws =>
      rw [hcopy] at h
      cases h
      exact all_array.mpr ⟨Value.noConfusion,
        fullyValid_copyElements (fun e he _ hcopy => ih e he hcopy (hes e he)) hcopy⟩
  | _ =>
    cases h
    exact hv

end Value

/-! ## Requests -/

namespace Server

section

variable {ω : Type} {manager : MethodManager ω} {message : Value}

/-- A method ends, one way or the other. -/
theorem exists_ends (hmanager : manager.WellBehaved) (name : Bytes) (params : Value) (world : ω) :
    ∃ r world', manager.Ends name params world r world' ∧ ∀ v, r = .ok v → v.FullyValid := by
  cases hfind : manager.find name with
  | none => exact ⟨_, _, .missing hfind, nofun⟩
  | some method =>
    rcases hmanager name method hfind params world with ⟨v, world', hrun, hv⟩ | ⟨e, world', hrun⟩
    · exact ⟨_, _, .returned hfind hrun, fun v' h => Except.ok.inj h ▸ hv⟩
    · exact ⟨_, _, .threw hfind hrun, nofun⟩

/-- A response with an error can be written where its id can. -/
theorem fullyValid_jsonFault {id : Value} (hid : id.isValid = true → id.FullyValid)
    (e : AnyRpcException) : (jsonFault id e).FullyValid := by
  have herror : (jsonError e).FullyValid := by
    refine Value.all_map.mpr ⟨Value.noConfusion, ?_⟩
    simp only [List.forall_mem_cons]
    exact ⟨Value.noConfusion, Value.noConfusion, nofun⟩
  refine Value.all_map.mpr ⟨Value.noConfusion, fun m hm => ?_⟩
  rcases List.mem_append.mp hm with hm | hm
  · rcases List.mem_cons.mp hm with rfl | hm
    · exact Value.noConfusion
    · rw [jsonIdMember] at hm
      split_ifs at hm with hcase
      · cases List.mem_singleton.mp hm
        exact hid hcase
      · cases hm
  · cases List.mem_singleton.mp hm
    exact herror

/-- An answer can be written where its id and the result can. -/
theorem fullyValid_jsonReply {id answer : Value} (hid : id.isValid = true → id.FullyValid)
    {r : Except AnyRpcException Value} (hr : ∀ v, r = .ok v → v.FullyValid)
    (h : jsonReply id r = some answer) : answer.FullyValid := by
  cases r with
  | error e =>
    cases h
    exact fullyValid_jsonFault hid e
  | ok v =>
    rw [jsonReply] at h
    split_ifs at h with hcase
    cases h
    refine Value.all_map.mpr ⟨Value.noConfusion, ?_⟩
    simp only [List.forall_mem_cons]
    exact ⟨Value.noConfusion, hid hcase, hr v rfl, fun _ hm => absurd hm List.not_mem_nil⟩

/-- A request that is read is served, and its answer can be written. -/
theorem exists_jsonServes (hmanager : manager.WellBehaved) (hsized : message.Sized)
    (hvalid : message.FullyValid) (world : ω) :
    ∃ calls reply world', JsonServes manager message world calls reply world' ∧
      ∀ answer, reply = some answer → answer.FullyValid := by
  have hsource : (JsonRequest.ofMessage message).id.Sized ∧
      ((JsonRequest.ofMessage message).id.isValid = true →
        (JsonRequest.ofMessage message).id.FullyValid) := by
    cases hfield : message.field? (ascii "id") with
    | none =>
      rw [JsonRequest.ofMessage, hfield]
      exact ⟨trivial, fun h => absurd h Bool.false_ne_true⟩
    | some id =>
      rw [JsonRequest.ofMessage, hfield]
      exact ⟨hsized.field? hfield, fun _ => Value.All.field? hvalid hfield⟩
  obtain ⟨id, hcopy, -⟩ := Value.copyInternal_ok hsource.1
  have hid (h : id.isValid = true) : id.FullyValid :=
    Value.fullyValid_copy hcopy (hsource.2 ((isValid_of_copy hcopy).symm.trans h))
  cases hasked : jsonAsked? message with
  | none =>
    refine ⟨_, _, _, .refused hasked hcopy, fun answer h => ?_⟩
    cases h
    exact fullyValid_jsonFault hid invalidRequest
  | some asked =>
    obtain ⟨r, world', hends, hr⟩ := exists_ends hmanager asked.call.1 asked.params world
    exact ⟨_, _, _, .executed hasked hcopy hends, fun answer h => fullyValid_jsonReply hid hr h⟩

/-- The requests of a message are served, and the answers can be written. -/
theorem exists_jsonServesAll (hmanager : manager.WellBehaved) {messages : List Value}
    (hsized : ∀ m ∈ messages, m.Sized) (hvalid : ∀ m ∈ messages, m.FullyValid) (world : ω) :
    ∃ calls replies world', JsonServesAll manager messages world calls replies world' ∧
      ∀ answer ∈ replies.reduceOption, answer.FullyValid := by
  induction messages generalizing world with
  | nil => exact ⟨_, _, _, .nil, nofun⟩
  | cons message messages ih =>
    obtain ⟨calls, reply, world₁, hserves, hreply⟩ := exists_jsonServes hmanager
      (hsized message List.mem_cons_self) (hvalid message List.mem_cons_self) world
    obtain ⟨calls', replies, world₂, hall, hreplies⟩ := ih
      (fun m hm => hsized m (List.mem_cons_of_mem _ hm))
      (fun m hm => hvalid m (List.mem_cons_of_mem _ hm)) world₁
    refine ⟨_, _, _, .cons hserves hall, fun answer hmem => ?_⟩
    rw [List.reduceOption_mem_iff] at hmem
    rcases List.mem_cons.mp hmem with h | h
    · exact hreply answer h.symm
    · exact hreplies answer (List.reduceOption_mem_iff.mpr h)

/-- A request whose lookups fail is not answered. -/
theorem jsonExecuteSingleRequest_of_not_looksUp (manager : MethodManager ω)
    (hnot : ¬ LooksUp message) : ∃ f, jsonExecuteSingleRequest manager message = throw f := by
  rw [jsonExecuteSingleRequest]
  cases hlook : jsonLookUp message with
  | ok request w => exact absurd ⟨request, w, hlook⟩ hnot
  | error f w => exact ⟨f, rfl⟩

/-- A batch in which the lookups of a request fail is not answered. -/
theorem jsonExecuteRequests_of_not_looksUp {messages : List Value} {m : Value} (hm : m ∈ messages)
    (hnot : ¬ LooksUp m) (outIndex : ℕ) (b : Building ω) :
    ∃ f b', jsonExecuteRequests manager messages outIndex b = .error f b' := by
  induction messages generalizing outIndex b with
  | nil => cases hm
  | cons message messages ih =>
    rw [jsonExecuteRequests]
    cases hsingle : onServer (build (jsonExecuteSingleRequest manager message)) b with
    | error f b' => exact ⟨f, b', bind_of_error hsingle⟩
    | ok response b' =>
      rcases List.mem_cons.mp hm with rfl | hm
      · -- The lookups come first, and so the request did not return.
        obtain ⟨f, hthrows⟩ := jsonExecuteSingleRequest_of_not_looksUp manager hnot
        rw [hthrows] at hsingle
        cases hsingle
      · -- This request returned, so that it is one behind it whose lookups fail.
        rw [bind_of_ok hsingle]
        split_ifs
        · cases hset : onResult (Value.onChild (Value.element outIndex) (set response)) b' with
          | error f b'' => exact ⟨f, b'', bind_of_error hset⟩
          | ok _ b'' =>
            rw [bind_of_ok hset]
            exact ih hm (outIndex + 1) b''
        · exact ih hm outIndex b'

/-- The lookups of a request return where it is a map with enough room. -/
theorem looksUp_iff (hgrown : message.Grown) (hvalid : message.FullyValid)
    (hlimit : ∀ ms c, message = .map ms c → ms.length + 4 ≤ Value.maxMapCapacity) :
    LooksUp message ↔
      ∃ ms c, message = .map ms c ∧ ¬ Overflows ms (Value.capacityOf ms.length) := by
  cases message with
  | map ms c =>
    obtain ⟨hlength, rfl⟩ := (Value.all_map.mp hgrown).1
    obtain ⟨hsize, hmax⟩ := Value.capacityOf_bounds hlength
    rcases jsonLookUp_cases hsize hmax (hlimit ms _ rfl) with
      ⟨hroom, request, w, hrun⟩ | ⟨hover, w, hrun⟩
    · exact iff_of_true ⟨request, w, hrun⟩ ⟨ms, _, rfl, hroom⟩
    · refine iff_of_false ?_ ?_
      · rintro ⟨request, w', hlook⟩
        cases hrun.symm.trans hlook
      · rintro ⟨ms', c', heq, hroom⟩
        cases heq
        exact hroom hover
  | invalid => exact absurd rfl hvalid.root
  | _ =>
    refine iff_of_false ?_ ?_
    · rintro ⟨request, w, hlook⟩
      cases hlook
    · rintro ⟨ms, c, heq, -⟩
      cases heq

/-- A message that is no request is refused. -/
theorem jsonProcess_of_nil (manager : MethodManager ω) (hnil : jsonRequests message = []) :
    jsonProcess manager message = jsonInvalidRequest .null := by
  cases message with
  | map ms c => cases hnil
  | array messages c =>
    cases messages with
    | nil => rfl
    | cons m ms => cases hnil
  | _ => rfl

/-- The response for a message that is refused. -/
theorem build_invalidRequest (s : Server ω) :
    build (jsonInvalidRequest .null) s = .ok (jsonFault .null invalidRequest) s :=
  build_of_ok (onResult_of_ok (jsonGenerateFaultResponse_eq invalidRequest rfl))

/-- A message is processed where the lookups of all its requests return. -/
theorem jsonProcess_of_looksUp (hmanager : manager.WellBehaved) (hgrown : message.Grown)
    (hvalid : ∀ m ∈ jsonRequests message, m.FullyValid)
    (hlook : ∀ m ∈ jsonRequests message, LooksUp m) (s : Server ω) :
    ∃ v s', build (jsonProcess manager message) s = .ok v s' ∧ (v ≠ .invalid → v.FullyValid) := by
  by_cases hnil : jsonRequests message = []
  · -- No map and no batch, or an empty batch.
    rw [jsonProcess_of_nil manager hnil]
    exact ⟨_, s, build_invalidRequest s,
      fun _ => fullyValid_jsonFault (fun _ => Value.noConfusion) invalidRequest⟩
  · have hsized (m : Value) (hm : m ∈ jsonRequests message) : m.Sized :=
      (grown_of_mem_jsonRequests hgrown hm).sized
    obtain ⟨calls, replies, world, hall, hanswers⟩ :=
      exists_jsonServesAll hmanager hsized hvalid s.world
    obtain ⟨v, hrun, hnone, hsome⟩ := jsonProcess_serves hnil hlook hall
      (lt_of_le_of_lt (length_jsonRequests_le hgrown) (by decide))
    refine ⟨v, _, hrun, fun hv => ?_⟩
    -- Without an answer the response is left invalid, and nothing is written.
    have hne : replies.reduceOption ≠ [] := fun h => hv (hnone h)
    obtain ⟨c, rfl⟩ := hsome hne
    obtain ⟨answer, rest, hcons⟩ := List.exists_cons_of_ne_nil hne
    rw [hcons] at hanswers ⊢
    cases message with
    | array messages c' => exact Value.all_array.mpr ⟨Value.noConfusion, hanswers⟩
    | _ => exact hanswers answer List.mem_cons_self

/-- A message with a request whose lookups fail is not answered. -/
theorem jsonProcess_of_not_looksUp {m : Value} (hm : m ∈ jsonRequests message) (hnot : ¬ LooksUp m)
    (s : Server ω) : ∃ f s', build (jsonProcess manager message) s = .error f s' := by
  cases message with
  | map ms c =>
    cases List.mem_singleton.mp hm
    obtain ⟨f, hthrows⟩ := jsonExecuteSingleRequest_of_not_looksUp manager hnot
    exact ⟨f, s, by rw [jsonProcess, hthrows]; rfl⟩
  | array messages c =>
    cases messages with
    | nil => cases hm
    | cons m' ms =>
      have hmem : m ∈ m' :: ms := hm
      obtain ⟨f, b, hrun⟩ :
          ∃ f b, jsonExecuteRequests manager (m' :: ms) 0 { server := s } = .error f b :=
        jsonExecuteRequests_of_not_looksUp hmem hnot 0 { server := s }
      exact ⟨f, b.server, by rw [jsonProcess, build, hrun]⟩
  | _ => cases hm

end

section

variable [Platform] {ω : Type} {manager : MethodManager ω}

/-- A response of fully valid values is written. -/
theorem jsonRespond_returns (hbounded : Platform.Bounded) {v : Value} (hv : v.FullyValid)
    (s : Server ω) : ∃ s', jsonRespond v s = .ok () s' := by
  have hplain : JsonWriter.Plain { os := s.response } := ⟨nofun, rfl, rfl⟩
  rcases Value.returnsIff_traverse (JsonWriter.returnsIff_handle hbounded) v { os := s.response }
    hplain with ⟨-, w, hrun, -⟩ | ⟨hnot, -⟩
  · exact ⟨_, by rw [jsonRespond, hrun]⟩
  · exact absurd hv hnot

/-- The handler returns where its response is made. -/
theorem jsonRpcHandler_of_ok (hbounded : Platform.Bounded) {request : Bytes} {beyond : UInt8}
    {reader : Parsed Document JsonReader} (hread : jsonParse request beyond = .ok reader)
    {s s' : Server ω} {v : Value} (hrun : build (jsonAnswer manager reader) s = .ok v s')
    (hv : v ≠ .invalid → v.FullyValid) :
    ∃ answered s'', jsonRpcHandler manager request beyond s = .ok answered s'' := by
  rw [jsonRpcHandler, hread]
  dsimp only
  rw [bind_of_ok hrun]
  cases hcase : v.isInvalid with
  | true => exact ⟨_, _, congrFun (if_pos rfl) _⟩
  | false =>
    obtain ⟨s'', hrespond⟩ := jsonRespond_returns hbounded
      (hv ((Value.isInvalid_eq_false v).mp hcase)) s'
    rw [if_neg Bool.false_ne_true]
    exact ⟨true, s'', bind_of_ok hrespond⟩

/-- For a text that is read, the handler returns unless an element of a batch is no map or a request
loses a reference. -/
theorem jsonRpcHandler_returns_iff (hmanager : manager.WellBehaved) (hbounded : Platform.Bounded)
    {request : Bytes} {beyond : UInt8} {reader : Parsed Document JsonReader}
    (hread : jsonParse request beyond = .ok reader)
    (hlimit : ∀ ms c, .map ms c ∈ jsonRequests reader.handler.value →
      ms.length + 4 ≤ Value.maxMapCapacity) (s : Server ω) :
    (∃ answered s', jsonRpcHandler manager request beyond s = .ok answered s') ↔
      (reader.hasParseError = false → ∀ m ∈ jsonRequests reader.handler.value,
        ∃ ms c, m = .map ms c ∧ ¬ Overflows ms (Value.capacityOf ms.length)) := by
  cases hok : reader.hasParseError with
  | true =>
    let e : AnyRpcException := { code := ErrorCode.parseError, message := ascii "Parse error" }
    have hnull : Value.copyInternal .null = .ok .null := rfl
    have hfault := jsonGenerateFaultResponse_eq e hnull
    have hanswer : build (jsonAnswer manager reader) s = .ok (jsonFault .null e) s := by
      rw [jsonAnswer, hok, if_pos rfl]
      exact build_of_ok (onResult_of_ok hfault)
    exact iff_of_true (jsonRpcHandler_of_ok hbounded hread hanswer
      fun _ => fullyValid_jsonFault (fun _ => Value.noConfusion) e) fun hok => Bool.noConfusion hok
  | false =>
    have hanswer : jsonAnswer manager reader = jsonProcess manager reader.handler.value := by
      rw [jsonAnswer, hok, if_neg Bool.false_ne_true]
    have hgrown := JsonReader.grown_of_parseStream hread hok
    have hvalid : ∀ m ∈ jsonRequests reader.handler.value, m.FullyValid :=
      fullyValid_jsonRequests (JsonReader.fullyValid_of_parseStream hread hok)
    have hiff (m : Value) (hm : m ∈ jsonRequests reader.handler.value) :=
      looksUp_iff (grown_of_mem_jsonRequests hgrown hm) (hvalid m hm)
        fun ms c heq => hlimit ms c (heq ▸ hm)
    by_cases hlook : ∀ m ∈ jsonRequests reader.handler.value, LooksUp m
    · obtain ⟨v, s', hrun, hv⟩ := jsonProcess_of_looksUp hmanager hgrown hvalid hlook s
      rw [← hanswer] at hrun
      exact iff_of_true (jsonRpcHandler_of_ok hbounded hread hrun hv)
        fun _ m hm => (hiff m hm).mp (hlook m hm)
    · simp only [not_forall] at hlook
      obtain ⟨m, hm, hnot⟩ := hlook
      refine iff_of_false ?_ fun h => hnot ((hiff m hm).mpr (h rfl m hm))
      rintro ⟨answered, s', hrun⟩
      obtain ⟨f, s'', herror⟩ : ∃ f s'',
          build (jsonProcess manager reader.handler.value) s = .error f s'' :=
        jsonProcess_of_not_looksUp hm hnot s
      rw [← hanswer] at herror
      rw [jsonRpcHandler, hread] at hrun
      dsimp only at hrun
      rw [bind_of_error herror] at hrun
      cases hrun

end

/-- A request for the method `count`. -/
def countRequest : Bytes :=
  ascii "\x7b\"method\":\"count\",\"jsonrpc\":\"2.0\",\"params\":null,\"id\":7\x7d"

/-- What it is read as. -/
def countMessage : Value :=
  .map [(ascii "method", .string (ascii "count")), (ascii "jsonrpc", .string (ascii "2.0")),
    (ascii "params", .null), (ascii "id", .number (.ofInteger 7))] 16

/-- A batch of a request for a method that there is returns, and one of the request and a number does
not. -/
theorem jsonRpcHandler_returns_iff_batch :
    letI := Platform.blank
    (∃ answered s', jsonRpcHandler counting (ascii "[" ++ countRequest ++ ascii "]") 0
        { world := 0 } = .ok answered s') ∧
      ¬ ∃ answered s', jsonRpcHandler counting (ascii "[" ++ countRequest ++ ascii ",1]") 0
        { world := 0 } = .ok answered s' := by
  let _ := Platform.blank
  have hlimit (ms : List (Bytes × Value)) (c : ℕ) (h : Value.map ms c = countMessage) :
      ms.length + 4 ≤ Value.maxMapCapacity := by
    cases h
    decide
  have hroom : ¬ Overflows [(ascii "method", .string (ascii "count")),
      (ascii "jsonrpc", .string (ascii "2.0")), (ascii "params", .null),
      (ascii "id", .number (.ofInteger 7))] (Value.capacityOf 4) := by decide
  constructor
  · have hread : (jsonParse (ascii "[" ++ countRequest ++ ascii "]") 0).toOption.map
        (fun reader => (reader.hasParseError, reader.handler.value)) =
          some (false, .array [countMessage] 16) := by
      decide +kernel
    obtain ⟨reader, hparse, hok, hvalue⟩ := exists_parsed hread
    have hmem (m : Value) (hm : m ∈ jsonRequests reader.handler.value) : m = countMessage := by
      rw [hvalue] at hm
      exact List.mem_singleton.mp hm
    refine (jsonRpcHandler_returns_iff counting_wellBehaved Platform.bounded_blank hparse
      (fun ms c hm => hlimit ms c (hmem _ hm)) _).mpr fun _ m hm => ?_
    exact ⟨_, _, hmem m hm, hroom⟩
  · have hread : (jsonParse (ascii "[" ++ countRequest ++ ascii ",1]") 0).toOption.map
        (fun reader => (reader.hasParseError, reader.handler.value)) =
          some (false, .array [countMessage, .number (.ofInteger 1)] 16) := by
      decide +kernel
    obtain ⟨reader, hparse, hok, hvalue⟩ := exists_parsed hread
    have hnumber : Value.number (.ofInteger 1) ∈ jsonRequests reader.handler.value := by
      rw [hvalue]
      exact List.mem_cons_of_mem _ List.mem_cons_self
    have hmem (ms : List (Bytes × Value)) (c : ℕ)
        (hm : Value.map ms c ∈ jsonRequests reader.handler.value) : Value.map ms c = countMessage := by
      rw [hvalue] at hm
      rcases List.mem_cons.mp hm with h | h
      · exact h
      · cases List.mem_singleton.mp h
    rw [jsonRpcHandler_returns_iff counting_wellBehaved Platform.bounded_blank hparse
      (fun ms c hm => hlimit ms c (hmem ms c hm))]
    intro h
    obtain ⟨ms, c, heq, -⟩ := h hok _ hnumber
    cases heq

end Server

end AnyRpc
