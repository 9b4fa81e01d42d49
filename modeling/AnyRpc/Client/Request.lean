import AnyRpc.Json.WriteString
import AnyRpc.MessagePack.Writer
import AnyRpc.Value.Members

/-! # Requests

`GenerateRequest` of the handlers for JSON and for MessagePack. The parameters are moved into the
request, which is a local value, so that they need not be copied, and they are moved back behind the
traversal that writes the request. -/

namespace AnyRpc

open Library

/-- What `GenerateRequest` works on: the arguments that are references, the counter of
`ClientHandler`, and the local request. -/
structure Generation where
  params : Value
  os : Bytes := []
  requestId : BitVec 32 := 0
  nextId : BitVec 32 := 1
  request : Value := .invalid
  deriving Repr

namespace Generation

/-! ## Steps -/

/-- An operation on the request. -/
def onRequest {α : Type} (p : Exec Value α) : Exec Generation α := fun s =>
  match p s.request with
  | .ok a request => .ok a { s with request }
  | .error f request => .error f { s with request }

/-- An assignment to a part of the request. -/
def assign (ref : Exec Value ℕ) (v : Value) : Exec Generation Unit :=
  onRequest do
    let i ← ref
    modify fun request => request.setChild i v

/-- `GetNextId`. -/
def getNextId : Exec Generation (BitVec 32) := fun s =>
  .ok s.nextId { s with nextId := s.nextId + 1 }

/-- `ref.Assign(params)`: null takes the place of the parameters. -/
def assignParams (ref : Exec Value ℕ) : Exec Generation Unit := do
  assign ref (← get).params
  modify fun s => { s with params := .null }

/-- `params.Assign(ref)`: the parameters that are there are destroyed, and null takes the place of the
part of the request. -/
def restoreParams (ref : Exec Value ℕ) : Exec Generation Unit := do
  let i ← onRequest ref
  match (← get).request.child? i with
  | some params => modify fun s => { s with params, request := s.request.setChild i .null }
  | none => throw .undefined

/-- `request.Traverse(writer)`, for a writer to the stream. -/
def traverse {σ : Type} [Handler σ] (writer : Bytes → σ) (os : σ → Bytes) : Exec Generation Unit :=
  fun s =>
    match Value.traverse s.request (writer s.os) with
    | .ok _ w => .ok () { s with os := os w }
    | .error f w => .error f { s with os := os w }

end Generation

open Generation

variable [Platform]

/-! ## The handlers -/

/-- `JsonClientHandler::GenerateRequest`. -/
def JsonClientHandler.generateRequest (method : Bytes) (notification : Bool) :
    Exec Generation Bool := do
  modify fun s => { s with request := .invalid }
  assign (Value.member (ascii "jsonrpc")) (.string (ascii "2.0"))
  assign (Value.member (ascii "method")) (.string (cString method))
  assignParams (Value.member (ascii "params"))
  if !notification then
    let requestId ← getNextId
    modify fun s => { s with requestId }
    assign (Value.member (ascii "id")) (.number (.ofUint requestId))
  else
    modify fun s => { s with requestId := 0 }
  traverse (fun os => ({ os } : JsonWriter)) JsonWriter.os
  restoreParams (Value.member (ascii "params"))
  return true

/-- `MessagePackClientHandler::GenerateRequest`. -/
def MessagePackClientHandler.generateRequest (method : Bytes) (notification : Bool) :
    Exec Generation Bool := do
  modify fun s => { s with request := .invalid }
  if notification then
    modify fun s => { s with requestId := 0 }
    onRequest (Value.setSize 3)
    assign (Value.element 0) (.number (.ofInt 2))
    assign (Value.element 1) (.string (cString method))
    assignParams (Value.element 2)
  else
    let requestId ← getNextId
    modify fun s => { s with requestId }
    onRequest (Value.setSize 4)
    assign (Value.element 0) (.number (.ofInt 0))
    assign (Value.element 1) (.number (.ofUint requestId))
    assign (Value.element 2) (.string (cString method))
    assignParams (Value.element 3)
  traverse (fun os => ({ os } : MessagePackWriter)) MessagePackWriter.os
  if notification then
    restoreParams (Value.element 2)
  else
    restoreParams (Value.element 3)
  return true

/-! ## The requests -/

section

omit [Platform]

variable {key : Bytes} {s : Generation} {ms : List (Bytes × Value)} {c : ℕ}

/-- Assignment to a member that does not exist yet. -/
theorem assign_member (hrequest : s.request = .map ms c) (hkey : (0 : UInt8) ∉ key)
    (hnone : ∀ m ∈ ms, m.1 ≠ key) (hc : ms.length < c) (v : Value) :
    assign (Value.member key) v s = .ok () { s with request := .map (ms ++ [(key, v)]) c } := by
  have hmember := Value.member_of_none hkey (Value.memberIndex_eq_none.mpr hnone) hc
  have hp : (do
      let i ← Value.member key
      modify fun request => request.setChild i v : Exec Value Unit) s.request =
        .ok () (.map (ms ++ [(key, v)]) c) := by
    rw [hrequest, bind_of_ok hmember, modify_apply, Value.setChild_append]
  rw [assign, onRequest, hp]

/-- The first assignment to a member. -/
theorem assign_member_invalid (hrequest : s.request = .invalid) (hkey : (0 : UInt8) ∉ key)
    (v : Value) :
    assign (Value.member key) v s =
      .ok () { s with request := .map [(key, v)] Value.defaultMapCapacity } := by
  have hp : (do
      let i ← Value.member key
      modify fun request => request.setChild i v : Exec Value Unit) s.request =
        .ok () (.map [(key, v)] Value.defaultMapCapacity) := by
    rw [hrequest, bind_of_ok (Value.member_invalid hkey)]
    rfl
  rw [assign, onRequest, hp]

/-- The parameters are moved where an assignment puts them. -/
theorem assignParams_of_assign {ref : Exec Value ℕ} {s' : Generation}
    (h : assign ref s.params s = .ok () s') :
    assignParams ref s = .ok () { s' with params := .null } := by
  rw [assignParams, bind_of_ok (get_apply s), bind_of_ok h]
  rfl

end

/-- The request that `JsonClientHandler` makes. -/
def JsonClientHandler.request (method : Bytes) (params : Value) (requestId : Option (BitVec 32)) :
    Value :=
  .map ([(ascii "jsonrpc", .string (ascii "2.0")), (ascii "method", .string (cString method)),
    (ascii "params", params)] ++
      (requestId.map fun id => (ascii "id", .number (.ofUint id))).toList) Value.defaultMapCapacity

/-- The request that `MessagePackClientHandler` makes. -/
def MessagePackClientHandler.request (method : Bytes) (params : Value) :
    Option (BitVec 32) → Value
  | none => .array [.number (.ofInt 2), .string (cString method), params] 3
  | some id => .array [.number (.ofInt 0), .number (.ofUint id), .string (cString method), params] 4

/-- The part of `GenerateRequest` behind the making of the request. -/
def Generation.send {σ : Type} [Handler σ] (writer : Bytes → σ) (os : σ → Bytes)
    (ref : Exec Value ℕ) : Exec Generation Bool := do
  traverse writer os
  restoreParams ref
  return true

/-- The state in which the request is sent. -/
def Generation.requested (s : Generation) (notification : Bool)
    (request : Option (BitVec 32) → Value) : Generation :=
  if notification then { s with params := .null, requestId := 0, request := request none }
  else { s with
    params := .null
    requestId := s.nextId
    nextId := s.nextId + 1
    request := request (some s.nextId) }

/-- The parameters are moved into the request, which is sent. -/
theorem JsonClientHandler.generateRequest_eq (method : Bytes) (notification : Bool)
    (s : Generation) :
    generateRequest method notification s =
      send (fun os => ({ os } : JsonWriter)) JsonWriter.os (Value.member (ascii "params"))
        (s.requested notification (request method s.params)) := by
  have hjsonrpc : (0 : UInt8) ∉ ascii "jsonrpc" := by decide
  have hmethod : (0 : UInt8) ∉ ascii "method" := by decide
  have hparams : (0 : UInt8) ∉ ascii "params" := by decide
  have hid : (0 : UInt8) ∉ ascii "id" := by decide
  have hkeys₂ (v : Value) : ∀ m ∈ [(ascii "jsonrpc", v)], m.1 ≠ ascii "method" := by
    simp
    decide
  have hkeys₃ (v w : Value) : ∀ m ∈ [(ascii "jsonrpc", v), (ascii "method", w)],
      m.1 ≠ ascii "params" := by
    simp
    decide
  have hkeys₄ (v w x : Value) :
      ∀ m ∈ [(ascii "jsonrpc", v), (ascii "method", w), (ascii "params", x)], m.1 ≠ ascii "id" := by
    simp
    decide
  have h₁ : assign (Value.member (ascii "jsonrpc")) (.string (ascii "2.0"))
      { s with request := .invalid } = .ok () { s with
        request := .map [(ascii "jsonrpc", .string (ascii "2.0"))] Value.defaultMapCapacity } :=
    assign_member_invalid rfl hjsonrpc _
  have h₂ : assign (Value.member (ascii "method")) (.string (cString method)) { s with
        request := .map [(ascii "jsonrpc", .string (ascii "2.0"))] Value.defaultMapCapacity } =
      .ok () { s with
        request := .map [(ascii "jsonrpc", .string (ascii "2.0")),
          (ascii "method", .string (cString method))] Value.defaultMapCapacity } :=
    assign_member rfl hmethod (hkeys₂ _) (show 1 < 16 by decide) _
  have h₃ : assignParams (Value.member (ascii "params")) { s with
        request := .map [(ascii "jsonrpc", .string (ascii "2.0")),
          (ascii "method", .string (cString method))] Value.defaultMapCapacity } =
      .ok () { s with params := .null, request := request method s.params none } :=
    assignParams_of_assign (assign_member rfl hparams (hkeys₃ _ _) (show 2 < 16 by decide) _)
  rw [generateRequest, bind_of_ok (modify_apply _ s), bind_of_ok h₁, bind_of_ok h₂, bind_of_ok h₃]
  cases notification with
  | true =>
    rw [if_neg (by decide), bind_of_ok (modify_apply _ _)]
    rfl
  | false =>
    have h₄ : assign (Value.member (ascii "id")) (.number (.ofUint s.nextId)) { s with
          params := .null, requestId := s.nextId, nextId := s.nextId + 1
          request := request method s.params none } =
        .ok () (s.requested false (request method s.params)) :=
      assign_member rfl hid (hkeys₄ _ _ _) (show 3 < 16 by decide) _
    rw [if_pos (by decide), bind_of_ok (by rfl : getNextId _ = .ok s.nextId _),
      bind_of_ok (modify_apply _ _), bind_of_ok h₄]
    rfl

/-- The parameters are moved into the request, which is sent. -/
theorem MessagePackClientHandler.generateRequest_eq (method : Bytes) (notification : Bool)
    (s : Generation) :
    generateRequest method notification s =
      send (fun os => ({ os } : MessagePackWriter)) MessagePackWriter.os
        (Value.element (if notification then 2 else 3))
        (s.requested notification (request method s.params)) := by
  cases notification with
  | true =>
    have h₁ : onRequest (Value.setSize 3) { s with requestId := 0, request := .invalid } =
        .ok () { s with requestId := 0, request := .array [.invalid, .invalid, .invalid] 3 } := rfl
    have h₂ : assign (Value.element 0) (.number (.ofInt 2)) { s with
          requestId := 0, request := .array [.invalid, .invalid, .invalid] 3 } =
        .ok () { s with
          requestId := 0, request := .array [.number (.ofInt 2), .invalid, .invalid] 3 } := rfl
    have h₃ : assign (Value.element 1) (.string (cString method)) { s with
          requestId := 0, request := .array [.number (.ofInt 2), .invalid, .invalid] 3 } =
        .ok () { s with
          requestId := 0
          request := .array [.number (.ofInt 2), .string (cString method), .invalid] 3 } := rfl
    have h₄ : assignParams (Value.element 2) { s with
          requestId := 0
          request := .array [.number (.ofInt 2), .string (cString method), .invalid] 3 } =
        .ok () (s.requested true (request method s.params)) :=
      rfl
    rw [generateRequest, bind_of_ok (modify_apply _ s), if_pos rfl, bind_of_ok (modify_apply _ _),
      bind_of_ok h₁, bind_of_ok h₂, bind_of_ok h₃, bind_of_ok h₄]
    rfl
  | false =>
    have h₁ : onRequest (Value.setSize 4)
          { s with requestId := s.nextId, nextId := s.nextId + 1, request := .invalid } =
        .ok () { s with
          requestId := s.nextId, nextId := s.nextId + 1
          request := .array [.invalid, .invalid, .invalid, .invalid] 4 } := rfl
    have h₂ : assign (Value.element 0) (.number (.ofInt 0)) { s with
          requestId := s.nextId, nextId := s.nextId + 1
          request := .array [.invalid, .invalid, .invalid, .invalid] 4 } =
        .ok () { s with
          requestId := s.nextId, nextId := s.nextId + 1
          request := .array [.number (.ofInt 0), .invalid, .invalid, .invalid] 4 } := rfl
    have h₃ : assign (Value.element 1) (.number (.ofUint s.nextId)) { s with
          requestId := s.nextId, nextId := s.nextId + 1
          request := .array [.number (.ofInt 0), .invalid, .invalid, .invalid] 4 } =
        .ok () { s with
          requestId := s.nextId, nextId := s.nextId + 1
          request := .array [.number (.ofInt 0), .number (.ofUint s.nextId), .invalid, .invalid] 4 } := rfl
    have h₄ : assign (Value.element 2) (.string (cString method)) { s with
          requestId := s.nextId, nextId := s.nextId + 1
          request := .array [.number (.ofInt 0), .number (.ofUint s.nextId), .invalid, .invalid] 4 } =
        .ok () { s with
          requestId := s.nextId, nextId := s.nextId + 1
          request := .array [.number (.ofInt 0), .number (.ofUint s.nextId),
            .string (cString method), .invalid] 4 } := rfl
    have h₅ : assignParams (Value.element 3) { s with
          requestId := s.nextId, nextId := s.nextId + 1
          request := .array [.number (.ofInt 0), .number (.ofUint s.nextId),
            .string (cString method), .invalid] 4 } =
        .ok () (s.requested false (request method s.params)) :=
      rfl
    rw [generateRequest, bind_of_ok (modify_apply _ s), if_neg Bool.false_ne_true,
      bind_of_ok (by rfl : getNextId _ = .ok s.nextId _), bind_of_ok (modify_apply _ _),
      bind_of_ok h₁, bind_of_ok h₂, bind_of_ok h₃, bind_of_ok h₄, bind_of_ok h₅]
    rfl

/-! ## The parameters behind it -/

omit [Platform] in
/-- What sending the request does to the parameters that are in it: they are moved back where the
request can be written, and an exception leaves null in their place where it cannot. -/
theorem send_cases {σ : Type} [Handler σ] (writer : Bytes → σ) {os : σ → Bytes} {I : σ → Prop}
    (hI : ∀ e : Event, Announces e → ReturnsIff I True (Handler.handle e))
    {s : Generation} (hs : I (writer s.os)) {ref : Exec Value ℕ} {i : ℕ}
    (href : ref s.request = .ok i s.request) {params : Value}
    (hchild : s.request.child? i = some params)
    (hvalid : s.request.FullyValid ↔ params.FullyValid) :
    (params.FullyValid ∧ ∃ s', send writer os ref s = .ok true s' ∧ s'.params = params) ∨
      (¬ params.FullyValid ∧ ∃ e s', send writer os ref s = .error (.exception e) s' ∧
        s'.params = s.params) := by
  rcases Value.returnsIff_traverse hI s.request (writer s.os) hs with
    ⟨hfull, w, hrun, -⟩ | ⟨hnot, e, w, hrun⟩
  · have htraverse : Generation.traverse writer os s = .ok () { s with os := os w } := by
      rw [Generation.traverse, hrun]
    have honRequest : onRequest ref { s with os := os w } = .ok i { s with os := os w } := by
      rw [onRequest, href]
    have hrestore : restoreParams ref { s with os := os w } = .ok () { s with
        os := os w, params, request := s.request.setChild i .null } := by
      rw [restoreParams, bind_of_ok honRequest, bind_of_ok (get_apply _), hchild]
      rfl
    exact .inl ⟨hvalid.mp hfull, _, by rw [send, bind_of_ok htraverse, bind_of_ok hrestore]; rfl,
      rfl⟩
  · have htraverse : Generation.traverse writer os s =
        .error (.exception e) { s with os := os w } := by
      rw [Generation.traverse, hrun]
    refine .inr ⟨fun h => hnot (hvalid.mpr h), e, { s with os := os w }, ?_, rfl⟩
    rw [send, bind_of_error htraverse]

/-- Every call of a traversal to a `MessagePackWriter` returns. -/
theorem MessagePackWriter.returnsIff_handle (e : Event) (he : Announces e) :
    ReturnsIff (fun _ => True) True (Handler.handle e : Exec MessagePackWriter Unit) := by
  intro w _
  cases e with
  | startMap c =>
    cases c with
    | none => exact absurd he id
    | some _ => exact .inl ⟨trivial, _, rfl, trivial⟩
  | startArray c =>
    cases c with
    | none => exact absurd he id
    | some _ => exact .inl ⟨trivial, _, rfl, trivial⟩
  | _ => exact .inl ⟨trivial, _, rfl, trivial⟩

/-- The parameters are unchanged behind `JsonClientHandler::GenerateRequest`, or lost. -/
theorem JsonClientHandler.generateRequest_cases (hbounded : Platform.Bounded) (method : Bytes)
    (notification : Bool) (s : Generation) :
    (s.params.FullyValid ∧ ∃ s', generateRequest method notification s = .ok true s' ∧
        s'.params = s.params) ∨
      (¬ s.params.FullyValid ∧ ∃ e s', generateRequest method notification s =
          .error (.exception e) s' ∧ s'.params = .null) := by
  have hwriter : JsonWriter.Plain { os := (s.requested notification (request method s.params)).os } :=
    ⟨nofun, rfl, rfl⟩
  have hparams : (0 : UInt8) ∉ ascii "params" := by decide
  obtain ⟨ms, hrequest, hindex, hchild, hvalid⟩ : ∃ ms,
      (s.requested notification (request method s.params)).request =
          .map ms Value.defaultMapCapacity ∧
        Value.memberIndex (ascii "params") ms = some 2 ∧ ms[2]?.map Prod.snd = some s.params ∧
        ((Value.map ms Value.defaultMapCapacity).FullyValid ↔ s.params.FullyValid) := by
    cases notification with
    | true => exact ⟨_, rfl, rfl, rfl, by simp only [Value.FullyValid, Value.all_map]; simp [Value.All]⟩
    | false => exact ⟨_, rfl, rfl, rfl, by simp only [Value.FullyValid, Value.all_map]; simp [Value.All]⟩
  rw [generateRequest_eq]
  have hnull : (s.requested notification (request method s.params)).params = .null := by
    cases notification <;> rfl
  rcases send_cases (fun os => { os }) (JsonWriter.returnsIff_handle hbounded) hwriter
    (by rw [hrequest]; exact Value.member_of_some hparams hindex) (by rw [hrequest]; exact hchild)
    (by rw [hrequest]; exact hvalid) with ⟨hfull, s', hrun, hs'⟩ | ⟨hnot, e, s', hrun, hs'⟩
  · exact .inl ⟨hfull, s', hrun, hs'⟩
  · exact .inr ⟨hnot, e, s', hrun, hs'.trans hnull⟩

omit [Platform] in
/-- A value whose contents are null is null. -/
theorem eq_null_of_contents {v : Value} (h : v.contents = .null) : v = .null := by
  cases v with
  | null => rfl
  | array es c => simp at h
  | map ms c => simp at h
  | _ => cases h

/-- The parameters are unchanged behind `MessagePackClientHandler::GenerateRequest`, or lost. -/
theorem MessagePackClientHandler.generateRequest_cases (method : Bytes) (notification : Bool)
    (s : Generation) :
    (s.params.FullyValid ∧ ∃ s', generateRequest method notification s = .ok true s' ∧
        s'.params = s.params) ∨
      (¬ s.params.FullyValid ∧ ∃ e s', generateRequest method notification s =
          .error (.exception e) s' ∧ s'.params = .null) := by
  rw [generateRequest_eq]
  obtain ⟨i, href, hchild, hvalid, hnull⟩ : ∃ i,
      let s' := s.requested notification (request method s.params)
      Value.element (if notification then 2 else 3) s'.request = .ok i s'.request ∧
        s'.request.child? i = some s.params ∧ (s'.request.FullyValid ↔ s.params.FullyValid) ∧
        s'.params = .null := by
    cases notification with
    | true =>
      refine ⟨2, rfl, rfl, ?_, rfl⟩
      simp only [requested, request, if_true, Value.FullyValid, Value.all_array]
      simp [Value.All]
    | false =>
      refine ⟨3, rfl, rfl, ?_, rfl⟩
      simp only [requested, request, Bool.false_eq_true, if_false, Value.FullyValid,
        Value.all_array]
      simp [Value.All]
  rcases send_cases (fun os => { os }) MessagePackWriter.returnsIff_handle trivial href
    hchild hvalid with ⟨hfull, s', hrun, hs'⟩ | ⟨hnot, e, s', hrun, hs'⟩
  · exact .inl ⟨hfull, s', hrun, hs'⟩
  · exact .inr ⟨hnot, e, s', hrun, hs'.trans hnull⟩

/-- Both handlers leave the parameters structurally unchanged exactly where no part of them is
invalid: the exception that an invalid value raises leaves null in their place. -/
theorem generateRequest_params_iff (hbounded : Platform.Bounded) (method : Bytes)
    (notification : Bool) (s : Generation) :
    ((reached (JsonClientHandler.generateRequest method notification s)).params.contents =
        s.params.contents ↔ s.params.FullyValid) ∧
      ((reached (MessagePackClientHandler.generateRequest method notification s)).params.contents =
        s.params.contents ↔ s.params.FullyValid) := by
  have hlost {p : Exec Generation Bool}
      (h : (s.params.FullyValid ∧ ∃ s', p s = .ok true s' ∧ s'.params = s.params) ∨
        (¬ s.params.FullyValid ∧ ∃ e s', p s = .error (.exception e) s' ∧ s'.params = .null)) :
      (reached (p s)).params.contents = s.params.contents ↔ s.params.FullyValid := by
    rcases h with ⟨hfull, s', hrun, hs'⟩ | ⟨hnot, e, s', hrun, hs'⟩
    · rw [hrun, reached_ok, hs']
      exact iff_of_true rfl hfull
    · rw [hrun, reached_error, hs']
      refine iff_of_false (fun hsame => hnot ?_) hnot
      rw [eq_null_of_contents hsame.symm]
      exact Value.noConfusion
  exact ⟨hlost (JsonClientHandler.generateRequest_cases hbounded method notification s),
    hlost (MessagePackClientHandler.generateRequest_cases method notification s)⟩

omit [Platform] in
/-- Parameters that can be written. -/
theorem generateRequest_params_iff_valid :
    (reached (@JsonClientHandler.generateRequest Platform.blank (ascii "add") false
      { params := .array [.bool true] 1 })).params.contents =
        (Value.array [.bool true] 1).contents :=
  have hvalid : (Value.array [.bool true] 1).FullyValid := by
    simp only [Value.FullyValid, Value.all_array]
    simp [Value.All]
  (@generateRequest_params_iff Platform.blank Platform.bounded_blank (ascii "add") false
    { params := .array [.bool true] 1 }).1.mpr hvalid

omit [Platform] in
/-- An array with an element that was never assigned is lost. -/
theorem generateRequest_params_lost :
    ¬ ∀ (method : Bytes) (notification : Bool) (s : Generation),
      (reached (@JsonClientHandler.generateRequest Platform.blank method notification
          s)).params.contents = s.params.contents ∧
        (reached (@MessagePackClientHandler.generateRequest Platform.blank method notification
          s)).params.contents = s.params.contents := by
  intro h
  have hinvalid : ¬ (Value.array [.invalid] 1).FullyValid := by
    simp only [Value.FullyValid, Value.all_array]
    simp [Value.All]
  have hsame := (h (ascii "add") false { params := .array [.invalid] 1 }).2
  rcases @MessagePackClientHandler.generateRequest_cases Platform.blank (ascii "add") false
    { params := .array [.invalid] 1 } with ⟨hfull, -⟩ | ⟨-, e, s', hrun, hs'⟩
  · exact hinvalid hfull
  · rw [hrun, reached_error, hs'] at hsame
    simp [Value.contents] at hsame

end AnyRpc
