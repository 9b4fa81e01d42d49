import AnyRpc.Library.Emits
import AnyRpc.Server.Json
import AnyRpc.Server.MessagePack
import AnyRpc.Server.MultiCall

/-! # The methods that a request runs

What a request asks for, and the calls of `ExecuteMethod` that are made for it. Most names are passed
as C strings, which end at the first null byte of the method string (`Handling.executes_asked_iff`). -/

namespace AnyRpc

open Library Reader Building

namespace Server

variable {ω : Type}

-- the elaborator would run the handlers otherwise
attribute [local irreducible] Emits

/-! ## What a request asks for -/

/-- A request for a method. -/
structure Asked where
  /-- The method string. -/
  name : Bytes
  params : Value
  /-- Whether the name is passed as a C string. -/
  asCString : Bool

/-- The call of `ExecuteMethod` for a request. -/
def Asked.call (a : Asked) : Bytes × Value :=
  (if a.asCString then cString a.name else a.name, a.params)

/-- The name arrives whole: it is passed with its length, or it has no null byte. -/
def Asked.Whole (a : Asked) : Prop := a.asCString = true → (0 : UInt8) ∉ a.name

theorem Asked.call_eq_iff (a : Asked) : a.call.1 = a.name ↔ a.Whole := by
  obtain ⟨name, params, asCString⟩ := a
  cases asCString with
  | false => exact iff_of_true rfl nofun
  | true =>
    have hcut : (Asked.call ⟨name, params, true⟩).1 = cString name := rfl
    rw [hcut, Asked.Whole]
    exact cString_eq_self.trans ⟨fun h _ => h, fun h => h rfl⟩

/-- What one JSON-RPC request asks for. -/
def jsonAsked? (message : Value) : Option Asked :=
  match message.field? (ascii "method"), message.field? (ascii "jsonrpc"),
      message.field? (ascii "params") with
  | some (.string name), some (.string rpc), some params =>
    if cString rpc = ascii "2.0" ∧ params.isValid = true then some ⟨name, params, true⟩ else none
  | _, _, _ => none

/-- What a JSON message asks for. -/
def jsonAsked : Value → List Asked
  | .map ms c => (jsonAsked? (.map ms c)).toList
  | .array messages _ => messages.filterMap jsonAsked?
  | _ => []

/-- What is asked for by a method of a MessagePack message, which has to be a string. -/
def methodAsked (params : Value) : Value → List Asked
  | .string name => [⟨name, params, true⟩]
  | _ => []

/-- What a MessagePack message asks for. -/
def messagePackAsked : Value → List Asked
  | .array [_, id, method, params] _ => if id.isUint = true then methodAsked params method else []
  | .array [_, method, params] _ => methodAsked params method
  | _ => []

/-- What the parameters of `system.multicall` ask for. -/
def multiCallAsked : Value → List Asked
  | .array [.array entries _] _ =>
    (entries.filterMap callOf?).map fun call => ⟨call.1, call.2, true⟩
  | _ => []

/-- What an XML-RPC request asks for. -/
def xmlAsked (methodName : Bytes) (params : Value) : List Asked :=
  if methodName = ascii "system.multicall" then multiCallAsked params
  else [⟨methodName, params, false⟩]

/-! ## The calls that are made -/

/-- The calls of `ExecuteMethod` while a value is built. -/
def built (b : Building ω) : List (Bytes × Value) := b.server.executed

section

variable {σ α β : Type} {log : σ → List (Bytes × Value)} {calls calls' : List (Bytes × Value)}
variable {p : Exec σ α} {f : α → Exec σ β} {s : σ}

/-- From a state, the calls are made, whether the computation returns or not. -/
abbrev Makes (log : σ → List (Bytes × Value)) (calls : List (Bytes × Value)) (p : Exec σ α)
    (s : σ) : Prop :=
  Emits log {calls} {calls} (fun _ _ => True) (fun _ => True) p s

/-- From a state, the calls are made, of which a fault leaves out the last ones. -/
abbrev Asks (log : σ → List (Bytes × Value)) (calls : List (Bytes × Value)) (p : Exec σ α)
    (s : σ) : Prop :=
  Emits log {calls} (prefixes {calls}) (fun _ _ => True) (fun _ => True) p s

theorem Makes.asks (h : Makes log calls p s) : Asks log calls p s :=
  h.mono le_rfl (le_prefixes _) (fun _ _ h => h) fun _ h => h

theorem makes_of_leaves (h : Leaves log p) : Makes log [] p s := by
  have hs := h s
  cases hp : p s with
  | ok a s' =>
    rw [hp] at hs
    exact emits_of_ok hp rfl (hs.trans (List.append_nil _).symm) trivial
  | error e s' =>
    rw [hp] at hs
    exact emits_of_error hp rfl (hs.trans (List.append_nil _).symm) trivial

theorem Asks.of_eq {q : Exec σ α} (hq : Asks log calls q s) (h : p s = q s) : Asks log calls p s :=
  emits_of_eq h rfl hq

/-- A fault before any call. -/
theorem asks_throw (e : Fault) : Asks log calls (throw e : Exec σ α) s :=
  emits_of_error rfl (nil_mem_prefixes (exists_mem_singleton calls)) (List.append_nil _).symm trivial

/-- A second part that makes no call. -/
theorem Makes.bind_silent (hp : Makes log calls p s) (hf : ∀ a s', Makes log [] (f a) s') :
    Makes log calls (p >>= f) s := by
  refine (Emits.bind hp fun a s' _ => hf a s').mono ?_ ?_ (fun _ _ h => h) fun _ h => h
  · exact (mul_one ({calls} : Language _)).le
  · exact sup_le le_rfl (mul_one ({calls} : Language _)).le

/-- A handler that makes no call. -/
theorem Makes.catching {handler : AnyRpcException → Exec σ α} (hp : Makes log calls p s)
    (hhandler : ∀ e s', Makes log [] (handler e) s') :
    Makes log calls (AnyRpc.catching p handler) s := by
  rcases hp.cases with ⟨a, s', hrun, ⟨_, rfl, hlog⟩, -⟩ | ⟨e, s', hrun, ⟨_, rfl, hlog⟩, -⟩
  · exact emits_of_ok (catching_of_ok hrun) rfl hlog trivial
  · cases e with
    | exception e =>
      have hcatch : AnyRpc.catching p handler s = handler e s' := catching_of_exception hrun
      rcases (hhandler e s').cases with
        ⟨a, s'', hrun', ⟨_, rfl, hlog'⟩, -⟩ | ⟨e', s'', hrun', ⟨_, rfl, hlog'⟩, -⟩
      · exact emits_of_ok (hcatch.trans hrun') rfl (by rw [hlog', hlog, List.append_nil]) trivial
      · exact emits_of_error (hcatch.trans hrun') rfl (by rw [hlog', hlog, List.append_nil]) trivial
    | undefined | outOfFuel =>
      exact emits_of_error (by rw [AnyRpc.catching, hrun]) rfl hlog trivial

/-- One part after the other. -/
theorem Asks.bind (hp : Asks log calls p s) (hf : ∀ a s', Asks log calls' (f a) s') :
    Asks log (calls ++ calls') (p >>= f) s := by
  have h := Emits.seq hp (exists_mem_singleton calls') fun a s' _ => hf a s'
  have hmul : ({calls} : Language (Bytes × Value)) * {calls'} = {calls ++ calls'} := by
    ext w
    simp only [Language.mem_mul]
    constructor
    · rintro ⟨_, rfl, _, rfl, rfl⟩
      rfl
    · rintro rfl
      exact ⟨_, rfl, _, rfl, rfl⟩
  rwa [hmul] at h

/-- A second part that makes no call. -/
theorem Asks.bind_silent (hp : Asks log calls p s) (hf : ∀ a s', Asks log [] (f a) s') :
    Asks log calls (p >>= f) s := by
  have h := hp.bind hf
  rwa [List.append_nil] at h

/-- A first part that makes no call. -/
theorem Asks.silent_bind (hp : Asks log [] p s) (hf : ∀ a s', Asks log calls (f a) s') :
    Asks log calls (p >>= f) s :=
  hp.bind hf

end

section

variable {α : Type} {L T : Language (Bytes × Value)}

/-- `ExecuteMethod` is one call. -/
theorem makes_executeMethod (manager : MethodManager ω) (name : Bytes) (params : Value)
    (s : Server ω) :
    Makes Server.executed [(name, params)] (executeMethod manager name params) s := by
  cases hfind : manager.find name with
  | none => exact emits_of_ok (executeMethod_of_none hfind) rfl rfl trivial
  | some method =>
    cases hrun : method params s.world with
    | ok v world => exact emits_of_ok (executeMethod_of_ok hfind hrun) rfl rfl trivial
    | error f world => exact emits_of_error (executeMethod_of_error hfind hrun) rfl rfl trivial

theorem emits_onServer {p : Exec (Server ω) α} {b : Building ω}
    (h : Emits Server.executed L T (fun _ _ => True) (fun _ => True) p b.server) :
    Emits built L T (fun _ _ => True) (fun _ => True) (onServer p) b := by
  rcases h.cases with ⟨a, s', hp, ⟨w, hw, hlog⟩, -⟩ | ⟨e, s', hp, ⟨w, hw, hlog⟩, -⟩
  · exact emits_of_ok (onServer_of_ok hp) hw hlog trivial
  · exact emits_of_error (onServer_of_error hp) hw hlog trivial

theorem makes_onResult (p : Exec Value α) (b : Building ω) : Makes built [] (onResult p) b := by
  refine makes_of_leaves fun b => ?_
  rw [onResult]
  cases p b.value <;> rfl

theorem emits_build {p : Exec (Building ω) Unit} {s : Server ω}
    (h : Emits built L T (fun _ _ => True) (fun _ => True) p { server := s }) :
    Emits Server.executed L T (fun _ _ => True) (fun _ => True) (build p) s := by
  rcases h.cases with ⟨a, b, hp, ⟨w, hw, hlog⟩, -⟩ | ⟨e, b, hp, ⟨w, hw, hlog⟩, -⟩
  · exact emits_of_ok (by rw [build, hp]) hw hlog trivial
  · exact emits_of_error (by rw [build, hp]) hw hlog trivial

end

/-! ## JSON -/

/-- The references lead to the values of the members, not assigned for those that are missing. -/
theorem jsonLookUp_ok {message w : Value} {request : JsonRequest}
    (h : jsonLookUp message = .ok request w) :
    request = { method := (message.field? (ascii "method")).getD .invalid
                id := (message.field? (ascii "id")).getD .invalid
                rpc := (message.field? (ascii "jsonrpc")).getD .invalid
                params := (message.field? (ascii "params")).getD .invalid } := by
  obtain ⟨method, v₁, hmethod, h₁⟩ := bind_eq_ok.mp h
  rw [bind_of_ok (get_apply v₁)] at h₁
  obtain ⟨id, v₂, hid, h₂⟩ := bind_eq_ok.mp h₁
  obtain ⟨rpc, v₃, hrpc, h₃⟩ := bind_eq_ok.mp h₂
  obtain ⟨params, v₄, hparams, h₄⟩ := bind_eq_ok.mp h₃
  rw [bind_of_ok (get_apply v₄)] at h₄
  obtain ⟨hchild₁, -, hfield₁⟩ := Value.member_ok (by decide) hmethod
  obtain ⟨hchild₂, hkeep₂, hfield₂⟩ := Value.member_ok (by decide) hid
  obtain ⟨hchild₃, hkeep₃, hfield₃⟩ := Value.member_ok (by decide) hrpc
  obtain ⟨hchild₄, hkeep₄, -⟩ := Value.member_ok (by decide) hparams
  have hvalue₁ := hkeep₄ _ _ (hkeep₃ _ _ (hkeep₂ _ _ hchild₁))
  have hvalue₂ := hkeep₄ _ _ (hkeep₃ _ _ hchild₂)
  have hvalue₃ := hkeep₄ _ _ hchild₃
  rw [hfield₁ _ (by decide)] at hvalue₂
  rw [hfield₂ _ (by decide), hfield₁ _ (by decide)] at hvalue₃
  rw [hfield₃ _ (by decide), hfield₂ _ (by decide), hfield₁ _ (by decide)] at hchild₄
  by_cases hmoved : mapCapacity v₄ ≠ mapCapacity v₁
  · rw [if_pos hmoved] at h₄
    cases h₄
  · rw [if_neg hmoved] at h₄
    cases h₄
    simp only [hvalue₁, hvalue₂, hvalue₃, hchild₄, Option.getD_some]

/-- The call for a request, behind the lookups. -/
def jsonCall (request : JsonRequest) : List (Bytes × Value) :=
  match request.method, request.rpc with
  | .string name, .string rpc =>
    if cString rpc = ascii "2.0" ∧ request.params.isValid = true then
      [(cString name, request.params)]
    else []
  | _, _ => []

theorem makes_jsonExecuteRequest (manager : MethodManager ω) (request : JsonRequest)
    (b : Building ω) : Makes built (jsonCall request) (jsonExecuteRequest manager request) b := by
  obtain ⟨method, id, rpc, params⟩ := request
  have hinvalid : Makes built [] (jsonInvalidRequest id) b := makes_onResult _ b
  cases method with
  | string name =>
    cases rpc with
    | string rpc =>
      rw [jsonCall, jsonExecuteRequest]
      dsimp only
      by_cases hversion : cString rpc = ascii "2.0"
      · cases hparams : params.isInvalid with
        | true =>
          have hnot : ¬ (cString rpc = ascii "2.0" ∧ params.isValid = true) := by
            simp [Value.isValid, hparams]
          rw [if_neg hnot, if_neg (not_not.mpr hversion), if_pos rfl]
          exact hinvalid
        | false =>
          have hboth : cString rpc = ascii "2.0" ∧ params.isValid = true :=
            ⟨hversion, by rw [Value.isValid, hparams]; rfl⟩
          rw [if_pos hboth, if_neg (not_not.mpr hversion), if_neg Bool.false_ne_true]
          refine Makes.catching ?_ fun e b' => makes_onResult _ b'
          refine Makes.bind_silent (emits_onServer (makes_executeMethod _ _ _ _))
            fun result b' => ?_
          cases result with
          | none => exact makes_onResult _ b'
          | some result =>
            dsimp only
            split_ifs
            · exact makes_onResult _ b'
            · exact makes_of_leaves (Leaves.pure ())
      · have hnot : ¬ (cString rpc = ascii "2.0" ∧ params.isValid = true) :=
          fun h => hversion h.1
        rw [if_neg hnot, if_pos hversion]
        exact hinvalid
    | _ => exact hinvalid
  | _ => exact hinvalid

/-- The calls for what a message asks for. -/
theorem asks_jsonExecuteSingleRequest (manager : MethodManager ω) (message : Value)
    (b : Building ω) :
    Asks built ((jsonAsked? message).toList.map Asked.call)
      (jsonExecuteSingleRequest manager message) b := by
  rw [jsonExecuteSingleRequest]
  cases hlook : jsonLookUp message with
  | error f w => exact asks_throw f
  | ok request w =>
    have hcall : (jsonAsked? message).toList.map Asked.call = jsonCall request := by
      rw [jsonLookUp_ok hlook, jsonCall, jsonAsked?]
      cases message.field? (ascii "method") with
      | none => rfl
      | some method =>
        cases message.field? (ascii "jsonrpc") with
        | none => cases method <;> rfl
        | some rpc =>
          cases message.field? (ascii "params") with
          | none => cases method <;> cases rpc <;> first | rfl | simp [Value.isValid, Value.isInvalid]
          | some params =>
            cases method <;> cases rpc <;> try rfl
            simp only [Option.getD_some]
            split_ifs <;> rfl
    rw [hcall]
    exact (makes_jsonExecuteRequest manager request b).asks

theorem asks_jsonExecuteRequests (manager : MethodManager ω) (messages : List Value)
    (outIndex : ℕ) (b : Building ω) :
    Asks built ((messages.filterMap jsonAsked?).map Asked.call)
      (jsonExecuteRequests manager messages outIndex) b := by
  induction messages generalizing outIndex b with
  | nil => exact (makes_of_leaves (Leaves.pure ())).asks
  | cons message messages ih =>
    have hsplit : ((message :: messages).filterMap jsonAsked?).map Asked.call =
        (jsonAsked? message).toList.map Asked.call ++
          (messages.filterMap jsonAsked?).map Asked.call := by
      cases hasked : jsonAsked? message <;> simp [hasked]
    rw [hsplit, jsonExecuteRequests]
    refine Asks.bind (emits_onServer (emits_build (asks_jsonExecuteSingleRequest _ _ _)))
      fun response b' => ?_
    split_ifs
    · exact Asks.silent_bind (makes_onResult _ b').asks fun _ b'' => ih (outIndex + 1) b''
    · exact ih outIndex b'

theorem asks_jsonProcess (manager : MethodManager ω) (message : Value) (b : Building ω) :
    Asks built ((jsonAsked message).map Asked.call) (jsonProcess manager message) b := by
  cases message with
  | map ms c => exact asks_jsonExecuteSingleRequest manager _ b
  | array messages c =>
    cases messages with
    | nil => exact (makes_onResult _ b).asks
    | cons message messages => exact asks_jsonExecuteRequests manager _ 0 b
  | _ => exact (makes_onResult _ b).asks

theorem makes_build {calls : List (Bytes × Value)} {p : Exec (Building ω) Unit} {s : Server ω}
    (h : Makes built calls p { server := s }) : Makes Server.executed calls (build p) s :=
  emits_build h

section

variable [Platform]

theorem leaves_jsonRespond (v : Value) : Leaves (Server.executed (ω := ω)) (jsonRespond v) := by
  intro s
  rw [jsonRespond]
  cases Value.traverse v ({ os := s.response } : JsonWriter) <;> rfl

/-- The message that a request holds, where it can be parsed. -/
def jsonMessage? (request : Bytes) (beyond : UInt8) : Option Value :=
  match jsonParse request beyond with
  | .ok reader => if reader.hasParseError then none else some reader.handler.value
  | .error _ => none

theorem asks_jsonRpcHandler (manager : MethodManager ω) (request : Bytes) (beyond : UInt8)
    (s : Server ω) :
    Asks Server.executed (((jsonMessage? request beyond).elim [] jsonAsked).map Asked.call)
      (jsonRpcHandler manager request beyond) s := by
  rw [jsonRpcHandler, jsonMessage?]
  cases jsonParse request beyond with
  | error f => exact asks_throw f
  | ok reader =>
    refine Asks.bind_silent (emits_build ?_) fun response s' => ?_
    · rw [jsonAnswer]
      dsimp only
      cases reader.hasParseError with
      | true => exact (makes_onResult _ _).asks
      | false => exact asks_jsonProcess manager _ _
    · split_ifs
      · exact (makes_of_leaves (Leaves.pure false)).asks
      · exact (makes_of_leaves ((leaves_jsonRespond response).bind fun _ => Leaves.pure true)).asks

/-! ## MessagePack -/

theorem leaves_messagePackRespond (v : Value) :
    Leaves (Server.executed (ω := ω)) (messagePackRespond v) := by
  intro s
  rw [messagePackRespond]
  cases Value.traverse v ({ os := s.response } : MessagePackWriter) <;> rfl

end

section

variable (manager : MethodManager ω) (type id method params : Value) (s : Server ω)

theorem makes_messagePackExecute (name : Bytes) :
    Makes Server.executed [(name, params)] (messagePackExecute manager name id params) s := by
  refine Makes.bind_silent (makes_executeMethod manager name params s) fun result s' => ?_
  cases result <;> exact makes_of_leaves (Leaves.pure _)

theorem asks_messagePackProcessTyped (c : ℕ) :
    Asks Server.executed ((messagePackAsked (.array [type, id, method, params] c)).map Asked.call)
      (messagePackProcessTyped manager id method params) s := by
  rw [messagePackAsked, messagePackProcessTyped.eq_def]
  cases id.isUint with
  | false => exact (makes_of_leaves (Leaves.pure messagePackInvalidRequest)).asks
  | true =>
    rw [if_pos rfl, if_neg (by decide)]
    cases method with
    | string name =>
      dsimp only
      rw [catchException_eq]
      exact (Makes.catching (makes_messagePackExecute manager id params s (cString name))
        fun e s' => makes_of_leaves (Leaves.pure _)).asks
    | _ => exact (makes_of_leaves (Leaves.pure messagePackInvalidRequest)).asks

theorem asks_messagePackProcessCall (c : ℕ) :
    Asks Server.executed ((messagePackAsked (.array [type, id, method, params] c)).map Asked.call)
      (messagePackProcessCall manager type id method params) s := by
  cases htype : type.isInt with
  | false =>
    obtain ⟨f, hthrow⟩ := typeRejected_of_not_isInt htype 0 s
    exact emits_of_eq ((bind_of_error hthrow).trans rfl) rfl (asks_throw f)
  | true =>
    rw [messagePackProcessCall, typeRejected_of_isInt htype, pure_bind, if_neg Bool.false_ne_true]
    exact asks_messagePackProcessTyped manager type id method params s c

theorem asks_messagePackProcessNotification (c : ℕ) :
    Asks Server.executed ((messagePackAsked (.array [type, method, params] c)).map Asked.call)
      (messagePackProcessNotification manager type method params) s := by
  cases htype : type.isInt with
  | false =>
    obtain ⟨f, hthrow⟩ := typeRejected_of_not_isInt htype 1 s
    exact emits_of_eq ((bind_of_error hthrow).trans rfl) rfl (asks_throw f)
  | true =>
    rw [messagePackProcessNotification, typeRejected_of_isInt htype, pure_bind,
      if_neg Bool.false_ne_true, messagePackProcessTypedNotification.eq_def, messagePackAsked]
    cases method with
    | string name =>
      dsimp only
      rw [catchException_eq]
      have hcall : Makes Server.executed [(cString name, params)]
          (do let _ ← executeMethod manager (cString name) params) s :=
        Makes.bind_silent (makes_executeMethod manager (cString name) params s)
          fun _ _ => makes_of_leaves (Leaves.pure ())
      exact (hcall.catching fun e s' => makes_of_leaves (Leaves.pure ())).asks
    | _ => exact (makes_of_leaves (Leaves.pure ())).asks

variable [Platform]

theorem asks_messagePackRpcHandler (request : Bytes) (beyond : UInt8) :
    Asks Server.executed
      (((messagePackMessage? request beyond).elim [] messagePackAsked).map Asked.call)
      (messagePackRpcHandler manager request beyond) s := by
  have hrespond (v : Value) (s' : Server ω) : Asks Server.executed []
      (do messagePackRespond v; return true) s' :=
    (makes_of_leaves ((leaves_messagePackRespond v).bind fun _ => Leaves.pure true)).asks
  have hrun := messagePackRpcHandler_eq manager request beyond s
  cases hmessage : messagePackMessage? request beyond with
  | none =>
    rw [hmessage] at hrun
    exact (hrespond _ s).of_eq hrun
  | some message =>
    rw [hmessage] at hrun
    rw [Option.elim_some]
    split at hrun
    · next type id method params c hm =>
      cases hm
      exact ((asks_messagePackProcessCall manager type id method params s c).bind_silent
        fun response s' => hrespond response s').of_eq hrun
    · next type method params c hm =>
      cases hm
      exact ((asks_messagePackProcessNotification manager type method params s c).bind_silent
        fun _ s' => (makes_of_leaves (Leaves.pure false)).asks).of_eq hrun
    · next m hcall hnotify hm =>
      cases hm
      have hnone : messagePackAsked message = [] := by
        rw [messagePackAsked.eq_def]
        split
        · exact absurd rfl (hcall _ _ _ _ _)
        · exact absurd rfl (hnotify _ _ _ _)
        · rfl
      rw [hnone]
      exact (hrespond _ s).of_eq hrun
    · next hm => cases hm

end

/-! ## XML -/

section

variable (manager : MethodManager ω)

theorem makes_xmlExecuteEntry (i : ℕ) {entry params : Value} {name : Bytes}
    (hcall : callOf? entry = some (name, params)) (b : Building ω) :
    Makes built [(cString name, params)] (xmlExecuteEntry manager i entry) b := by
  refine emits_of_eq (xmlExecuteEntry_of_call manager i hcall b) rfl ?_
  refine Makes.catching ?_ fun e b' => makes_onResult _ b'
  refine Makes.bind_silent (emits_onServer (makes_executeMethod manager _ _ _)) fun result b' => ?_
  cases result with
  | none => exact makes_onResult _ b'
  | some result => exact makes_onResult _ b'

/-- An entry that is no call. -/
theorem makes_xmlExecuteEntry_of_none (i : ℕ) {entry : Value} (hcall : callOf? entry = none)
    (b : Building ω) : Makes built [] (xmlExecuteEntry manager i entry) b := by
  have hrejected : xmlRejected entry = .ok true := by
    rw [xmlRejected_eq, hcall]
    rfl
  rw [xmlExecuteEntry, hrejected, reading, pure_bind, if_pos rfl]
  exact makes_onResult _ b

theorem asks_xmlExecuteEntries (entries : List Value) (i : ℕ) (b : Building ω) :
    Asks built (((entries.filterMap callOf?).map fun call => (⟨call.1, call.2, true⟩ : Asked)).map
      Asked.call) (xmlExecuteEntries manager entries i) b := by
  induction entries generalizing i b with
  | nil => exact (makes_of_leaves (Leaves.pure ())).asks
  | cons entry entries ih =>
    rw [xmlExecuteEntries]
    cases hcall : callOf? entry with
    | none =>
      rw [List.filterMap_cons_none hcall]
      exact (makes_xmlExecuteEntry_of_none manager i hcall b).asks.silent_bind
        fun _ b' => ih (i + 1) b'
    | some call =>
      rw [List.filterMap_cons_some hcall]
      exact (makes_xmlExecuteEntry manager i hcall b).asks.bind fun _ b' => ih (i + 1) b'

theorem leaves_putResponse (text : Bytes) :
    Leaves (Server.executed (ω := ω)) (putResponse text) :=
  Leaves.modify fun _ => rfl

variable [Platform] [DoubleDigits]

theorem leaves_xmlTraverse (v : Value) : Leaves (Server.executed (ω := ω)) (xmlTraverse v) := by
  intro s
  rw [xmlTraverse]
  cases Value.traverse v ({ os := s.response } : XmlWriter) <;> rfl

theorem leaves_xmlGenerateResponse (v : Value) :
    Leaves (Server.executed (ω := ω)) (xmlGenerateResponse v) :=
  (leaves_putResponse _).bind fun _ => (leaves_xmlTraverse v).bind fun _ => leaves_putResponse _

theorem makes_xmlGenerateFaultResponse (code : BitVec 32) (text : Bytes) (s : Server ω) :
    Makes Server.executed [] (xmlGenerateFaultResponse code text) s := by
  rw [xmlGenerateFaultResponse]
  refine Makes.bind_silent (makes_build (makes_onResult _ _)) fun fault s' => ?_
  exact makes_of_leaves ((leaves_putResponse _).bind fun _ =>
    (leaves_xmlTraverse fault).bind fun _ => leaves_putResponse _)

/-- The processing of a request whose method is `system.multicall`. -/
theorem asks_xmlProcessMultiCall (params : Value) (s : Server ω) :
    Asks Server.executed ((multiCallAsked params).map Asked.call)
      (xmlProcessMultiCall manager params) s := by
  have hfault := makes_xmlGenerateFaultResponse ErrorCode.invalidParams
    (ascii "Invalid method parameters") s
  cases params with
  | array elements c =>
    cases elements with
    | nil => exact hfault.asks
    | cons first others =>
      cases first with
      | array entries d =>
        cases others with
        | nil =>
          rw [multiCallAsked, xmlProcessMultiCall]
          refine Asks.bind_silent (emits_build ?_) fun result s' =>
            (makes_of_leaves (leaves_xmlGenerateResponse (resultOrEmpty result))).asks
          rw [xmlExecuteMultiCall]
          exact (makes_onResult _ _).asks.silent_bind
            fun _ b => asks_xmlExecuteEntries manager entries 0 b
        | cons second others => exact hfault.asks
      | _ => exact hfault.asks
  | _ => exact hfault.asks

theorem makes_xmlExecute (name : Bytes) (params : Value) (s : Server ω) :
    Makes Server.executed [(name, params)] (xmlExecute manager name params) s := by
  rw [xmlExecute]
  refine Makes.bind_silent (makes_executeMethod manager name params s) fun result s' => ?_
  cases result with
  | none => exact makes_xmlGenerateFaultResponse _ _ s'
  | some result => exact makes_of_leaves (leaves_xmlGenerateResponse (resultOrEmpty result))

/-- The method and the parameters that a request holds, where it can be parsed. -/
def xmlMessage? (request : Bytes) (beyond : UInt8) : Option (Bytes × Value) :=
  match xmlParse request beyond with
  | .ok (reader, methodName) =>
    if reader.hasParseError then none else some (methodName, reader.handler.value)
  | .error _ => none

theorem asks_xmlRpcHandler (request : Bytes) (beyond : UInt8) (s : Server ω) :
    Asks Server.executed
      (((xmlMessage? request beyond).elim [] fun call => xmlAsked call.1 call.2).map Asked.call)
      (xmlRpcHandler manager request beyond) s := by
  rw [xmlRpcHandler, xmlMessage?]
  cases xmlParse request beyond with
  | error f => exact asks_throw f
  | ok result =>
    obtain ⟨reader, methodName⟩ := result
    have hdone (s' : Server ω) : Asks Server.executed [] (pure true) s' :=
      (makes_of_leaves (Leaves.pure true)).asks
    dsimp only
    cases reader.hasParseError with
    | true =>
      exact (makes_xmlGenerateFaultResponse _ _ s).asks.bind_silent fun _ s' => hdone s'
    | false =>
      by_cases hmulti : methodName = ascii "system.multicall"
      · rw [if_neg Bool.false_ne_true, if_pos hmulti, if_neg Bool.false_ne_true, Option.elim_some,
          xmlAsked, if_pos hmulti]
        exact (asks_xmlProcessMultiCall manager _ s).bind_silent fun _ s' => hdone s'
      · rw [if_neg Bool.false_ne_true, if_neg hmulti, if_neg Bool.false_ne_true, Option.elim_some,
          xmlAsked, if_neg hmulti]
        have hcall : Makes Server.executed [(methodName, reader.handler.value)]
            (catching (xmlExecute manager methodName reader.handler.value) fun fault =>
              xmlGenerateFaultResponse fault.code fault.message) s :=
          (makes_xmlExecute manager methodName _ s).catching
            fun e s' => makes_xmlGenerateFaultResponse _ _ s'
        exact hcall.asks.bind_silent fun _ s' => hdone s'

end

/-! ## Requests of every protocol -/

section

/-- The protocols that a server can speak. -/
inductive Protocol
  | json
  | messagePack
  | xml

variable [Platform] [DoubleDigits]

/-- The handler of a protocol. -/
def Protocol.handler (protocol : Protocol) (manager : MethodManager ω) (request : Bytes)
    (beyond : UInt8) : Exec (Server ω) Bool :=
  match protocol with
  | .json => jsonRpcHandler manager request beyond
  | .messagePack => messagePackRpcHandler manager request beyond
  | .xml => xmlRpcHandler manager request beyond

/-- What a request asks for, where it can be parsed. -/
def Protocol.asked (protocol : Protocol) (request : Bytes) (beyond : UInt8) : List Asked :=
  match protocol with
  | .json => (jsonMessage? request beyond).elim [] jsonAsked
  | .messagePack => (messagePackMessage? request beyond).elim [] messagePackAsked
  | .xml => (xmlMessage? request beyond).elim [] fun call => xmlAsked call.1 call.2

theorem asks_handler (protocol : Protocol) (manager : MethodManager ω) (request : Bytes)
    (beyond : UInt8) (s : Server ω) :
    Asks Server.executed ((protocol.asked request beyond).map Asked.call)
      (protocol.handler manager request beyond) s := by
  cases protocol with
  | json => exact asks_jsonRpcHandler manager request beyond s
  | messagePack => exact asks_messagePackRpcHandler manager s request beyond
  | xml => exact asks_xmlRpcHandler manager request beyond s

/-- A request that a server handles. -/
structure Handling (ω : Type) where
  protocol : Protocol
  manager : MethodManager ω
  request : Bytes
  /-- The byte behind the request. -/
  beyond : UInt8
  server : Server ω

namespace Handling

/-- What is asked for. -/
def asked (h : Handling ω) : List Asked := h.protocol.asked h.request h.beyond

/-- The calls of `ExecuteMethod`, whether the handler returns or throws. -/
def calls (h : Handling ω) : List (Bytes × Value) :=
  (reached (h.protocol.handler h.manager h.request h.beyond h.server)).executed.drop
    h.server.executed.length

/-- For one of the requests for a method, the method of a name is executed. -/
def Executes (h : Handling ω) (a : Asked) (name : Bytes) : Prop :=
  ∃ i : ℕ, h.asked[i]? = some a ∧ h.calls[i]? = some (name, a.params)

/-- The calls are those for what is asked for, up to a fault. -/
theorem calls_isPrefix (h : Handling ω) : h.calls <+: h.asked.map Asked.call := by
  have hcalls : ∀ {w : List (Bytes × Value)}, (reached (h.protocol.handler h.manager h.request
      h.beyond h.server)).executed = h.server.executed ++ w → h.calls = w := by
    intro w hw
    rw [calls, hw, List.drop_left]
  rcases (asks_handler h.protocol h.manager h.request h.beyond h.server).cases with
    ⟨_, s', hrun, ⟨_, rfl, hlog⟩, -⟩ | ⟨_, s', hrun, ⟨w, hw, hlog⟩, -⟩
  · rw [hcalls (by rw [hrun]; exact hlog)]
    exact List.prefix_rfl
  · rw [hcalls (by rw [hrun]; exact hlog)]
    obtain ⟨_, rfl, hw⟩ := mem_prefixes.mp hw
    exact hw

/-- Each call is that for what is asked for at its place. -/
theorem call_of_asked (h : Handling ω) {i : ℕ} {call : Bytes × Value}
    (hcall : h.calls[i]? = some call) : ∃ a, h.asked[i]? = some a ∧ call = a.call := by
  obtain ⟨rest, hrest⟩ := h.calls_isPrefix
  have hmap : (h.asked.map Asked.call)[i]? = some call := by
    rw [← hrest, List.getElem?_append_left (List.getElem?_eq_some_iff.mp hcall).1, hcall]
  rw [List.getElem?_map, Option.map_eq_some_iff] at hmap
  obtain ⟨a, ha, rfl⟩ := hmap
  exact ⟨a, ha, rfl⟩

theorem Executes.eq_call {h : Handling ω} {a : Asked} {name : Bytes} (hname : h.Executes a name) :
    name = a.call.1 := by
  obtain ⟨i, ha, hcall⟩ := hname
  obtain ⟨a', ha', hcall'⟩ := h.call_of_asked hcall
  rw [ha] at ha'
  cases ha'
  exact congrArg Prod.fst hcall'

/-- A request for one method that is executed. -/
theorem executes_one {h : Handling ω} {name name' : Bytes} (hasked : h.asked.map Asked.name = [name])
    (hcalls : h.calls.map Prod.fst = [name']) : ∃ a, a.name = name ∧ h.Executes a name' := by
  obtain ⟨call, hcall, rfl⟩ := List.map_eq_singleton_iff.mp hcalls
  have hfirst : h.calls[0]? = some call := by
    rw [hcall]
    rfl
  obtain ⟨a, ha, rfl⟩ := h.call_of_asked hfirst
  obtain ⟨a', ha', rfl⟩ := List.map_eq_singleton_iff.mp hasked
  rw [ha'] at ha
  cases ha
  exact ⟨a, rfl, 0, by rw [ha']; rfl, by rw [hcall]; rfl⟩

/-- Each method that is executed is one that is asked for, by its whole name exactly where that
arrives whole; two whole names that differ never lead to the same method. -/
theorem executes_asked_iff (h : Handling ω) :
    (∀ (i : ℕ) (call : Bytes × Value), h.calls[i]? = some call →
        ∃ a, h.asked[i]? = some a ∧ h.Executes a call.1) ∧
      (∀ a name, h.Executes a name → (name = a.name ↔ a.Whole)) ∧
      ∀ (ω' : Type) (h' : Handling ω') (a a' : Asked) (name : Bytes), h.Executes a name →
        h'.Executes a' name → a.Whole → a'.Whole → a.name = a'.name := by
  refine ⟨fun i call hcall => ?_, fun a name hname => ?_, ?_⟩
  · obtain ⟨a, ha, rfl⟩ := h.call_of_asked hcall
    exact ⟨a, ha, i, ha, hcall⟩
  · rw [hname.eq_call]
    exact a.call_eq_iff
  · intro ω' h' a a' name hname hname' hwhole hwhole'
    calc
      a.name = a.call.1 := (a.call_eq_iff.mpr hwhole).symm
      _ = a'.call.1 := by rw [← hname.eq_call, ← hname'.eq_call]
      _ = a'.name := a'.call_eq_iff.mpr hwhole'

end Handling

end

/-- The MessagePack request for a method without parameters. -/
def handlingOf (name : Bytes) : Handling Unit where
  protocol := .messagePack
  manager := noMethods
  request := [0x94, 0x00, 0x01] ++ MessagePackWriter.string name ++ [0x90]
  beyond := 0
  server := { world := () }

/-- What a request for the method `a` executes. -/
theorem executes_handlingOf :
    letI := Platform.blank
    letI := DoubleDigits.blank
    ∃ a, (handlingOf [0x61]).Executes a [0x61] ∧ ([0x61] = a.name ↔ a.Whole) := by
  let _ := Platform.blank
  let _ := DoubleDigits.blank
  obtain ⟨a, -, hname⟩ : ∃ a : Asked, a.name = [0x61] ∧ (handlingOf [0x61]).Executes a [0x61] :=
    (handlingOf [0x61]).executes_one (by decide +kernel) (by decide +kernel)
  exact ⟨a, hname, (handlingOf [0x61]).executes_asked_iff.2.1 a [0x61] hname⟩

/-- The methods `a` and `a`, null, `b` are the same one. -/
theorem not_executes_whole :
    letI := Platform.blank
    letI := DoubleDigits.blank
    ∃ a a' name, (handlingOf [0x61, 0, 0x62]).Executes a name ∧ (handlingOf [0x61]).Executes a' name ∧
      name ≠ a.name ∧ a.name ≠ a'.name := by
  let _ := Platform.blank
  let _ := DoubleDigits.blank
  obtain ⟨a, ha, hname⟩ : ∃ a : Asked, a.name = [0x61, 0, 0x62] ∧
      (handlingOf [0x61, 0, 0x62]).Executes a [0x61] :=
    (handlingOf [0x61, 0, 0x62]).executes_one (by decide +kernel) (by decide +kernel)
  obtain ⟨a', ha', hname'⟩ : ∃ a : Asked, a.name = [0x61] ∧
      (handlingOf [0x61]).Executes a [0x61] :=
    (handlingOf [0x61]).executes_one (by decide +kernel) (by decide +kernel)
  refine ⟨a, a', [0x61], hname, hname', ?_, ?_⟩
  · rw [ha]
    decide
  · rw [ha, ha']
    decide

end Server

end AnyRpc
