import AnyRpc.Connection.Http

/-! # Handlers that connections share

The connections of a server hold a reference to one list of handlers. A handler that has no content
type for its responses is given the one of a request when it is used, and keeps it. -/

namespace AnyRpc

open Library ServerConnection

namespace HttpConnection

variable {ω : Type}

/-! ## Choosing a handler -/

/-- The handler that a list has for a content type. -/
def handlerFor (contentType : Bytes) (handlers : List (RpcContentHandler ω)) :
    Option (RpcContentHandler ω) :=
  handlers.find? fun h => h.canProcessContentType contentType

/-- The content type of the response to a request with this content type. -/
def responseType (h : RpcContentHandler ω) (contentType : Bytes) : Bytes :=
  if h.responseContentType = [] then contentType else h.responseContentType

/-- The handler that is used has a content type for its responses, or it is not given any. -/
def KeepsHandlers (contentType : Bytes) (handlers : List (RpcContentHandler ω)) : Prop :=
  ∀ h, handlerFor contentType handlers = some h → h.responseContentType = [] → contentType = []

theorem selectHandler_of_none {contentType : Bytes} {handlers : List (RpcContentHandler ω)}
    (h : handlerFor contentType handlers = none) : selectHandler contentType handlers = none := by
  induction handlers with
  | nil => rfl
  | cons h' hs ih =>
    rw [handlerFor, List.find?_cons] at h
    cases hcan : h'.canProcessContentType contentType with
    | true =>
      rw [hcan] at h
      cases h
    | false =>
      rw [hcan] at h
      rw [selectHandler, if_neg (by rw [hcan]; exact Bool.false_ne_true), ih h]
      rfl

/-- The handler that is selected has taken over the content type, and so it is in the list. -/
theorem selectHandler_of_some {contentType : Bytes} {handlers : List (RpcContentHandler ω)}
    {h : RpcContentHandler ω} (hfor : handlerFor contentType handlers = some h) :
    ∃ handlers', selectHandler contentType handlers =
        some ({ h with responseContentType := responseType h contentType }, handlers') ∧
      (handlers' = handlers ↔ (h.responseContentType = [] → contentType = [])) := by
  induction handlers with
  | nil => cases hfor
  | cons h' hs ih =>
    rw [handlerFor, List.find?_cons] at hfor
    cases hcan : h'.canProcessContentType contentType with
    | true =>
      rw [hcan] at hfor
      cases hfor
      rw [selectHandler, if_pos hcan]
      simp only
      by_cases hempty : h.responseContentType = []
      · rw [if_pos hempty]
        refine ⟨_, by rw [responseType, if_pos hempty], ?_⟩
        constructor
        · intro heq _
          have hhead := (List.cons.inj heq).1
          rw [← congrArg RpcContentHandler.responseContentType hhead] at hempty
          exact hempty
        · intro htype
          rw [htype hempty, ← hempty]
      · rw [if_neg hempty]
        refine ⟨_, by rw [responseType, if_neg hempty], fun _ h => absurd h hempty, fun _ => rfl⟩
    | false =>
      rw [hcan] at hfor
      obtain ⟨handlers', hselect, hsame⟩ := ih hfor
      rw [selectHandler, if_neg (by rw [hcan]; exact Bool.false_ne_true), hselect]
      refine ⟨h' :: handlers', rfl, ?_⟩
      rw [← hsame]
      exact ⟨fun heq => (List.cons.inj heq).2, fun heq => by rw [heq]⟩

/-! ## Executing a request -/

variable [IntOverflow]

/-- What `ExecuteRequest` does with the handlers when it answers a POST. -/
theorem executeRequest_handlers {s : ServerConnection (HttpFields ω) ω HttpExecuted}
    (hpost : s.derived.httpRequestState.derived.method = ascii "POST") {rest : Bytes}
    (hbehind : s.message.Behind rest) :
    wp executeRequest (fun answered s' =>
      (s'.derived.handlers = s.derived.handlers ↔
        KeepsHandlers s.derived.httpRequestState.contentType s.derived.handlers) ∧
      (answered = true → ∃ h n,
        handlerFor s.derived.httpRequestState.contentType s.derived.handlers = some h ∧
          s'.header = generatePOSTResponseHeader n
            (responseType h s.derived.httpRequestState.contentType) s.keepAlive s.header))
      (fun _ _ => False) s := by
  rw [executeRequest, wp_bind, wp_get]
  simp only
  rw [if_pos hpost]
  cases hfor : handlerFor s.derived.httpRequestState.contentType s.derived.handlers with
  | none =>
    rw [selectHandler_of_none hfor]
    simp only
    rw [giveUp, wp_bind, initializeData, wp_bind, wp_store (m := s.message.discard.clear) rfl,
      wp_modify, wp_pure]
    refine ⟨⟨fun _ h hh => ?_, fun _ => rfl⟩, fun h => by cases h⟩
    rw [hfor] at hh
    cases hh
  | some h =>
    obtain ⟨handlers', hselect, hsame⟩ := selectHandler_of_some hfor
    rw [hselect]
    simp only
    have hfit : (h.handler (s.message.body s.message.contentLength) s.world).request.length ≤
        s.message.contentLength := by
      rw [Reply.length_request]
      exact MessageBuffer.length_body_le _ _
    obtain ⟨m, hm, -⟩ := hbehind.store hfit
    rw [wp_bind, wp_store hm, wp_bind, wp_modify, wp_bind, wp_modify, executeRequest.finish, wp_bind,
      wp_modify, wp_pure]
    refine ⟨?_, fun _ => ⟨h, _, rfl, rfl⟩⟩
    show handlers' = s.derived.handlers ↔ _
    rw [hsame, KeepsHandlers]
    constructor
    · intro htype h' hh'
      cases hfor.symm.trans hh'
      exact htype
    · intro hall
      exact hall h hfor

/-! ## Runs -/

/-- A connection that refers to a list of handlers. -/
def sharing (handlers : List (RpcContentHandler ω))
    (s : ServerConnection (HttpFields ω) ω HttpExecuted) :
    ServerConnection (HttpFields ω) ω HttpExecuted :=
  { s with derived.handlers := handlers }

/-- The list of handlers after connections have executed their requests, one after the other. -/
def executeAll (handlers : List (RpcContentHandler ω))
    (requests : List (ServerConnection (HttpFields ω) ω HttpExecuted)) :
    List (RpcContentHandler ω) :=
  requests.foldl (fun handlers s =>
    (reached (executeRequest (sharing handlers s))).derived.handlers) handlers

/-- A connection is about to execute a POST. -/
def AtPost (s : ServerConnection (HttpFields ω) ω HttpExecuted) : Prop :=
  s.derived.httpRequestState.derived.method = ascii "POST" ∧ ∃ rest, s.message.Behind rest

theorem executeAll_concat (handlers : List (RpcContentHandler ω))
    (requests : List (ServerConnection (HttpFields ω) ω HttpExecuted))
    (s : ServerConnection (HttpFields ω) ω HttpExecuted) :
    executeAll handlers (requests ++ [s]) =
      (reached (executeRequest (sharing (executeAll handlers requests) s))).derived.handlers := by
  rw [executeAll, List.foldl_append]
  rfl

/-- A request leaves the list as it is unless the handler for it takes over its content type. -/
theorem handlers_executeRequest (handlers : List (RpcContentHandler ω))
    {s : ServerConnection (HttpFields ω) ω HttpExecuted} (hs : AtPost s) :
    (reached (executeRequest (sharing handlers s))).derived.handlers = handlers ↔
      KeepsHandlers s.derived.httpRequestState.contentType handlers := by
  obtain ⟨hpost, rest, hbehind⟩ := hs
  have hrun : wp executeRequest (fun _ s' => s'.derived.handlers = handlers ↔
      KeepsHandlers s.derived.httpRequestState.contentType handlers)
      (fun _ s' => s'.derived.handlers = handlers ↔
        KeepsHandlers s.derived.httpRequestState.contentType handlers) (sharing handlers s) :=
    wp_mono (executeRequest_handlers hpost hbehind) (fun _ _ h => h.1) fun _ _ h => h.elim
  exact hrun.reached

/-- The list stays as it is over a whole run when every request keeps it. -/
theorem executeAll_eq {handlers : List (RpcContentHandler ω)}
    {requests : List (ServerConnection (HttpFields ω) ω HttpExecuted)}
    (hpost : ∀ s ∈ requests, AtPost s)
    (hkeeps : ∀ s ∈ requests, KeepsHandlers s.derived.httpRequestState.contentType handlers) :
    executeAll handlers requests = handlers := by
  induction requests using List.reverseRecOn with
  | nil => rfl
  | append_singleton requests s ih =>
    have hlast : s ∈ requests ++ [s] := by simp
    rw [executeAll_concat, ih (fun t ht => hpost t (List.mem_append_left _ ht))
      fun t ht => hkeeps t (List.mem_append_left _ ht)]
    exact (handlers_executeRequest handlers (hpost s hlast)).mpr (hkeeps s hlast)

/-- What a sequence of requests has in common with one that is executed on its own: the list is as
before after every one of them, and the content type of a response is that of the handler in the
original list, or that of its own request. -/
structure Separate (handlers : List (RpcContentHandler ω))
    (requests : List (ServerConnection (HttpFields ω) ω HttpExecuted)) : Prop where
  handlers_eq (earlier later : List (ServerConnection (HttpFields ω) ω HttpExecuted))
    (h : requests = earlier ++ later) : executeAll handlers earlier = handlers
  header_eq (earlier later : List (ServerConnection (HttpFields ω) ω HttpExecuted))
    (s s' : ServerConnection (HttpFields ω) ω HttpExecuted) (h : requests = earlier ++ s :: later)
    (hanswered : executeRequest (sharing (executeAll handlers earlier) s) = .ok true s') :
    ∃ h n, handlerFor s.derived.httpRequestState.contentType handlers = some h ∧
      s'.header = generatePOSTResponseHeader n
        (responseType h s.derived.httpRequestState.contentType) s.keepAlive s.header

/-- A sequence of POST requests over connections that share a list of handlers has nothing of a
request left for a later one precisely when each of them finds a handler with a content type for its
responses, or has no content type of its own. -/
theorem separate_iff (handlers : List (RpcContentHandler ω))
    (requests : List (ServerConnection (HttpFields ω) ω HttpExecuted))
    (hpost : ∀ s ∈ requests, AtPost s) :
    Separate handlers requests ↔
      ∀ s ∈ requests, KeepsHandlers s.derived.httpRequestState.contentType handlers := by
  constructor
  · intro hseparate s hs
    obtain ⟨earlier, later, rfl⟩ := List.append_of_mem hs
    have hafter : executeAll handlers (earlier ++ [s]) = handlers :=
      hseparate.handlers_eq _ later (by simp)
    rw [executeAll_concat, hseparate.handlers_eq _ (s :: later) rfl] at hafter
    exact (handlers_executeRequest handlers (hpost s hs)).mp hafter
  · intro hkeeps
    have hsame (earlier later : List (ServerConnection (HttpFields ω) ω HttpExecuted))
        (h : requests = earlier ++ later) : executeAll handlers earlier = handlers :=
      executeAll_eq (fun s hs => hpost s (h ▸ List.mem_append_left _ hs))
        fun s hs => hkeeps s (h ▸ List.mem_append_left _ hs)
    refine ⟨hsame, ?_⟩
    intro earlier later s s' h hanswered
    rw [hsame _ _ h] at hanswered
    obtain ⟨hmethod, rest, hbehind⟩ := hpost s (by rw [h]; simp)
    exact ((executeRequest_handlers (s := sharing handlers s) hmethod hbehind).of_ok hanswered).2 rfl

/-- A connection that is about to execute a POST with an empty body. -/
def postOf (contentType : Bytes) : ServerConnection (HttpFields Unit) Unit HttpExecuted where
  connectionState := .executeRequest
  message := {
    buffer := List.replicate (maxBufferLength + 1) 0
    content := .allocated
    block := [0] }
  derived := {
    httpRequestState := {
      contentType
      derived := { method := ascii "POST" } }
    handlers := [] }
  world := ()

/-- A handler for any content type that answers with an empty body. -/
def anyHandler (responseContentType : Bytes) : RpcContentHandler Unit where
  handler request _ := ⟨request, [], true, (), rfl⟩
  canProcessContentType _ := true
  responseContentType

omit [IntOverflow] in
theorem atPost_postOf (contentType : Bytes) : AtPost (postOf contentType) :=
  ⟨rfl, [], List.length_replicate, .inr ⟨rfl, Nat.one_pos, rfl⟩⟩

omit [IntOverflow] in
/-- Requests of two types, for a handler that has a content type. -/
theorem separate_text :
    let _ : IntOverflow := .truncate
    Separate [anyHandler (ascii "text/xml")]
      [postOf (ascii "text/xml"), postOf (ascii "application/xml")] := by
  intro _
  refine (separate_iff _ _ ?_).mpr ?_
  · intro s hs
    simp only [List.mem_cons, List.not_mem_nil, or_false] at hs
    rcases hs with rfl | rfl
    · exact atPost_postOf _
    · exact atPost_postOf _
  · intro s hs h hfor hempty
    cases hfor
    exact absurd hempty (by decide)

omit [IntOverflow] in
/-- A handler without a content type has the content type of the first request when the second one
arrives. -/
theorem not_separate_empty :
    let _ : IntOverflow := .truncate
    let requests := [postOf (ascii "text/xml"), postOf (ascii "application/json")]
    ¬ Separate [anyHandler []] requests ∧
      (executeAll [anyHandler []] (requests.take 1)).map RpcContentHandler.responseContentType =
        [ascii "text/xml"] := by
  intro _ requests
  refine ⟨fun hseparate => ?_, rfl⟩
  have hafter := hseparate.handlers_eq [postOf (ascii "text/xml")] [_] rfl
  have htype : (executeAll [anyHandler []] [postOf (ascii "text/xml")]).map
      RpcContentHandler.responseContentType = [ascii "text/xml"] := rfl
  rw [hafter] at htype
  exact absurd htype (by decide)

end HttpConnection

end AnyRpc
