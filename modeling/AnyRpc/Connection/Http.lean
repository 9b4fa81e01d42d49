import AnyRpc.Connection.Outcome

/-! # Requests over HTTP

The header of a request is processed line by line as it arrives, which makes no difference to what is
found in it. So an `HttpConnection` follows a framing of its stream: what it executes and sends, and
whether it closes, depends on the stream and not on the way it is cut when it arrives. -/

namespace AnyRpc

open Library ServerConnection

namespace HttpConnection

variable [IntOverflow] {ω : Type}

/-! ## The service -/

/-- The header of a request, processed from the start. -/
def requestOf (buffer : Bytes) : HttpRequest := HttpHeader.initial.processHeaderData buffer false

/-- What `ReadHeader` finds in a buffer. -/
def head (derived : HttpFields ω) (buffer : Bytes) : Head (HttpFields ω) :=
  match (requestOf buffer).headerResult with
  | .fault => .fault
  | .incomplete => .incomplete
  | .complete =>
    .complete (requestOf buffer).startIndex (toSize (requestOf buffer).contentLength)
      (requestOf buffer).keepAlive { derived with httpRequestState := requestOf buffer }

/-- What is recorded of a request that is executed. -/
def record (derived : HttpFields ω) (request : Bytes) : HttpExecuted where
  method := derived.httpRequestState.derived.method
  contentType := derived.httpRequestState.contentType
  body := request

/-- Header and body of the response to a POST. -/
def postOutput (h : RpcContentHandler ω) (keepAlive : Bool) (request : Bytes) (world : ω) :
    WriteSegmentedStream × WriteSegmentedStream :=
  let response := WriteSegmentedStream.newDefault.put (h.handler request world).response
  (generatePOSTResponseHeader response.length h.responseContentType keepAlive .newDefault, response)

/-- What `ExecuteRequest` does with a request. -/
def execution (derived : HttpFields ω) (keepAlive : Bool) (request : Bytes) (world : ω) :
    Option (Execution (HttpFields ω) ω HttpExecuted) :=
  if derived.httpRequestState.derived.method = ascii "POST" then
    (selectHandler derived.httpRequestState.contentType derived.handlers).map fun (h, handlers) =>
      { record := record derived request
        output := some (postOutput h keepAlive request world)
        derived := { derived with handlers }
        world := (h.handler request world).world }
  else if derived.httpRequestState.derived.method = ascii "OPTIONS" then
    some {
      record := record derived request
      output := some (generateOPTIONSResponseHeader .newDefault, .newDefault)
      derived
      world }
  else
    some {
      record := record derived request
      output := some (generateErrorResponseHeader 501 (ascii "Not Implemented") .newDefault,
        .newDefault)
      derived
      world }

/-- The members of a connection that was waiting for a header, when a part of it has arrived. -/
def Seen (fresh derived : HttpFields ω) (q : Bytes) : Prop :=
  ∃ a l, q = a ++ l ∧
    derived = { fresh with httpRequestState := requestOf a }

/-- The header may be processed in two parts. -/
theorem requestOf_append (a l : Bytes) :
    (requestOf a).processHeaderData (a ++ l) false = requestOf (a ++ l) :=
  HttpHeader.processHeaderData_append (Nat.zero_le _) l

theorem startIndex_requestOf_le (buffer : Bytes) :
    (requestOf buffer).startIndex ≤ buffer.length :=
  HttpHeader.startIndex_processLines _ (Nat.zero_le _)

theorem head_append {d : HttpFields ω} {q : Bytes} (l : Bytes) (h : head d q ≠ .incomplete) :
    head d (q ++ l) = head d q := by
  have hresult : (requestOf q).headerResult ≠ .incomplete := by
    intro hincomplete
    unfold head at h
    rw [hincomplete] at h
    exact h rfl
  have hle := startIndex_requestOf_le q
  have hsame : requestOf (q ++ l) = requestOf q := by
    rw [← requestOf_append, HttpHeader.processHeaderData_of_ne ?_ hresult]
    rw [List.length_append]
    omega
  unfold head
  rw [hsame]

/-- An `HttpConnection` as a service. -/
def service : Service (HttpFields ω) ω HttpExecuted where
  head := head
  execute := execution
  Seen := Seen
  head_nil _ := rfl
  bodyStart_le {d d' q b n k} h := by
    unfold head at h
    cases hresult : (requestOf q).headerResult with
    | fault =>
      rw [hresult] at h
      cases h
    | incomplete =>
      rw [hresult] at h
      cases h
    | complete =>
      rw [hresult] at h
      cases h
      exact ⟨HttpHeader.startIndex_pos _ (fun h => by cases h) hresult,
        HttpHeader.startIndex_le hresult⟩
  head_append := head_append
  seen_initializeData _ q := ⟨[], q, rfl, rfl⟩
  output_clear {d k request w x header response} h houtput := by
    unfold execution at h
    by_cases hpost : d.httpRequestState.derived.method = ascii "POST"
    · rw [if_pos hpost] at h
      obtain ⟨⟨selected, handlers⟩, -, rfl⟩ := Option.map_eq_some_iff.mp h
      cases houtput
      exact ⟨WriteSegmentedStream.clear_foldl_put _ _, WriteSegmentedStream.clear_put _ _⟩
    · rw [if_neg hpost] at h
      by_cases hoptions : d.httpRequestState.derived.method = ascii "OPTIONS"
      · rw [if_pos hoptions] at h
        cases h
        cases houtput
        exact ⟨WriteSegmentedStream.clear_foldl_put _ _, rfl⟩
      · rw [if_neg hoptions] at h
        cases h
        cases houtput
        exact ⟨WriteSegmentedStream.clear_foldl_put _ _, rfl⟩

/-- The requests that a stream from a client starts with, as far as they are complete. -/
def requests (handlers : List (RpcContentHandler ω)) (world : ω) (stream : Bytes) :
    List HttpExecuted :=
  (service.framing.events (⟨.initial, handlers⟩, world) stream).map Prod.fst

/-! ## The functions of an HTTP connection -/

/-- `ReadHeader` finds what the service says. -/
theorem readHeader_spec : HeaderSpec (service (ω := ω)) readHeader := by
  intro s fresh q hstate hlength hcontent hdata hbuffer hle hseen
  obtain ⟨a, l, rfl, hderived⟩ := hseen
  rw [readHeader, wp_bind, wp_get]
  simp only
  rw [hbuffer, wp_bind]
  refine wp_receive (fun hreceive => ⟨rfl, hreceive, rfl⟩) fun r incoming hreceive houtcome => ?_
  have hroom := houtcome.length_le
  have hfit : (a ++ l ++ r.data).length ≤ maxBufferLength := by
    rw [List.length_append]
    omega
  obtain ⟨m, hm, hlength', hcontent', hdata'⟩ := MessageBuffer.storeBuffer_received hlength hcontent
    hdata hbuffer (d := r.data) (by omega)
  refine ⟨m, hm, wp_mono (Q := HeaderDone service s fresh (a ++ l) r incoming) ?_
    (fun success s' h => ⟨r, incoming, hreceive, h⟩) fun _ _ h => h⟩
  cases hr : r.success with
  | false =>
    simp only [Bool.not_false, if_true]
    refine wp_giveUp_ended hr ?_
    exact ⟨rfl, by simp, rfl, rfl⟩
  | true =>
    have heof : r.eof = false := (houtcome.success_iff.mp hr).1
    simp only [Bool.not_true, Bool.false_eq_true, if_false, if_true]
    rw [wp_bind, wp_modify, wp_bind, wp_get]
    -- The header is processed from where it was left.
    have hrequest : s.derived.httpRequestState.processHeaderData (a ++ l ++ r.data) r.eof =
        requestOf (a ++ l ++ r.data) := by
      rw [heof, hderived, List.append_assoc]
      exact requestOf_append a (l ++ r.data)
    simp only [MessageBuffer.data, hdata', hrequest]
    rw [wp_bind, wp_modify]
    have hstart := startIndex_requestOf_le (a ++ l ++ r.data)
    have hhead : service.head fresh (a ++ l ++ r.data) = head fresh (a ++ l ++ r.data) := rfl
    unfold head at hhead
    cases hresult : (requestOf (a ++ l ++ r.data)).headerResult with
    | fault =>
      simp only [hresult] at hhead ⊢
      refine wp_giveUp_fault hr ?_ (.inl hhead)
      exact ⟨rfl, rfl, rfl, rfl⟩
    | incomplete =>
      simp only [hresult] at hhead ⊢
      rw [wp_pure]
      refine .waiting hr ⟨rfl, rfl, rfl, rfl⟩ ⟨rfl, rfl, rfl, rfl, rfl⟩ hhead hstate hlength' hcontent'
        hdata' List.length_append.symm ⟨_, [], (List.append_nil _).symm, ?_⟩
      rw [hderived]
    | complete =>
      simp only [hresult] at hhead ⊢
      rw [wp_bind, wp_modify, wp_ite]
      refine ⟨fun hmax => wp_giveUp_fault hr ?_ (.inr ⟨_, _, _, _, hhead, hmax⟩), fun hmax => ?_⟩
      · exact ⟨rfl, rfl, rfl, rfl⟩
      obtain ⟨m', hm', hholds⟩ := MessageBuffer.holds_place
        (m := { m with
          bufferLength := (a ++ l).length + r.data.length
          contentLength := toSize (requestOf (a ++ l ++ r.data)).contentLength
          contentAvail := (a ++ l).length + r.data.length -
            (requestOf (a ++ l ++ r.data)).startIndex })
        hlength' (by rw [← List.length_append]; exact hfit) hdata' List.length_append hstart
        (congrArg (· - _) List.length_append.symm) fun _ => 0
      rw [wp_bind, wp_store hm', wp_bind, wp_modify, wp_pure]
      refine .found hr ⟨rfl, rfl, rfl, rfl⟩ ⟨rfl, rfl, rfl, rfl, rfl⟩ ?_ (Nat.le_of_not_lt hmax) rfl
        hholds
      rw [hhead, hderived]

/-- `ExecuteRequest` does what the service says. -/
theorem executeRequest_spec : ExecuteSpec (service (ω := ω)) executeRequest := by
  intro s rest hstate hbehind hidle
  -- A response with a header follows.
  have hrespond {s' : ServerConnection (HttpFields ω) ω HttpExecuted}
      {x : Execution (HttpFields ω) ω HttpExecuted}
      (hexecute : execution s.derived s.keepAlive (s.message.body s.message.contentLength) s.world =
        some x)
      (hs' : s'.incoming = s.incoming ∧ s'.received = s.received ∧ s'.socket = s.socket ∧
        s'.executed = s.executed)
      (hbehind' : s'.message.Behind rest) (houtput : x.output = some (s'.header, s'.response))
      (hworld : s'.world = x.world) (hwritten : s'.headerBytesWritten = s.headerBytesWritten ∧
        s'.resultBytesWritten = s.resultBytesWritten)
      (hderived : s'.derived = x.derived) (hkeep : s'.keepAlive = s.keepAlive) :
      wp (executeRequest.finish x.record)
        (ExecuteDone service s (s.message.body s.message.contentLength) rest) (fun _ _ => False)
        s' := by
    rw [executeRequest.finish, wp_bind, wp_modify, wp_pure]
    refine .response hexecute houtput ?_ ⟨hs'.1, ?_, hs'.2.2.1, rfl⟩ hworld rfl hbehind' hwritten.1
      hwritten.2 hderived hkeep
    · show s'.executed ++ _ = _
      rw [hs'.2.2.2]
    · rw [List.append_nil]
      exact hs'.2.1
  have hexecution : execution s.derived s.keepAlive (s.message.body s.message.contentLength)
      s.world = _ := rfl
  conv_rhs at hexecution => rw [execution]
  rw [executeRequest, wp_bind, wp_get]
  simp only
  rw [wp_ite]
  constructor
  · intro hpost
    rw [if_pos hpost] at hexecution
    cases hselect : selectHandler s.derived.httpRequestState.contentType s.derived.handlers with
    | none =>
      rw [hselect] at hexecution
      simp only
      refine wp_mono (wp_giveUp_moved s) ?_ fun _ _ h => h
      rintro success s' ⟨rfl, hmoved⟩
      exact .rejected hmoved hexecution
    | some selected =>
      obtain ⟨h, handlers⟩ := selected
      rw [hselect] at hexecution
      simp only
      have hfit : (h.handler (s.message.body s.message.contentLength) s.world).request.length ≤
          s.message.contentLength := by
        rw [Reply.length_request]
        exact MessageBuffer.length_body_le _ _
      obtain ⟨m, hm, hbehind'⟩ := hbehind.store hfit
      rw [wp_bind, wp_store hm, wp_bind, wp_modify, wp_bind, wp_modify]
      refine hrespond hexecution ⟨rfl, rfl, rfl, rfl⟩ hbehind' ?_ rfl ⟨rfl, rfl⟩ rfl rfl
      simp only [hidle.header, hidle.response]
      rfl
  · intro hpost
    rw [if_neg hpost] at hexecution
    rw [wp_ite]
    constructor
    · intro hoptions
      rw [if_pos hoptions] at hexecution
      rw [wp_bind, wp_modify]
      refine hrespond hexecution ⟨rfl, rfl, rfl, rfl⟩ hbehind ?_ rfl ⟨rfl, rfl⟩ rfl rfl
      simp only [hidle.header, hidle.response]
    · intro hother
      rw [if_neg hother] at hexecution
      rw [wp_bind, wp_modify]
      refine hrespond hexecution ⟨rfl, rfl, rfl, rfl⟩ hbehind ?_ rfl ⟨rfl, rfl⟩ rfl rfl
      simp only [hidle.header, hidle.response]

end HttpConnection

end AnyRpc
