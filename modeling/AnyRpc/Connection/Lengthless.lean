import AnyRpc.Connection.Http
import AnyRpc.Internal.ContentLength

/-! # Requests without a length

A header without a `Content-Length` field may be complete. `GetContentLength` is then negative, and
`ReadHeader` takes it for a number of bytes. -/

namespace AnyRpc

open Library ServerConnection

namespace HttpConnection

variable [IntOverflow] {ω : Type}

/-- A connection waits for a header, the beginning of which is in the buffer and may have been
processed. -/
structure AwaitsHeader (s : ServerConnection (HttpFields ω) ω HttpExecuted) : Prop where
  connectionState : s.connectionState = .readHeader
  length_buffer : s.message.buffer.length = maxBufferLength + 1
  content : s.message.content = .null
  bufferLength : s.message.bufferLength = s.message.data.length
  le : s.message.data.length ≤ maxBufferLength
  seen : ∃ fresh, Seen fresh s.derived s.message.data

/-- A complete header without the field has the length that stands for none. -/
theorem contentLength_requestOf {buffer : Bytes}
    (hcomplete : (requestOf buffer).headerResult = .complete)
    (hnone : HttpHeader.contentLengths buffer = []) : (requestOf buffer).contentLength = -1 := by
  have hread := HttpHeader.lengthRead_processHeaderData HttpHeader.readsLength_request buffer false
    (by rw [requestOf] at hcomplete; rw [hcomplete]; exact HeaderResult.noConfusion)
  rw [hnone] at hread
  rcases hread with ⟨-, hlength⟩ | ⟨_, hseen, -⟩
  · exact hlength
  · cases hseen

omit [IntOverflow] in
/-- As a number of bytes, this length is more than a connection takes. -/
theorem maxContentLength_lt_toSize : maxContentLength < toSize (-1) := by decide

/-- `ReadHeader` gives up at a complete header without a length. -/
theorem readHeader_lengthless {s : ServerConnection (HttpFields ω) ω HttpExecuted}
    (hs : AwaitsHeader s) {r : Received} {incoming : Incoming}
    (hreceive : s.incoming.receive (maxBufferLength - s.message.data.length) 0 = some (r, incoming))
    (hcomplete : (requestOf (s.message.data ++ r.data)).headerResult = .complete)
    (hnone : HttpHeader.contentLengths (s.message.data ++ r.data) = []) :
    wp readHeader (fun success s' => success = false ∧ s'.socket = s.socket ∧
      s'.executed = s.executed) (fun _ _ => False) s := by
  obtain ⟨fresh, hseen⟩ := hs.seen
  have hspec := readHeader_spec s fresh s.message.data hs.connectionState hs.length_buffer hs.content
    rfl hs.bufferLength hs.le hseen
  have hlength := contentLength_requestOf hcomplete hnone
  have hhead : service.head fresh (s.message.data ++ r.data) =
      .complete (requestOf (s.message.data ++ r.data)).startIndex (toSize (-1))
        (requestOf (s.message.data ++ r.data)).keepAlive
        { fresh with httpRequestState := requestOf (s.message.data ++ r.data) } := by
    show head fresh _ = _
    rw [head, hcomplete, hlength]
  refine wp_mono hspec ?_ ?_
  · rintro success s' ⟨r', incoming', hreceive', hdone⟩
    cases hreceive.symm.trans hreceive'
    cases hdone with
    | ended _ h => exact ⟨rfl, h.socket, h.executed⟩
    | fault _ h _ => exact ⟨rfl, h.socket, h.executed⟩
    | waiting _ _ _ hhead' => cases hhead.symm.trans hhead'
    | found _ _ _ hhead' hn =>
      have hn' := (Head.complete.inj (hhead.symm.trans hhead')).2.1
      exact absurd (hn' ▸ hn) (not_le.mpr maxContentLength_lt_toSize)
  · rintro stop s' ⟨-, hpending, -⟩
    cases hreceive.symm.trans hpending

/-- When `ReadHeader` gives up, `Process` closes the connection. -/
theorem process_of_readHeader {s : ServerConnection (HttpFields ω) ω HttpExecuted}
    (hstate : s.connectionState = .readHeader)
    {P : ServerConnection (HttpFields ω) ω HttpExecuted → Prop}
    (hread : wp readHeader (fun success s' => success = false ∧
      P { s' with connectionState := .closeConnection }) (fun _ _ => False) s)
    (executeAfterRead : Bool) :
    wp (process executeAfterRead)
      (fun _ s' => s'.connectionState = .closeConnection ∧ P s') (fun _ _ => False) s := by
  rw [process, ServerConnection.process, wp_bind, wp_get, processLoop, wp_bind]
  unfold processState
  rw [wp_bind, processState.inState, wp_bind, wp_get, hstate, processState.guarded,
    if_pos (by decide)]
  refine wp_mono hread ?_ fun _ _ h => h
  rintro success s' ⟨rfl, hP⟩
  exact ⟨rfl, hP⟩

/-- A complete header without a `Content-Length` field makes the connection close, whatever the method
of the request: `ReadHeader` fails, and nothing is executed or sent. -/
theorem process_lengthless {s : ServerConnection (HttpFields ω) ω HttpExecuted}
    (hs : AwaitsHeader s) {r : Received} {incoming : Incoming}
    (hreceive : s.incoming.receive (maxBufferLength - s.message.data.length) 0 = some (r, incoming))
    (hcomplete : (requestOf (s.message.data ++ r.data)).headerResult = .complete)
    (hnone : HttpHeader.contentLengths (s.message.data ++ r.data) = []) (executeAfterRead : Bool) :
    wp readHeader (fun success _ => success = false) (fun _ _ => False) s ∧
      wp (process executeAfterRead) (fun _ s' => s'.connectionState = .closeConnection ∧
        s'.socket = s.socket ∧ s'.executed = s.executed) (fun _ _ => False) s := by
  have hread := readHeader_lengthless hs hreceive hcomplete hnone
  exact ⟨wp_mono hread (fun _ _ h => h.1) fun _ _ h => h,
    process_of_readHeader hs.connectionState hread executeAfterRead⟩

/-- A connection that was just accepted, at which the header of a preflight arrives. -/
def preflight : ServerConnection (HttpFields Unit) Unit HttpExecuted :=
  .accepted (List.replicate (maxBufferLength + 1) 0) (fun _ => 0) {}
    ⟨ascii "OPTIONS / HTTP/1.1\r\nHost: a\r\n\r\n", [⟨.arrived 100, 0, true⟩]⟩
    { httpRequestState := { derived := {} }, handlers := [] } ()

omit [IntOverflow] in
theorem data_preflight : preflight.message.data = [] := rfl

omit [IntOverflow] in
/-- The whole header of the preflight is received. -/
theorem receive_preflight :
    preflight.incoming.receive (maxBufferLength - preflight.message.data.length) 0 =
      some (⟨true, preflight.incoming.unread, false, false⟩, ⟨[], []⟩) := by
  rw [data_preflight]
  rfl

omit [IntOverflow] in
/-- It is complete, and has no `Content-Length` field. -/
theorem requestOf_preflight :
    let _ : IntOverflow := .truncate
    let buffer := preflight.message.data ++ preflight.incoming.unread
    (requestOf buffer).headerResult = .complete ∧ HttpHeader.contentLengths buffer = [] := by
  intro _ buffer
  have hbuffer : buffer = ascii "OPTIONS / HTTP/1.1\r\nHost: a\r\n\r\n" := rfl
  rw [hbuffer]
  decide +kernel

theorem awaitsHeader_preflight : AwaitsHeader preflight :=
  ⟨rfl, List.length_replicate, rfl, rfl, Nat.zero_le _, preflight.derived, [], [], rfl, rfl⟩

omit [IntOverflow] in
theorem sent_preflight : preflight.socket.sent = [] := rfl

-- The runs below follow from what is said of the connection; its buffer is not to be unfolded.
attribute [local irreducible] preflight

omit [IntOverflow] in
theorem readHeader_preflight :
    let _ : IntOverflow := .truncate
    wp readHeader (fun success s' => success = false ∧ s'.socket = preflight.socket ∧
      s'.executed = preflight.executed) (fun _ _ => False) preflight :=
  let _ : IntOverflow := .truncate
  readHeader_lengthless awaitsHeader_preflight receive_preflight requestOf_preflight.1
    requestOf_preflight.2

omit [IntOverflow] in
/-- The preflight is not answered. -/
theorem process_lengthless_preflight :
    let _ : IntOverflow := .truncate
    wp readHeader (fun success _ => success = false) (fun _ _ => False) preflight ∧
      wp (process true) (fun _ s' => s'.connectionState = .closeConnection ∧
        s'.socket = preflight.socket ∧ s'.executed = preflight.executed) (fun _ _ => False)
        preflight :=
  let _ : IntOverflow := .truncate
  process_lengthless awaitsHeader_preflight receive_preflight requestOf_preflight.1
    requestOf_preflight.2 true

omit [IntOverflow] in
/-- `ReadHeader` does not accept the preflight as a request with an empty body, and `Process` sends
nothing. -/
theorem preflight_closed :
    let _ : IntOverflow := .truncate
    ¬ wp readHeader (fun success s' => success = true ∧ s'.connectionState = .readRequest ∧
        s'.message.contentLength = 0) (fun _ _ => False) preflight ∧
      wp (process true) (fun _ s' => s'.connectionState = .closeConnection ∧
        s'.socket.sent = []) (fun _ _ => False) preflight := by
  intro _
  constructor
  · intro hclaim
    obtain ⟨success, s', hfalse, htrue⟩ := wp_returns readHeader_preflight hclaim
    exact Bool.false_ne_true (hfalse.1.symm.trans htrue.1)
  · have hsent : wp readHeader (fun success s' => success = false ∧ s'.socket.sent = [])
        (fun _ _ => False) preflight :=
      wp_mono readHeader_preflight (fun _ s' h => ⟨h.1, h.2.1 ▸ sent_preflight⟩) fun _ _ h => h
    exact process_of_readHeader (P := fun s' => s'.socket.sent = [])
      awaitsHeader_preflight.connectionState hsent true

end HttpConnection

end AnyRpc
