import AnyRpc.Client.Header
import AnyRpc.Connection.Progress

/-! # Requests over TCP

A `TcpConnection` follows the framing of netstrings, so it executes the payloads that a client frames,
in their order and each once, however the frames are cut when they arrive. -/

namespace AnyRpc

open Library ServerConnection

namespace TcpConnection

variable [IntOverflow] {ω : Type}

/-! ## The service -/

/-- What `ReadHeader` finds in a buffer. -/
def head (derived : TcpFields) (header : Bytes) : Head TcpFields :=
  match findChar header 0x3a with
  | none => .incomplete
  | some n =>
    if derived.commaExpected && header.head? != some 0x2c then .fault
    else
      let contentLength := atoi (if derived.commaExpected then header.drop 1 else header)
      if contentLength ≤ 0 then .fault
      else .complete (n + 1) (toSize contentLength) true { commaExpected := true }

/-- Header and body of a response. -/
def output (response : Bytes) : WriteSegmentedStream × WriteSegmentedStream :=
  let body := WriteSegmentedStream.newDefault.put response
  ((WriteSegmentedStream.newDefault.put (decimal body.length)).put [0x3a], body.putChar 0x2c)

/-- What `ExecuteRequest` does with a request. -/
def execution (handler : RpcHandler ω) (derived : TcpFields) (request : Bytes) (world : ω) :
    Execution TcpFields ω Bytes :=
  let reply := handler request world
  { record := request
    output := if reply.sendResponse then some (output reply.response) else none
    derived := derived
    world := reply.world }

theorem head_append {d : TcpFields} {q : Bytes} (l : Bytes) (h : head d q ≠ .incomplete) :
    head d (q ++ l) = head d q := by
  unfold head at h ⊢
  cases hfind : findChar q 0x3a with
  | none =>
    rw [hfind] at h
    exact absurd rfl h
  | some n =>
    obtain ⟨hlt, hmem⟩ := findChar_eq_some hfind
    obtain ⟨c, t, rfl⟩ := List.exists_cons_of_ne_nil (List.ne_nil_of_mem hmem)
    rw [findChar_append hfind]
    simp only [List.cons_append, List.head?_cons, List.drop_succ_cons, List.drop_zero]
    by_cases hcomma : (d.commaExpected && some c != some 0x2c) = true
    · rw [if_pos hcomma, if_pos hcomma]
    · rw [if_neg hcomma, if_neg hcomma]
      -- The number ends at the colon, which is behind the comma.
      have hnumber : atoi (if d.commaExpected = true then t ++ l else c :: (t ++ l)) =
          atoi (if d.commaExpected = true then t else c :: t) := by
        cases hexpected : d.commaExpected with
        | false => exact atoi_append hmem l
        | true =>
          have hc : c = 0x2c := by simpa [hexpected] using hcomma
          have ht : (0x3a : UInt8) ∈ t :=
            (List.mem_cons.mp hmem).resolve_left (by rw [hc]; decide)
          exact atoi_append ht l
      rw [hnumber]

/-- A `TcpConnection` as a service. -/
def service (handler : RpcHandler ω) : Service TcpFields ω Bytes where
  head := head
  execute derived _ request world := some (execution handler derived request world)
  Seen fresh derived _ := derived = fresh
  head_nil _ := rfl
  bodyStart_le {d d' q b n k} h := by
    unfold head at h
    cases hfind : findChar q 0x3a with
    | none =>
      rw [hfind] at h
      cases h
    | some i =>
      have hlt := (findChar_eq_some hfind).1
      rw [hfind] at h
      simp only at h
      by_cases hcomma : (d.commaExpected && q.head? != some 0x2c) = true
      · rw [if_pos hcomma] at h
        cases h
      · rw [if_neg hcomma] at h
        by_cases hnumber : atoi (if d.commaExpected then q.drop 1 else q) ≤ 0
        · rw [if_pos hnumber] at h
          cases h
        · rw [if_neg hnumber] at h
          cases h
          omega
  head_append := head_append
  seen_initializeData _ _ := rfl
  output_clear {d k request w x header response} h houtput := by
    cases h
    simp only [execution] at houtput
    split at houtput
    · cases houtput
      rw [WriteSegmentedStream.clear_put, WriteSegmentedStream.clear_put,
        WriteSegmentedStream.clear_putChar, WriteSegmentedStream.clear_put]
      exact ⟨rfl, rfl⟩
    · cases houtput

/-- The requests that a stream from a client starts with, as far as they are complete. -/
def requests (handler : RpcHandler ω) (world : ω) (stream : Bytes) : List Bytes :=
  ((service handler).framing.events ({}, world) stream).map Prod.fst

/-! ## The functions of a TCP connection -/

/-- `ReadHeader` finds what the service says. -/
theorem readHeader_spec (handler : RpcHandler ω) : HeaderSpec (service handler) readHeader := by
  intro s fresh q hstate hlength hcontent hdata hbuffer hle hseen
  have hseen' : s.derived = fresh := hseen
  rw [readHeader, wp_bind, wp_get]
  simp only
  rw [hbuffer, wp_bind]
  refine wp_receive (fun hreceive => ⟨rfl, hreceive, rfl⟩) fun r incoming hreceive houtcome => ?_
  have hroom := houtcome.length_le
  have hfit : (q ++ r.data).length ≤ maxBufferLength := by
    rw [List.length_append]
    omega
  obtain ⟨m, hm, hlength', hcontent', hdata'⟩ := MessageBuffer.storeBuffer_received hlength hcontent
    hdata hbuffer (d := r.data) (by omega)
  refine ⟨m, hm, wp_mono (Q := HeaderDone (service handler) s fresh q r incoming) ?_
    (fun success s' h => ⟨r, incoming, hreceive, h⟩) fun _ _ h => h⟩
  cases hr : r.success with
  | false =>
    simp only [Bool.not_false, if_true]
    refine wp_giveUp_ended hr ?_
    exact ⟨rfl, by simp, rfl, rfl⟩
  | true =>
    have heof : r.eof = false := (houtcome.success_iff.mp hr).1
    simp only [Bool.not_true, Bool.false_eq_true, if_false, if_true]
    rw [wp_bind, wp_modify, wp_bind, wp_get]
    simp only [MessageBuffer.data, hdata', hseen']
    cases hfind : findChar (q ++ r.data) 0x3a with
    | none =>
      simp only [heof, Bool.false_eq_true, if_false]
      rw [wp_pure]
      refine .waiting hr ⟨rfl, rfl, rfl, rfl⟩ ⟨rfl, rfl, rfl, rfl, rfl⟩ ?_ hstate hlength' hcontent'
        hdata' (by rw [List.length_append]) rfl
      show head fresh _ = _
      rw [head, hfind]
    | some n =>
      have hlt := (findChar_eq_some hfind).1
      have hhead : head fresh (q ++ r.data) =
          if fresh.commaExpected && (q ++ r.data).head? != some 0x2c then .fault
          else if atoi (if fresh.commaExpected then (q ++ r.data).drop 1 else q ++ r.data) ≤ 0 then
            .fault
          else .complete (n + 1)
            (toSize (atoi (if fresh.commaExpected then (q ++ r.data).drop 1 else q ++ r.data))) true
            { commaExpected := true } := by
        rw [head, hfind]
      simp only
      by_cases hcomma : (fresh.commaExpected && (q ++ r.data).head? != some 0x2c) = true
      · rw [if_pos hcomma] at hhead ⊢
        refine wp_giveUp_fault hr ?_ (.inl hhead)
        exact ⟨rfl, rfl, rfl, rfl⟩
      · rw [if_neg hcomma] at hhead ⊢
        by_cases hnumber :
            atoi (if fresh.commaExpected then (q ++ r.data).drop 1 else q ++ r.data) ≤ 0
        · rw [if_pos hnumber] at hhead ⊢
          refine wp_giveUp_fault hr ?_ (.inl hhead)
          exact ⟨rfl, rfl, rfl, rfl⟩
        · rw [if_neg hnumber] at hhead ⊢
          generalize toSize (atoi
            (if fresh.commaExpected then (q ++ r.data).drop 1 else q ++ r.data)) = length at hhead ⊢
          rw [wp_bind, wp_modify, wp_ite]
          refine ⟨fun hmax => wp_giveUp_fault hr ?_ (.inr ⟨_, _, _, _, hhead, hmax⟩), fun hmax => ?_⟩
          · exact ⟨rfl, rfl, rfl, rfl⟩
          obtain ⟨m', hm', hholds⟩ := MessageBuffer.holds_place
            (m := { m with
              bufferLength := q.length + r.data.length
              contentLength := length
              contentAvail := (q ++ r.data).length - (n + 1) })
            hlength' (by rw [← List.length_append]; exact hfit) hdata' List.length_append hlt rfl
            m.heap
          obtain ⟨m'', hm'', hholds'⟩ := hholds.terminate
          rw [wp_bind, wp_store hm', wp_bind, wp_store (by rw [← hholds.contentAvail]; exact hm''),
            wp_bind, wp_modify, wp_pure]
          exact .found hr ⟨rfl, rfl, rfl, rfl⟩ ⟨rfl, rfl, rfl, rfl, rfl⟩ hhead (by omega) rfl hholds'

/-- `ExecuteRequest` does what the service says. -/
theorem executeRequest_spec (handler : RpcHandler ω) :
    ExecuteSpec (service handler) (executeRequest handler) := by
  intro s rest hstate hbehind hidle
  have hfit : (handler (s.message.body s.message.contentLength) s.world).request.length ≤
      s.message.contentLength := by
    rw [Reply.length_request]
    exact MessageBuffer.length_body_le _ _
  obtain ⟨m, hm, hbehind'⟩ := hbehind.store hfit
  have hexecute : (service handler).execute s.derived s.keepAlive
      (s.message.body s.message.contentLength) s.world =
        some (execution handler s.derived (s.message.body s.message.contentLength) s.world) := rfl
  rw [executeRequest, wp_bind, wp_get, wp_bind, wp_store hm, wp_bind, wp_modify, wp_ite]
  constructor
  · intro hsend
    rw [wp_bind, wp_modify, wp_pure]
    refine .response hexecute ?_ rfl ⟨rfl, by simp, rfl, rfl⟩ rfl rfl hbehind' rfl rfl rfl rfl
    simp only [execution, hsend, if_true, output, hidle.header, hidle.response]
  · intro hsilent
    obtain ⟨m', hm', hdata, hbuffer, hlength⟩ := hbehind'.preserve
    rw [wp_bind, wp_modify, wp_bind, initializeData, wp_bind, wp_store (m := m'.clear) (by simp [hm']),
      wp_modify, wp_pure]
    refine .silent hexecute ?_ rfl ⟨rfl, by simp, rfl, rfl⟩ rfl ⟨?_, ?_, rfl, rfl⟩ rfl hlength rfl
      hdata hbuffer rfl
    · simp only [execution, hsilent, if_false, Bool.false_eq_true]
    · show s.header.clear = _
      rw [hidle.header, WriteSegmentedStream.clear_newDefault]
    · show (s.response.put _).clear = _
      rw [WriteSegmentedStream.clear_put, hidle.response, WriteSegmentedStream.clear_newDefault]

/-! ## The frames of a client -/

/-- A number and a colon are the header of a message, behind the comma that ends the one before. -/
theorem head_number (d : TcpFields) (n : ℕ) :
    head d ((if d.commaExpected then [0x2c] else []) ++ decimal n ++ [0x3a]) =
      if atoi (decimal n ++ [0x3a]) ≤ 0 then .fault
      else .complete ((if d.commaExpected then [0x2c] else []) ++ decimal n ++ [0x3a]).length
        (toSize (atoi (decimal n ++ [0x3a]))) true { commaExpected := true } := by
  have hcolon : (0x3a : UInt8) ∉ (if d.commaExpected then [0x2c] else []) ++ decimal n := by
    rw [List.mem_append, not_or]
    refine ⟨?_, notMem_decimal (by decide) n⟩
    cases d.commaExpected <;> decide
  rw [head, findChar_append_cons hcolon]
  simp only [List.length_append, List.length_singleton]
  cases d.commaExpected with
  | false => simp only [Bool.false_and, Bool.false_eq_true, if_false, List.nil_append]
  | true =>
    have hcomma : ([0x2c] ++ decimal n ++ [0x3a]).drop 1 = decimal n ++ [0x3a] := rfl
    have hhead : ([0x2c] ++ decimal n ++ [0x3a]).head? = some 0x2c := rfl
    simp only [Bool.true_and, if_true]
    rw [hcomma, hhead, if_neg (by decide)]

/-- The number is the length of the message, if it is one for an `int`. -/
theorem head_frame (d : TcpFields) {n : ℕ} (hpos : 0 < n) (hle : n < 2 ^ 31) :
    head d ((if d.commaExpected then [0x2c] else []) ++ decimal n ++ [0x3a]) =
      .complete ((if d.commaExpected then [0x2c] else []) ++ decimal n ++ [0x3a]).length n true
        { commaExpected := true } := by
  have hnumber : atoi (decimal n ++ [0x3a]) = n := atoi_decimal hle []
  have hsize : toSize (n : ℤ) = n := by
    rw [toSize]
    omega
  rw [head_number, hnumber, if_neg (by omega), hsize]

omit [IntOverflow] in
/-- The header of a frame fits the buffer. -/
theorem length_head_frame_le (d : TcpFields) {n : ℕ} (hle : n ≤ maxContentLength) :
    ((if d.commaExpected then [0x2c] else []) ++ decimal n ++ [0x3a] : Bytes).length ≤
      maxBufferLength := by
  obtain ⟨hdigits, -⟩ := length_decimal_le (n := n) (k := 7) (by decide)
    (hle.trans_lt (by decide))
  have hcomma : (if d.commaExpected then [0x2c] else [] : Bytes).length ≤ 1 := by
    cases d.commaExpected <;> decide
  rw [List.length_append, List.length_append, List.length_singleton, maxBufferLength]
  omega

omit [IntOverflow] in
/-- A response is framed in the way of a request. -/
theorem responseWire_output {response : Bytes} (h : (decimal response.length).length < 1023) :
    responseWire (some (output response)) = TcpClient.frame response := by
  have hempty : WriteSegmentedStream.newDefault.bytes = [] := rfl
  have hbody : (WriteSegmentedStream.newDefault.put response).length = response.length := by
    rw [WriteSegmentedStream.length, WriteSegmentedStream.bytes_put, hempty, List.nil_append]
  have hfills := (WriteSegmentedStream.fillsStatic_newDefault.put (decimal response.length)).put [0x3a]
  have hbytes : ((WriteSegmentedStream.newDefault.put (decimal response.length)).put [0x3a]).bytes =
      decimal response.length ++ [0x3a] := by
    rw [WriteSegmentedStream.bytes_put, WriteSegmentedStream.bytes_put, hempty, List.nil_append]
  have hsent := sentHeader_of_le hfills (by
    rw [WriteSegmentedStream.length, hbytes, List.length_append, List.length_singleton,
      WriteSegmentedStream.staticBufferSize]
    omega)
  rw [sentHeader, hbytes] at hsent
  rw [output, responseWire, hbody, hsent, WriteSegmentedStream.putChar_eq_put,
    WriteSegmentedStream.bytes_put, WriteSegmentedStream.bytes_put, hempty, TcpClient.frame_eq]
  simp

/-- What is sent in answer to payloads that are executed one after the other. -/
def responses (handler : RpcHandler ω) : ω → List Bytes → Bytes
  | _, [] => []
  | world, p :: ps =>
    let reply := handler p world
    responseWire (if reply.sendResponse then some (output reply.response) else none) ++
      responses handler reply.world ps

/-- The frames of a client are received as the requests they were made of. The comma that ends a frame
belongs to the next message, for which the connection expects it; so it is all that is left. -/
theorem receives_frames_rest (handler : RpcHandler ω) (ps : List Bytes)
    (hps : ∀ p ∈ ps, 1 ≤ p.length ∧ p.length ≤ maxContentLength) (d : TcpFields) (world : ω) :
    ∃ es d' world', (service handler).framing.Receives (d, world)
        ((if d.commaExpected then [0x2c] else []) ++ (ps.map TcpClient.frame).flatten) es
        (some ((d', world'), if d'.commaExpected then [0x2c] else [])) ∧ es.map Prod.fst = ps ∧
      (es.map Prod.snd).flatten = responses handler world ps := by
  induction ps generalizing d world with
  | nil => exact ⟨[], d, world, (by simpa using .start _ _), rfl, rfl⟩
  | cons p ps ih =>
    obtain ⟨hpos, hle⟩ := hps p List.mem_cons_self
    have hhead := head_frame d hpos (hle.trans_lt (by decide))
    have hfits := length_head_frame_le d hle
    generalize hheader : (if d.commaExpected then [0x2c] else []) ++ decimal p.length ++ [0x3a] =
      header at hhead hfits
    -- The stream is the header, the payload, and the comma with the frames behind it.
    have hstream : (if d.commaExpected then [0x2c] else []) ++
        ((p :: ps).map TcpClient.frame).flatten =
          header ++ (p ++ ([0x2c] ++ (ps.map TcpClient.frame).flatten)) := by
      rw [← hheader]
      simp [TcpClient.frame_eq]
    rw [hstream]
    have hlook := look_of_complete (S := service handler) (σ := (d, world))
      (q := header ++ (p ++ ([0x2c] ++ (ps.map TcpClient.frame).flatten)))
      (Service.head_of_append (S := service handler) (σ := (d, world)) (q := header)
        (by rw [List.take_of_length_le hfits]; exact hhead) (by simp)) hle (by simp)
    have hpayload : ((header ++ (p ++ ([0x2c] ++ (ps.map TcpClient.frame).flatten))).drop
        header.length).take p.length = p := by
      rw [List.drop_left, List.take_left]
    rw [hpayload] at hlook
    simp only [service, Bool.not_true, Bool.and_false, Bool.false_eq_true, if_false] at hlook
    obtain ⟨es, d', world', hes, hmap, hsent⟩ := ih (fun p hp => hps p (List.mem_cons_of_mem _ hp))
      { commaExpected := true } (handler p world).world
    refine ⟨(p, responseWire (execution handler { commaExpected := true } p world).output) :: es, d',
      world', .next hlook ?_, by rw [List.map_cons, hmap], ?_⟩
    · rw [← List.append_assoc, ← List.length_append, List.drop_left]
      exact hes
    · rw [List.map_cons, List.flatten_cons, hsent]
      rfl

/-- What is left behind a frame is not the header of another one. -/
theorem look_rest (handler : RpcHandler ω) (d : TcpFields) (world : ω) :
    (service handler).look (d, world) (if d.commaExpected then [0x2c] else []) = .wait := by
  refine look_of_incomplete ?_ ?_
  · cases d.commaExpected <;> decide
  · show head d _ = _
    cases hcomma : d.commaExpected <;> rfl

/-- Behind the frames of a client the connection stays open. -/
theorem open_frames (handler : RpcHandler ω) (ps : List Bytes)
    (hps : ∀ p ∈ ps, 1 ≤ p.length ∧ p.length ≤ maxContentLength) (d : Delivery) (world : ω) :
    ∃ es, (d.session (ps.map TcpClient.frame).flatten ({} : TcpFields) world).Open (service handler)
        es ∧
      es.map Prod.fst = ps ∧ (es.map Prod.snd).flatten = responses handler world ps := by
  obtain ⟨es, d', world', hes, hmap, hsent⟩ := receives_frames_rest handler ps hps {} world
  refine ⟨es, ⟨d.not_ends _ _ _, _, _, hes, look_rest handler d' world', ?_⟩, hmap, hsent⟩
  cases d'.commaExpected <;> decide

end TcpConnection

open TcpConnection in
/-- Requests that a client sends in frames are executed in their order and each once, however the
frames are cut when they arrive and whichever of the requests are answered: what is executed comes first
among them, and is all of them once everything is received. A delivery that lasts leaves nothing of them
to be received, executed or answered. -/
theorem tcp_executes_frames [IntOverflow] {ω : Type} (handler : RpcHandler ω) (world : ω)
    (ps : List Bytes) (hps : ∀ p ∈ ps, 1 ≤ p.length ∧ p.length ≤ maxContentLength) (d : Delivery) :
    wp (serve (TcpConnection.process handler) (d.calls ++ [true]))
      (fun _ s => s.executed <+: ps ∧ (s.incoming.unread = [] → s.executed = ps))
      (fun stop s => Outstanding stop s ∧ s.executed <+: ps)
      (d.accepted (ps.map TcpClient.frame).flatten {} world) ∧
    ∀ pieces, d.Lasts (ps.map TcpClient.frame).flatten ps.length (responses handler world ps).length
        pieces →
      wp (serve (TcpConnection.process handler) (d.calls ++ [true]))
        (fun _ s => s.incoming.unread = [] ∧ s.executed = ps ∧
          s.socket.sent = responses handler world ps)
        (fun _ _ => False) (d.accepted (ps.map TcpClient.frame).flatten {} world) := by
  have hseen : (service handler).Seen {} {} [] := rfl
  obtain ⟨es, hopen, hmap, hsent⟩ := open_frames handler ps hps d world
  have hevents : ((service handler).framing.events
      ({}, world) (ps.map TcpClient.frame).flatten).map Prod.fst = ps := by
    exact (congrArg (List.map Prod.fst) hopen.events_eq).trans hmap
  constructor
  · refine wp_mono (d.serve_follows (readHeader_spec handler) (executeRequest_spec handler) hseen
      (ps.map TcpClient.frame).flatten world) ?_ ?_
    · rintro _ s ⟨es', rest', hquiet⟩
      refine ⟨hevents ▸ hquiet.executed_prefix, fun hempty => ?_⟩
      obtain ⟨rest', hreceives, hsettled', -⟩ := hquiet.finished (d.not_ends _ _ _) (.inl hempty)
      rw [hquiet.log.executed, hreceives.eq_events hsettled']
      exact hevents
    · intro stop s hwaiting
      exact ⟨hwaiting.outstanding, hevents ▸ hwaiting.2.2⟩
  · intro pieces hlasts
    have hlength : es.length = ps.length := by rw [← hmap, List.length_map]
    rw [← hlength, ← hsent] at hlasts
    rw [← hsent]
    refine wp_mono (d.serve_completes (readHeader_spec handler) (executeRequest_spec handler) hseen
      hopen hlasts) ?_ fun _ _ h => h
    rintro _ s ⟨hunread, hexecuted, hall⟩
    exact ⟨hunread, hexecuted.trans hmap, hall⟩

open TcpConnection in
/-- A request that is answered and a notification arrive, after a pause, a byte at a time in the end. -/
theorem tcp_executes_frames_two :
    let _ := IntOverflow.truncate
    let handler : RpcHandler Unit := fun request world =>
      ⟨request, ascii "ok", request = ascii "first", world, rfl⟩
    let ps : List Bytes := [ascii "first", ascii "second request"]
    let d : Delivery := {
      buffer := List.replicate (maxBufferLength + 1) 0
      attempts := ⟨.arrived 4, 0, true⟩ :: ⟨.arrived 0, 0, true⟩ ::
        List.replicate 78 ⟨.arrived 1, 0, true⟩
      sends := List.replicate 5 ⟨.accepted 0, 0, true⟩
      calls := false :: List.replicate 29 true
      length_buffer := List.length_replicate
      arrives := by simp
      accepts := by simp }
    wp (serve (TcpConnection.process handler) (d.calls ++ [true]))
      (fun _ s => s.incoming.unread = [] ∧ s.executed = ps ∧ s.socket.sent = ascii "2:ok,")
      (fun _ _ => False) (d.accepted (ps.map TcpClient.frame).flatten {} ()) := by
  intro _ handler ps d
  have hps : ∀ p ∈ ps, 1 ≤ p.length ∧ p.length ≤ maxContentLength := by
    intro p hp
    rcases List.mem_pair.mp hp with rfl | rfl <;> decide
  have hresponses : responses handler () ps = ascii "2:ok," := by
    have hwire : responseWire (some (output (ascii "ok"))) = TcpClient.frame (ascii "ok") :=
      responseWire_output (by decide)
    have hsplit : responses handler () ps = responseWire (some (output (ascii "ok"))) ++ [] := rfl
    rw [hsplit, List.append_nil, hwire, TcpClient.frame_eq]
    rfl
  have hlasts : d.Lasts (ps.map TcpClient.frame).flatten ps.length (responses handler () ps).length
      28 := by
    rw [hresponses]
    exact ⟨by decide, by decide +kernel, by decide, by decide, by decide⟩
  rw [← hresponses]
  exact (tcp_executes_frames handler () ps hps d).2 28 hlasts

end AnyRpc
