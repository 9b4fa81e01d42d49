import AnyRpc.Connection.Http
import AnyRpc.Internal.ContentLength

/-! # What the header of a response announces

`ExecuteRequest` writes a header that tells the peer whether the connection is kept and where the
response ends, and `WriteResponse` decides it. Whether the two agree depends on the request. -/

namespace AnyRpc

open Library ServerConnection

/-! ## A response that is written -/

namespace TcpSocket

/-- `Send` has written all of its argument when it succeeds. -/
theorem sendLoop_success {buffer : Bytes} {timeout : ℕ} {attempts : List SendAttempt}
    {bytesWritten n : ℕ} {sent : Bytes} {socket : TcpSocket} (hle : bytesWritten ≤ buffer.length)
    (h : sendLoop buffer timeout attempts bytesWritten sent = .ok (true, n) socket) :
    n = buffer.length ∧ socket.sent = sent ++ buffer.drop bytesWritten := by
  induction attempts generalizing bytesWritten sent with
  | nil => cases h
  | cons attempt attempts ih =>
    rw [sendLoop] at h
    cases hresult : attempt.result with
    | failed fatal =>
      rw [hresult] at h
      simp only at h
      split at h
      · exact ih hle h
      · cases h
    | accepted left =>
      rw [hresult] at h
      simp only at h
      have hsplit : (buffer.drop bytesWritten).take (buffer.length - bytesWritten - left) ++
          buffer.drop (bytesWritten + (buffer.length - bytesWritten - left)) =
            buffer.drop bytesWritten := by
        rw [← List.drop_drop, List.take_append_drop]
      by_cases hall : buffer.length ≤ bytesWritten + (buffer.length - bytesWritten - left)
      · rw [if_pos hall] at h
        cases h
        rw [List.drop_of_length_le hall, List.append_nil] at hsplit
        exact ⟨by omega, congrArg (sent ++ ·) hsplit⟩
      · rw [if_neg hall] at h
        split at h
        · obtain ⟨hn, hsent⟩ := ih (by omega) h
          exact ⟨hn, by rw [hsent, List.append_assoc, hsplit]⟩
        · cases h

end TcpSocket

namespace Connection

/-- A loop of `WriteResponse` has written so many bytes and goes on with the same streams. -/
structure Written (c : Connection) (wire : Bytes) (c' : Connection) : Prop where
  header : c'.header = c.header
  response : c'.response = c.response
  sent : c'.socket.sent = c.socket.sent ++ wire

/-- A call of `Send` changes the socket, and writes all of its argument when it succeeds. -/
theorem wp_send (buffer : Bytes) (c : Connection) :
    wp (send buffer) (fun r c' => c' = { c with socket := c'.socket } ∧
        (r.1 = true → r.2 = buffer.length ∧ c'.socket.sent = c.socket.sent ++ buffer))
      (fun _ _ => True) c := by
  unfold wp send
  cases hsend : c.socket.send buffer with
  | error e socket => trivial
  | ok r socket =>
    refine ⟨rfl, fun hsuccess => ?_⟩
    obtain ⟨success, n⟩ := r
    obtain rfl : success = true := hsuccess
    exact TcpSocket.sendLoop_success (Nat.zero_le _) hsend

/-- The loop over the header, when it is left for the body. -/
theorem writeHeader_written (fuel : ℕ) {c : Connection} (hresult : c.resultBytesWritten = 0) :
    wp (writeHeader fuel) (fun result c' => result = none → c'.resultBytesWritten = 0 ∧
        c.Written (headerWire (c.header.getBuffer 0) (c.header.length - c.headerBytesWritten)) c')
      (fun _ _ => True) c := by
  induction fuel generalizing c with
  | zero => trivial
  | succ fuel ih =>
    rw [writeHeader, wp_bind, wp_get, wp_ite]
    constructor
    · intro hlt
      rw [hresult]
      have hne : c.header.getBuffer 0 ≠ [] := (c.header.getBuffer_spec (by omega)).1
      refine wp_seq (wp_send _ c) fun r c' h => ?_
      obtain ⟨success, n⟩ := r
      obtain ⟨hsame, hsuccess⟩ := h
      cases success with
      | false =>
        simp only [Bool.not_false, if_true]
        rw [wp_bind, wp_modify, wp_pure]
        intro h
        cases h
      | true =>
        obtain ⟨rfl, hsent⟩ := hsuccess rfl
        simp only [Bool.not_true, Bool.false_eq_true, if_false, lt_irrefl]
        rw [wp_bind, wp_modify]
        have hheader : c'.header = c.header := by rw [hsame]
        have hresponse : c'.response = c.response := by rw [hsame]
        have hcount : c'.headerBytesWritten = c.headerBytesWritten := by rw [hsame]
        have hbody : c'.resultBytesWritten = 0 := by rw [hsame]; exact hresult
        refine wp_mono (ih hbody) ?_ fun _ _ h => h
        intro result c'' hdone hnone
        obtain ⟨hzero, hwritten⟩ := hdone hnone
        refine ⟨hzero, hwritten.header.trans hheader, hwritten.response.trans hresponse, ?_⟩
        rw [hwritten.sent]
        show c'.socket.sent ++ headerWire (c'.header.getBuffer 0)
          (c'.header.length - (c'.headerBytesWritten + (c.header.getBuffer 0).length)) = _
        rw [hheader, hcount, hsent]
        conv_rhs => rw [headerWire, if_pos ⟨by omega, hne⟩]
        rw [List.append_assoc, Nat.sub_sub]
    · intro hge
      rw [wp_pure]
      refine fun _ => ⟨hresult, rfl, rfl, ?_⟩
      rw [headerWire, if_neg (by omega), List.append_nil]

/-- The loop over the body, when it comes to its end. -/
theorem writeBody_written (fuel : ℕ) {c : Connection} :
    wp (writeBody fuel) (fun result c' => result = none →
        c.Written (c.response.bytes.drop c.resultBytesWritten) c')
      (fun _ _ => True) c := by
  induction fuel generalizing c with
  | zero => trivial
  | succ fuel ih =>
    rw [writeBody, wp_bind, wp_get, wp_ite]
    constructor
    · intro hlt
      obtain ⟨-, rest, hrest⟩ := c.response.getBuffer_spec hlt
      refine wp_seq (wp_send _ c) fun r c' h => ?_
      obtain ⟨success, n⟩ := r
      obtain ⟨hsame, hsuccess⟩ := h
      cases success with
      | false =>
        simp only [Bool.not_false, if_true]
        rw [wp_bind, wp_modify, wp_pure]
        intro h
        cases h
      | true =>
        obtain ⟨rfl, hsent⟩ := hsuccess rfl
        simp only [Bool.not_true, Bool.false_eq_true, if_false, lt_irrefl]
        rw [wp_bind, wp_modify]
        have hheader : c'.header = c.header := by rw [hsame]
        have hresponse : c'.response = c.response := by rw [hsame]
        have hcount : c'.resultBytesWritten = c.resultBytesWritten := by rw [hsame]
        refine wp_mono ih ?_ fun _ _ h => h
        intro result c'' hdone hnone
        have hwritten := hdone hnone
        refine ⟨hwritten.header.trans hheader, hwritten.response.trans hresponse, ?_⟩
        rw [hwritten.sent]
        show c'.socket.sent ++ c'.response.bytes.drop (c'.resultBytesWritten + _) = _
        rw [hresponse, hcount, hsent, List.append_assoc, ← List.drop_drop, ← hrest, List.drop_left]
    · intro hge
      rw [wp_pure]
      refine fun _ => ⟨rfl, rfl, ?_⟩
      rw [List.drop_of_length_le (by rw [WriteSegmentedStream.length] at hge; omega),
        List.append_nil]

end Connection

namespace ServerConnection

variable {ρ ω ε : Type} [Transport ρ]

/-- `Initialize` leaves the state and the socket as they are. -/
theorem wp_initializeData_socket (preserveBufferData : Bool) (s : ServerConnection ρ ω ε) :
    wp (initializeData preserveBufferData) (fun _ s' => s'.connectionState = s.connectionState ∧
      s'.socket = s.socket) (fun _ _ => True) s := by
  rw [initializeData, wp_bind]
  refine wp_store_any (fun message => ?_) trivial
  rw [wp_modify]
  exact ⟨rfl, rfl⟩

/-- A function that gives up leaves the state as it is. -/
theorem wp_giveUp_state (s : ServerConnection ρ ω ε) :
    wp giveUp (fun _ s' => s'.connectionState = s.connectionState) (fun _ _ => True) s :=
  wp_seq (wp_initializeData_socket false s) fun _ _ h => h.1

/-- A `WriteResponse` that goes on to the next header has written the response, and returns whether the
connection is kept. -/
theorem writeResponse_written {s : ServerConnection ρ ω ε} (hstate : s.connectionState = .writeResponse)
    (hheader : s.headerBytesWritten = 0) (hresult : s.resultBytesWritten = 0) :
    wp writeResponse (fun kept s' => s'.connectionState = .readHeader → kept = s.keepAlive ∧
        s'.socket.sent = s.socket.sent ++
          (headerWire (s.header.getBuffer 0) s.header.length ++ s.response.bytes))
      (fun _ _ => True) s := by
  rw [writeResponse, wp_bind, wp_get, wp_bind]
  have hheaderLoop := Connection.writeHeader_written (s.socket.attempts.length + 1)
    (c := s.sending) hresult
  refine wp_liftSending_of hheaderLoop ?_ fun _ _ _ => trivial
  intro result c hdone
  cases result with
  | some again =>
    cases again with
    | true =>
      intro h
      cases hstate.symm.trans h
    | false =>
      refine wp_mono (wp_giveUp_state _) (fun _ _ h hread => ?_) fun _ _ h => h
      cases (hstate.symm.trans h.symm).trans hread
  | none =>
    obtain ⟨hzero, hwritten⟩ := hdone rfl
    simp only
    rw [wp_bind, wp_get, wp_bind]
    have hbodyLoop := Connection.writeBody_written (c.socket.attempts.length + 1)
      (c := ServerConnection.sending { s with
        socket := c.socket
        header := c.header
        headerBytesWritten := c.headerBytesWritten
        response := c.response
        resultBytesWritten := c.resultBytesWritten })
    refine wp_liftSending_of hbodyLoop ?_ fun _ _ _ => trivial
    intro result c' hdone'
    cases result with
    | some again =>
      cases again with
      | true =>
        intro h
        cases hstate.symm.trans h
      | false =>
        refine wp_mono (wp_giveUp_state _) (fun _ _ h hread => ?_) fun _ _ h => h
        cases (hstate.symm.trans h.symm).trans hread
    | none =>
      have hsent := (hdone' rfl).sent
      have hsent' : c'.socket.sent = s.socket.sent ++
          (headerWire (s.header.getBuffer 0) s.header.length ++ s.response.bytes) := by
        rw [hsent]
        show c.socket.sent ++ c.response.bytes.drop c.resultBytesWritten = _
        rw [hwritten.sent, hzero, hwritten.response, List.append_assoc]
        show s.socket.sent ++ (headerWire (s.header.getBuffer 0)
          (s.header.length - s.headerBytesWritten) ++ s.response.bytes) = _
        rw [hheader, Nat.sub_zero]
      simp only
      rw [wp_bind, wp_modify, wp_bind, wp_get]
      refine wp_seq (wp_initializeData_socket _ _) fun _ s' h => ?_
      rw [wp_pure, h.2]
      exact fun _ => ⟨rfl, hsent'⟩

/-- After a response that is written, a round of `Process` leaves the connection waiting for the next
header, or closed. -/
theorem processState_writing (readHeader executeRequest : ConnectionM ρ ω ε Bool)
    {s s' : ServerConnection ρ ω ε} {kept : Bool} (hstate : s.connectionState = .writeResponse)
    (hwrite : writeResponse s = .ok kept s') (hstate' : s'.connectionState = .readHeader)
    (executeAfterRead : Bool) :
    processState readHeader executeRequest executeAfterRead s =
      if kept then .ok (decide (0 < s'.message.bufferLength)) s'
      else .ok false { s' with connectionState := .closeConnection } := by
  -- The functions for other states are not called.
  have hskip (state : ConnectionState) (f : ConnectionM ρ ω ε Bool) (h : s.connectionState ≠ state) :
      processState.inState state f s = .ok true s := by
    rw [processState.inState, bind_apply, get_apply]
    simp only
    rw [processState.guarded, if_neg (by simpa using h)]
    rfl
  unfold processState
  rw [bind_of_ok (hskip .readHeader readHeader (by rw [hstate]; decide))]
  simp only [Bool.not_true, Bool.false_eq_true, if_false]
  rw [bind_of_ok (hskip .readRequest readRequest (by rw [hstate]; decide))]
  simp only [Bool.not_true, Bool.false_eq_true, if_false]
  rw [bind_apply, get_apply]
  have hexecuting : (executeAfterRead && decide (s.connectionState = .executeRequest)) = false := by
    rw [hstate]
    simp
  simp only [hexecuting]
  rw [bind_of_ok (show processState.guarded false executeRequest s = .ok true s from rfl)]
  simp only [Bool.not_true, Bool.false_eq_true, if_false]
  rw [bind_apply, get_apply]
  have hwriting : processState.inState .writeResponse writeResponse s = .ok kept s' := by
    rw [processState.inState, bind_apply, get_apply]
    simp only
    rw [processState.guarded, if_pos (by simpa using hstate), hwrite]
  simp only
  rw [bind_of_ok hwriting]
  cases kept with
  | false => rfl
  | true =>
    simp only [Bool.not_true, Bool.false_eq_true, if_false, hstate, decide_true, Bool.or_true, if_true]
    rw [processState.moreData, bind_apply, get_apply]
    simp only [hstate', decide_true, Bool.true_and, pure_apply]

end ServerConnection

/-! ## What is sent of a header -/

open HttpHeader

/-- Where a text is sent again and again, the lines between two of them are the last of one and the first
of the next together. -/
theorem mem_endedLines_headerWire {first rest line : Bytes} (hfirst : (0x0a : UInt8) ∉ first)
    (hline : ∀ p, line ≠ lineText (p ++ first)) {n : ℕ} (hn : 0 < n) :
    line ∈ endedLines (headerWire (first ++ 0x0a :: rest) n) ↔
      line ∈ endedLines (first ++ 0x0a :: rest) := by
  induction hm : n using Nat.strong_induction_on generalizing n with
  | _ m ih =>
    subst hm
    have hne : first ++ 0x0a :: rest ≠ [] := by simp
    rw [headerWire, if_pos ⟨hn, hne⟩]
    by_cases hmore : 0 < n - (first ++ 0x0a :: rest).length
    · have hless : n - (first ++ 0x0a :: rest).length < n := by
        have := List.length_pos_iff.mpr hne
        omega
      have hagain := ih _ hless hmore rfl
      obtain ⟨last, hlast, happend⟩ := exists_openLine (first ++ 0x0a :: rest)
      rw [headerWire, if_pos ⟨hmore, hne⟩] at hagain ⊢
      have hopen : (0x0a : UInt8) ∉ last ++ first := by
        rw [List.mem_append, not_or]
        exact ⟨hlast, hfirst⟩
      rw [List.append_assoc, List.cons_append, endedLines_cons hfirst] at hagain
      rw [happend, List.append_assoc, List.cons_append, ← List.append_assoc, endedLines_cons hopen]
      simp only [List.mem_append, List.mem_cons] at hagain ⊢
      have hnot := hline last
      tauto
    · have hdone : headerWire (first ++ 0x0a :: rest) (n - (first ++ 0x0a :: rest).length) = [] := by
        rw [headerWire, if_neg fun h => hmore h.1]
      rw [hdone, List.append_nil]

/-! ## What a header says -/

/-- The value of the first `Connection` field of a header. -/
def connectionField (header : Bytes) : Option Bytes :=
  ((endedLines header).find? fun line => (ascii "Connection: ").isPrefixOf line).map
    (List.drop (ascii "Connection: ").length)

/-- The line of a header that announces so many bytes. -/
def lengthField (n : ℕ) : Bytes := ascii "Content-length: " ++ decimal n

/-- A header announces what becomes of the connection, and on a connection that is kept it announces
how long the response is and comes to its end, which is an empty line. -/
structure Truthful (header : Bytes) (connectionState : ConnectionState) (bodySize : ℕ) : Prop where
  keepAlive_iff : connectionField header = some (ascii "keep-alive") ↔
    connectionState = .readHeader
  close_iff : connectionField header = some (ascii "close") ↔ connectionState = .closeConnection
  length_mem : connectionState = .readHeader → lengthField bodySize ∈ endedLines header
  ended : connectionState = .readHeader → [] ∈ endedLines header

namespace HttpConnection

/-- The state of a connection behind a response that is written. -/
def stateAfter (keepAlive : Bool) : ConnectionState :=
  if keepAlive then .readHeader else .closeConnection

/-! ## The header for a POST -/

/-- The first line of a header that is no fault. -/
def statusLine : Bytes := ascii "HTTP/1.1 200 OK\r"

/-- The lines of the header for a POST between the first one and the content type. -/
def fieldsPOST (keepAlive : Bool) : Bytes :=
  ascii "Server: " ++ (ascii "AnyRPC" ++ (ascii " v" ++ (versionString ++ (ascii "\r\n" ++
    ascii (if keepAlive then "Connection: keep-alive\r" else "Connection: close\r")))))

/-- The lines of the header for a POST that are in front of the content type. -/
def frontPOST (keepAlive : Bool) : Bytes := statusLine ++ 0x0a :: fieldsPOST keepAlive

/-- The lines of the header for a POST from the content type on, but for the last line feed. -/
def backPOST (bodySize : ℕ) (contentType : Bytes) : Bytes :=
  ascii "Content-Type: " ++ contentType ++ [0x0d] ++ 0x0a ::
    (lengthField bodySize ++ [0x0d] ++ 0x0a :: [0x0d])

section

variable (bodySize : ℕ) (contentType : Bytes) (keepAlive : Bool)

/-- The text of the header for a POST. -/
theorem bytes_generatePOSTResponseHeader :
    (generatePOSTResponseHeader bodySize contentType keepAlive .newDefault).bytes =
      frontPOST keepAlive ++ 0x0a :: (backPOST bodySize contentType ++ [0x0a]) := by
  have hend : ascii "\r\n" = [0x0d, 0x0a] := rfl
  have hstatus : ascii "HTTP/1.1 200 OK\r\n" = statusLine ++ [0x0a] := rfl
  have hconnection : ascii (if keepAlive then "Connection: keep-alive\r\n"
      else "Connection: close\r\n") =
        ascii (if keepAlive then "Connection: keep-alive\r" else "Connection: close\r") ++ [0x0a] := by
    cases keepAlive with
    | false => rfl
    | true => rfl
  have hempty : WriteSegmentedStream.newDefault.bytes = [] := rfl
  rw [generatePOSTResponseHeader, WriteSegmentedStream.bytes_foldl_put, hempty, backPOST, lengthField,
    frontPOST, fieldsPOST, hconnection, hstatus]
  simp only [List.flatten_cons, List.flatten_nil, List.append_assoc, List.append_nil, List.nil_append,
    hend, List.cons_append]

/-- The header for a POST fills the first buffer before it takes another one. -/
theorem fillsStatic_post :
    (generatePOSTResponseHeader bodySize contentType keepAlive .newDefault).FillsStatic :=
  WriteSegmentedStream.fillsStatic_newDefault.foldl_put _

/-- The part of the header for a POST that is in the first buffer. -/
def firstPOST : Bytes :=
  (generatePOSTResponseHeader bodySize contentType keepAlive .newDefault).bytes.take
    (WriteSegmentedStream.staticBufferSize - 1)

/-- The lines in front of the content type are in the first buffer. -/
theorem exists_firstPOST : ∃ rest,
    firstPOST bodySize contentType keepAlive = frontPOST keepAlive ++ 0x0a :: rest := by
  have hfront : (frontPOST keepAlive ++ [0x0a]).length ≤ WriteSegmentedStream.staticBufferSize - 1 := by
    cases keepAlive with
    | false => decide
    | true => decide
  have hsplit : frontPOST keepAlive ++ 0x0a :: (backPOST bodySize contentType ++ [0x0a]) =
      (frontPOST keepAlive ++ [0x0a]) ++ (backPOST bodySize contentType ++ [0x0a]) :=
    List.append_cons ..
  rw [firstPOST, bytes_generatePOSTResponseHeader, hsplit, List.take_append,
    List.take_of_length_le hfront]
  exact ⟨_, (List.append_cons ..).symm⟩

/-- What is sent of the header for a POST is its first buffer, again and again. -/
theorem sentHeader_post : ∃ n, 0 < n ∧
    sentHeader (generatePOSTResponseHeader bodySize contentType keepAlive .newDefault) =
      headerWire (firstPOST bodySize contentType keepAlive) n := by
  have hpos : 0 < (generatePOSTResponseHeader bodySize contentType keepAlive .newDefault).length := by
    rw [WriteSegmentedStream.length, bytes_generatePOSTResponseHeader, List.length_append,
      List.length_cons]
    omega
  refine ⟨_, hpos, ?_⟩
  rw [sentHeader, (fillsStatic_post bodySize contentType keepAlive).getBuffer_zero hpos, firstPOST]

/-- What is sent of the header for a POST announces what `WriteResponse` does with the connection. -/
theorem connectionField_post :
    connectionField (sentHeader
      (generatePOSTResponseHeader bodySize contentType keepAlive .newDefault)) =
        some (ascii (if keepAlive then "keep-alive" else "close")) := by
  have hfront : (((frontPOST keepAlive).splitOn 0x0a).map lineText).find?
      (fun line => (ascii "Connection: ").isPrefixOf line) =
        some (ascii "Connection: " ++ ascii (if keepAlive then "keep-alive" else "close")) := by
    cases keepAlive with
    | false => decide +kernel
    | true => decide +kernel
  obtain ⟨n, hn, hsent⟩ := sentHeader_post bodySize contentType keepAlive
  obtain ⟨rest, hfirst⟩ := exists_firstPOST bodySize contentType keepAlive
  have hne : firstPOST bodySize contentType keepAlive ≠ [] := by simp [hfirst]
  rw [connectionField, hsent, headerWire, if_pos ⟨hn, hne⟩, hfirst, List.append_assoc,
    List.cons_append, endedLines_append, List.find?_append, hfront, Option.some_or, Option.map_some,
    List.drop_left]

variable {bodySize contentType keepAlive}

/-- A line without the last letter of the first line is sent if it is in the first buffer. -/
theorem mem_sentHeader_post {line : Bytes} (hline : (0x4b : UInt8) ∉ line) :
    line ∈ endedLines (sentHeader
        (generatePOSTResponseHeader bodySize contentType keepAlive .newDefault)) ↔
      line ∈ endedLines (firstPOST bodySize contentType keepAlive) := by
  obtain ⟨n, hn, hsent⟩ := sentHeader_post bodySize contentType keepAlive
  obtain ⟨rest, hfirst⟩ := exists_firstPOST bodySize contentType keepAlive
  have hstatus : (0x0a : UInt8) ∉ statusLine := by decide
  rw [hsent, hfirst, frontPOST, List.append_assoc, List.cons_append]
  refine mem_endedLines_headerWire hstatus (fun p heq => hline ?_) hn
  -- The line that two buffers have a part in ends in that letter.
  have hend : lineText (p ++ statusLine) = p ++ ascii "HTTP/1.1 200 OK" := by
    have hsplit : p ++ statusLine = (p ++ ascii "HTTP/1.1 200 OK") ++ [0x0d] := by
      rw [List.append_assoc]
      rfl
    rw [hsplit, lineText, List.getLast?_concat, if_pos rfl, List.dropLast_concat]
  rw [heq, hend]
  exact List.mem_append_right _ (by decide)

/-- The line that announces the length has no byte that is neither a digit nor in the name. -/
theorem notMem_lengthField {c : UInt8} (hc : isDigit c = false)
    (hname : c ∉ ascii "Content-length: ") (n : ℕ) : c ∉ lengthField n := by
  rw [lengthField, List.mem_append, not_or]
  exact ⟨hname, notMem_decimal hc n⟩

/-- A line with its return. -/
theorem lineText_concat (line : Bytes) : lineText (line ++ [0x0d]) = line := by
  rw [lineText, List.getLast?_concat, if_pos rfl, List.dropLast_concat]

/-- The line that announces the length, and what follows it. -/
theorem endedLines_lengthField (n : ℕ) (rest : Bytes) :
    endedLines (lengthField n ++ [0x0d] ++ 0x0a :: rest) = lengthField n :: endedLines rest := by
  have hline : (0x0a : UInt8) ∉ lengthField n ++ [0x0d] := by
    rw [List.mem_append, not_or]
    exact ⟨notMem_lengthField (by decide) (by decide) n, by decide⟩
  rw [endedLines_cons hline, lineText_concat]

/-- The whole header announces the length, and comes to its end. -/
theorem mem_endedLines_post :
    let lines := endedLines (generatePOSTResponseHeader bodySize contentType keepAlive
      .newDefault).bytes
    lengthField bodySize ∈ lines ∧ [] ∈ lines := by
  intro lines
  have hback : endedLines (backPOST bodySize contentType ++ [0x0a]) =
      ((ascii "Content-Type: " ++ contentType ++ [0x0d]).splitOn 0x0a).map lineText ++
        [lengthField bodySize, []] := by
    have hsplit : backPOST bodySize contentType ++ [0x0a] =
        ascii "Content-Type: " ++ contentType ++ [0x0d] ++ 0x0a ::
          (lengthField bodySize ++ [0x0d] ++ 0x0a :: ([0x0d] ++ 0x0a :: [])) := by
      simp [backPOST]
    rw [hsplit, endedLines_append, endedLines_lengthField, endedLines_cons (by decide)]
    rfl
  have hlines : lines = ((frontPOST keepAlive).splitOn 0x0a).map lineText ++
      endedLines (backPOST bodySize contentType ++ [0x0a]) := by
    show endedLines _ = _
    rw [bytes_generatePOSTResponseHeader, endedLines_append]
  rw [hlines, hback]
  simp

/-- With a content type of one line, the end of a header is in the first buffer only with all of it. -/
theorem length_le_of_blank_mem (htype : (0x0a : UInt8) ∉ contentType)
    (h : [] ∈ endedLines (firstPOST bodySize contentType keepAlive)) :
    (generatePOSTResponseHeader bodySize contentType keepAlive .newDefault).bytes.length ≤
      WriteSegmentedStream.staticBufferSize - 1 := by
  by_contra hlong
  rw [Nat.not_le] at hlong
  -- What is in the first buffer is in front of the last line feed, where no line is empty.
  have hsplit : (generatePOSTResponseHeader bodySize contentType keepAlive .newDefault).bytes =
      (frontPOST keepAlive ++ 0x0a :: backPOST bodySize contentType) ++ [0x0a] := by
    rw [bytes_generatePOSTResponseHeader, List.append_assoc, List.cons_append]
  have htake : firstPOST bodySize contentType keepAlive =
      (frontPOST keepAlive ++ 0x0a :: backPOST bodySize contentType).take
        (WriteSegmentedStream.staticBufferSize - 1) := by
    rw [hsplit, List.length_append, List.length_singleton] at hlong
    rw [firstPOST, hsplit, List.take_append_of_le_length (by omega)]
  have hmem : [] ∈ endedLines (frontPOST keepAlive ++ 0x0a :: backPOST bodySize contentType) := by
    have hlonger := mem_endedLines_append h
      ((frontPOST keepAlive ++ 0x0a :: backPOST bodySize contentType).drop
        (WriteSegmentedStream.staticBufferSize - 1))
    rwa [htake, List.take_append_drop] at hlonger
  have hline : (0x0a : UInt8) ∉ ascii "Content-Type: " ++ contentType ++ [0x0d] := by
    rw [List.mem_append, List.mem_append, not_or, not_or]
    exact ⟨⟨by decide, htype⟩, by decide⟩
  have hfront : [] ∉ ((frontPOST keepAlive).splitOn 0x0a).map lineText := by
    cases keepAlive with
    | false => decide +kernel
    | true => decide +kernel
  rw [endedLines_append, List.mem_append, backPOST, endedLines_cons hline, lineText_concat,
    endedLines_lengthField, endedLines_of_notMem (by decide)] at hmem
  rcases hmem with hmem | hmem
  · exact hfront hmem
  · simp [ascii, lengthField] at hmem

/-- Of the header for a POST on a connection that is kept, the line that announces the length and the
end are in the first buffer: the header fits it, or it is one of those with a content type of more than
one line in which they come early enough. -/
def HeaderFits (bodySize : ℕ) (contentType : Bytes) : Prop :=
  (generatePOSTResponseHeader bodySize contentType true .newDefault).bytes.length ≤
      WriteSegmentedStream.staticBufferSize - 1 ∨
    ((0x0a : UInt8) ∈ contentType ∧
      lengthField bodySize ∈ endedLines (firstPOST bodySize contentType true) ∧
      [] ∈ endedLines (firstPOST bodySize contentType true))

/-- With a content type of one line, there is room for so many bytes of it and of the length. -/
theorem headerFits_iff (htype : (0x0a : UInt8) ∉ contentType) :
    HeaderFits bodySize contentType ↔ contentType.length + (decimal bodySize).length ≤ 913 := by
  have hfront : (frontPOST true).length = 73 := by decide
  have hname : (ascii "Content-Type: ").length = 14 := by decide
  have hlength : (ascii "Content-length: ").length = 16 := by decide
  rw [HeaderFits, or_iff_left fun h => htype h.1, bytes_generatePOSTResponseHeader, backPOST,
    lengthField]
  simp only [List.length_append, List.length_cons, List.length_nil, hfront, hname, hlength,
    WriteSegmentedStream.staticBufferSize]
  omega

/-- The header for a POST is truthful on a connection that closes, and on one that is kept if it fits. -/
theorem truthful_post_iff :
    Truthful (sentHeader (generatePOSTResponseHeader bodySize contentType keepAlive .newDefault))
      (stateAfter keepAlive) bodySize ↔ (keepAlive = true → HeaderFits bodySize contentType) := by
  have hfield := connectionField_post bodySize contentType keepAlive
  have hlength : lengthField bodySize ∈ endedLines (sentHeader
      (generatePOSTResponseHeader bodySize contentType keepAlive .newDefault)) ↔
        lengthField bodySize ∈ endedLines (firstPOST bodySize contentType keepAlive) :=
    mem_sentHeader_post (notMem_lengthField (by decide) (by decide) bodySize)
  have hblank : [] ∈ endedLines (sentHeader
      (generatePOSTResponseHeader bodySize contentType keepAlive .newDefault)) ↔
        [] ∈ endedLines (firstPOST bodySize contentType keepAlive) :=
    mem_sentHeader_post List.not_mem_nil
  cases keepAlive with
  | false =>
    have hclosed : stateAfter false ≠ .readHeader := by decide
    refine iff_of_true ⟨?_, ?_, fun h => absurd h hclosed, fun h => absurd h hclosed⟩ fun h => by cases h
    · rw [hfield]
      decide
    · rw [hfield]
      decide
  | true =>
    constructor
    · intro h _
      have hsent := hlength.mp (h.length_mem rfl)
      have hended := hblank.mp (h.ended rfl)
      by_cases htype : (0x0a : UInt8) ∈ contentType
      · exact .inr ⟨htype, hsent, hended⟩
      · exact .inl (length_le_of_blank_mem htype hended)
    · intro h
      have hfits : lengthField bodySize ∈ endedLines (firstPOST bodySize contentType true) ∧
          [] ∈ endedLines (firstPOST bodySize contentType true) := by
        rcases h rfl with hle | ⟨-, hsent, hended⟩
        · have hall : firstPOST bodySize contentType true =
              (generatePOSTResponseHeader bodySize contentType true .newDefault).bytes :=
            List.take_of_length_le hle
          rw [hall]
          exact mem_endedLines_post
        · exact ⟨hsent, hended⟩
      refine ⟨?_, ?_, fun _ => hlength.mpr hfits.1, fun _ => hblank.mpr hfits.2⟩
      · rw [hfield]
        decide
      · rw [hfield]
        decide

end

/-! ## The headers for other methods -/

/-- The header for OPTIONS announces that the connection is kept, and no length. -/
theorem header_options :
    let header := sentHeader (generateOPTIONSResponseHeader .newDefault)
    connectionField header = some (ascii "keep-alive") ∧ ∀ n, lengthField n ∉ endedLines header := by
  intro header
  have hbytes : (generateOPTIONSResponseHeader .newDefault).bytes.length ≤
        WriteSegmentedStream.staticBufferSize - 1 ∧
      connectionField (generateOPTIONSResponseHeader .newDefault).bytes =
        some (ascii "keep-alive") ∧
      ∀ line ∈ endedLines (generateOPTIONSResponseHeader .newDefault).bytes,
        (ascii "Content-length: ").isPrefixOf line = false := by
    rw [generateOPTIONSResponseHeader, WriteSegmentedStream.bytes_foldl_put]
    decide +kernel
  have hsent : header = (generateOPTIONSResponseHeader .newDefault).bytes :=
    sentHeader_of_le (WriteSegmentedStream.fillsStatic_newDefault.foldl_put _) hbytes.1
  rw [hsent]
  refine ⟨hbytes.2.1, fun n hmem => ?_⟩
  have hfield := hbytes.2.2 _ hmem
  rw [lengthField, List.isPrefixOf_iff_prefix.mpr (List.prefix_append _ _)] at hfield
  cases hfield

/-- The header for any other method announces that the connection is closed. -/
theorem header_error :
    connectionField (sentHeader
      (generateErrorResponseHeader 501 (ascii "Not Implemented") .newDefault)) =
        some (ascii "close") := by
  have hbytes :
      (generateErrorResponseHeader 501 (ascii "Not Implemented") .newDefault).bytes.length ≤
        WriteSegmentedStream.staticBufferSize - 1 ∧
      connectionField (generateErrorResponseHeader 501 (ascii "Not Implemented") .newDefault).bytes =
        some (ascii "close") := by
    rw [generateErrorResponseHeader, WriteSegmentedStream.bytes_foldl_put]
    decide +kernel
  have hsent : sentHeader (generateErrorResponseHeader 501 (ascii "Not Implemented") .newDefault) =
      (generateErrorResponseHeader 501 (ascii "Not Implemented") .newDefault).bytes :=
    sentHeader_of_le (WriteSegmentedStream.fillsStatic_newDefault.foldl_put _) hbytes.1
  rw [hsent]
  exact hbytes.2

/-- A kept connection has no length announced, and one that is closed is announced to be kept. -/
theorem not_truthful_options (keepAlive : Bool) (bodySize : ℕ) :
    ¬ Truthful (sentHeader (generateOPTIONSResponseHeader .newDefault)) (stateAfter keepAlive)
      bodySize := by
  intro h
  obtain ⟨hfield, hlength⟩ := header_options
  have hkept := h.keepAlive_iff.mp hfield
  exact hlength bodySize (h.length_mem hkept)

/-- A refusal announces that the connection is closed. -/
theorem truthful_error_iff (keepAlive : Bool) (bodySize : ℕ) :
    Truthful (sentHeader (generateErrorResponseHeader 501 (ascii "Not Implemented") .newDefault))
      (stateAfter keepAlive) bodySize ↔ keepAlive = false := by
  constructor
  · intro h
    have hclosed := h.close_iff.mp header_error
    cases keepAlive with
    | false => rfl
    | true => cases hclosed
  · rintro rfl
    have hclosed : stateAfter false ≠ .readHeader := by decide
    refine ⟨?_, ?_, fun h => absurd h hclosed, fun h => absurd h hclosed⟩
    · rw [header_error]
      decide
    · rw [header_error]
      decide

/-! ## Requests that are answered -/

variable [IntOverflow] {ω : Type}

/-- What `ExecuteRequest` leaves to be written, by the method of the request. -/
theorem executeRequest_header {s : ServerConnection (HttpFields ω) ω HttpExecuted} {rest : Bytes}
    (hbehind : s.message.Behind rest) (hidle : Idle s) :
    wp executeRequest (fun answered s' => answered = true →
        s'.connectionState = .writeResponse ∧ s'.keepAlive = s.keepAlive ∧
        s'.headerBytesWritten = 0 ∧ s'.resultBytesWritten = 0 ∧
        (s.derived.httpRequestState.derived.method = ascii "POST" → ∃ h handlers,
          selectHandler s.derived.httpRequestState.contentType s.derived.handlers =
            some (h, handlers) ∧
          s'.response.bytes =
            (h.handler (s.message.body s.message.contentLength) s.world).response ∧
          s'.header = generatePOSTResponseHeader s'.response.length h.responseContentType s.keepAlive
            .newDefault) ∧
        (s.derived.httpRequestState.derived.method = ascii "OPTIONS" →
          s'.header = generateOPTIONSResponseHeader .newDefault) ∧
        (s.derived.httpRequestState.derived.method ≠ ascii "POST" →
          s.derived.httpRequestState.derived.method ≠ ascii "OPTIONS" →
          s'.header = generateErrorResponseHeader 501 (ascii "Not Implemented") .newDefault))
      (fun _ _ => False) s := by
  have hother : ascii "POST" ≠ ascii "OPTIONS" := by decide
  rw [executeRequest, wp_bind, wp_get]
  simp only
  rw [wp_ite]
  refine ⟨fun hpost => ?_, fun hpost => ?_⟩
  · cases hselect : selectHandler s.derived.httpRequestState.contentType s.derived.handlers with
    | none =>
      simp only
      refine wp_mono (wp_giveUp_moved s) (fun _ _ h hanswered => ?_) fun _ _ h => h
      cases h.1.symm.trans hanswered
    | some selected =>
      obtain ⟨h, handlers⟩ := selected
      simp only
      have hfit : (h.handler (s.message.body s.message.contentLength) s.world).request.length ≤
          s.message.contentLength := by
        rw [Reply.length_request]
        exact MessageBuffer.length_body_le _ _
      obtain ⟨m, hm, -⟩ := hbehind.store hfit
      rw [wp_bind, wp_store hm, wp_bind, wp_modify, wp_bind, wp_modify, executeRequest.finish, wp_bind,
        wp_modify, wp_pure]
      refine fun _ => ⟨rfl, rfl, hidle.headerBytesWritten, hidle.resultBytesWritten,
        fun _ => ⟨h, handlers, rfl, ?_, ?_⟩,
        fun hoptions => absurd (hpost.symm.trans hoptions) hother, fun hne => absurd hpost hne⟩
      · simp only [hidle.response, WriteSegmentedStream.bytes_put]
        rfl
      · simp only [hidle.header]
  · rw [wp_ite]
    refine ⟨fun hoptions => ?_, fun hoptions => ?_⟩
    · rw [wp_bind, wp_modify, executeRequest.finish, wp_bind, wp_modify, wp_pure]
      refine fun _ => ⟨rfl, rfl, hidle.headerBytesWritten, hidle.resultBytesWritten,
        fun h => absurd h hpost, fun _ => ?_, fun _ hne => absurd hoptions hne⟩
      simp only [hidle.header]
    · rw [wp_bind, wp_modify, executeRequest.finish, wp_bind, wp_modify, wp_pure]
      refine fun _ => ⟨rfl, rfl, hidle.headerBytesWritten, hidle.resultBytesWritten,
        fun h => absurd h hpost, fun h => absurd h hoptions, fun _ _ => ?_⟩
      simp only [hidle.header]

/-- Where a request is answered and its response is written, what is sent of the header, the state in
which that leaves the connection and the number of bytes of the body that are sent satisfy a
predicate. -/
def Answered (executeAfterRead : Bool) (s : ServerConnection (HttpFields ω) ω HttpExecuted)
    (P : Bytes → ConnectionState → ℕ → Prop) : Prop :=
  wp executeRequest (fun answered s₁ => answered = true →
    wp writeResponse (fun _ s₂ => s₂.connectionState = .readHeader →
      ∃ more s₃ body, processState readHeader executeRequest executeAfterRead s₁ = .ok more s₃ ∧
        s₃.socket.sent = s₁.socket.sent ++ (sentHeader s₁.header ++ body) ∧
        P (sentHeader s₁.header) s₃.connectionState body.length)
      (fun _ _ => True) s₁)
    (fun _ _ => False) s

/-- What is so of every answer. -/
theorem Answered.mono {executeAfterRead : Bool}
    {s : ServerConnection (HttpFields ω) ω HttpExecuted} {P Q : Bytes → ConnectionState → ℕ → Prop}
    (h : Answered executeAfterRead s P) (hPQ : ∀ header state n, P header state n → Q header state n) :
    Answered executeAfterRead s Q := by
  refine wp_mono h (fun answered s₁ hdone hanswered => ?_) fun _ _ h => h
  refine wp_mono (hdone hanswered) (fun kept s₂ hwritten hstate => ?_) fun _ _ h => h
  obtain ⟨more, s₃, body, hprocess, hsent, hP⟩ := hwritten hstate
  exact ⟨more, s₃, body, hprocess, hsent, hPQ _ _ _ hP⟩

/-- The requests that are answered with a header that announces what is done: a POST, where the
connection closes or the header for the response of the selected handler fits, and a request with an
unknown method on a connection that is not to be kept. -/
def AnsweredTruthfully (s : ServerConnection (HttpFields ω) ω HttpExecuted) : Prop :=
  let request := s.derived.httpRequestState
  if request.derived.method = ascii "POST" then
    s.keepAlive = true → ∀ h handlers,
      selectHandler request.contentType s.derived.handlers = some (h, handlers) →
        HeaderFits (h.handler (s.message.body s.message.contentLength) s.world).response.length
          h.responseContentType
  else request.derived.method ≠ ascii "OPTIONS" ∧ s.keepAlive = false

/-- A handler that answers every request with its body, in a content type, and leaves null bytes in the
place of the body. -/
def echo (responseContentType : Bytes) : RpcContentHandler Unit where
  handler request world := {
    request := List.replicate request.length 0
    response := request
    sendResponse := true
    world
    length_request := List.length_replicate }
  canProcessContentType _ := true
  responseContentType

/-- A connection that is about to execute a request with the body `hi`. -/
def requestOn (method responseContentType : Bytes) (keepAlive : Bool) :
    ServerConnection (HttpFields Unit) Unit HttpExecuted where
  socket := { attempts := List.replicate 3 ⟨.accepted 0, 0, true⟩ }
  connectionState := .executeRequest
  message := {
    buffer := List.replicate (maxBufferLength + 1) 0
    content := .allocated
    block := ascii "hi" ++ [0]
    contentLength := 2
    contentAvail := 2 }
  keepAlive
  derived := {
    httpRequestState := { keepAlive, derived := { method } }
    handlers := [echo responseContentType] }
  world := ()

section

variable (method responseContentType : Bytes) (keepAlive : Bool)

omit [IntOverflow] in
theorem behind_requestOn : (requestOn method responseContentType keepAlive).message.Behind [] :=
  ⟨List.length_replicate, .inr ⟨rfl, Nat.lt_add_one 2, rfl⟩⟩

omit [IntOverflow] in
theorem idle_requestOn : Idle (requestOn method responseContentType keepAlive) :=
  ⟨rfl, rfl, rfl, rfl⟩

end

/-- A request is answered, and its response is written. -/
def Written (s : ServerConnection (HttpFields ω) ω HttpExecuted) : Prop :=
  wp executeRequest (fun answered s₁ => answered = true ∧
    wp writeResponse (fun _ s₂ => s₂.connectionState = .readHeader) (fun _ _ => False) s₁)
    (fun _ _ => False) s

/-- There is an answer with what is so of every one. -/
theorem Answered.exists {executeAfterRead : Bool}
    {s : ServerConnection (HttpFields ω) ω HttpExecuted} {P : Bytes → ConnectionState → ℕ → Prop}
    (h : Answered executeAfterRead s P) (hwritten : Written s) :
    ∃ s₁ more s₃ body, executeRequest s = .ok true s₁ ∧
      processState readHeader executeRequest executeAfterRead s₁ = .ok more s₃ ∧
      s₃.socket.sent = s₁.socket.sent ++ (sentHeader s₁.header ++ body) ∧
      P (sentHeader s₁.header) s₃.connectionState body.length := by
  have hboth := wp_and hwritten h
  unfold wp at hboth
  cases hrun : executeRequest s with
  | error e s₁ =>
    rw [hrun] at hboth
    exact hboth.1.elim
  | ok answered s₁ =>
    rw [hrun] at hboth
    obtain ⟨⟨rfl, hwrite⟩, hdone⟩ := hboth
    have hwrite := wp_and hwrite (hdone rfl)
    unfold wp at hwrite
    cases hsend : writeResponse s₁ with
    | error e s₂ =>
      rw [hsend] at hwrite
      exact hwrite.1.elim
    | ok kept s₂ =>
      rw [hsend] at hwrite
      obtain ⟨more, s₃, body, hprocess, hsent, hP⟩ := hwrite.2 hwrite.1
      exact ⟨s₁, more, s₃, body, rfl, hprocess, hsent, hP⟩

end HttpConnection

end AnyRpc
