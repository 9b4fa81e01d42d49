import AnyRpc.Client.Send
import AnyRpc.Client.Text
import AnyRpc.Connection.Tcp

/-! # Requests that are written again

When the first `WriteRequest` gives up, the part of the message that is delivered is in the hands of the
server, and the client writes the request to a new connection. Over HTTP the server executes nothing of
it. Over TCP the comma is the last byte of a message, and the server does not wait for it. -/

namespace AnyRpc

open Library ServerConnection

/-! ## Over TCP -/

namespace TcpClient

variable [IntOverflow] {ω υ π : Type}

/-- What a server reads in the header of a frame. -/
def lengthRead (request : Bytes) : ℤ := atoi (decimal request.length ++ [0x3a])

/-- What is delivered of a frame holds as many bytes of the request as the server takes it to have,
and it takes such a request. -/
def Executable (request delivered : Bytes) : Prop :=
  0 < lengthRead request ∧ toSize (lengthRead request) ≤ maxContentLength ∧
    (decimal request.length).length + 1 + toSize (lengthRead request) ≤ delivered.length

instance (request delivered : Bytes) : Decidable (Executable request delivered) :=
  inferInstanceAs (Decidable (_ ∧ _ ∧ _))

/-- Where the length is a number for an `int`, only the comma is missing. -/
theorem executable_iff {request delivered : Bytes} (hlength : request.length < 2 ^ 31)
    (hcut : delivered <+: frame request) (hne : delivered ≠ frame request) :
    Executable request delivered ↔ 1 ≤ request.length ∧ request.length ≤ maxContentLength ∧
      delivered ++ [0x2c] = frame request := by
  have hread : lengthRead request = request.length := atoi_decimal hlength []
  have hsize : toSize (request.length : ℤ) = request.length := by
    rw [toSize]
    omega
  have hframe : frame request = (decimal request.length ++ 0x3a :: request) ++ [0x2c] := by
    rw [frame_eq]
    simp
  have hlengths : (decimal request.length ++ 0x3a :: request).length =
      (decimal request.length).length + 1 + request.length := by
    rw [List.length_append, List.length_cons]
    omega
  rw [Executable, hread, hsize]
  refine and_congr Int.natCast_pos (and_congr_right fun _ => ?_)
  constructor
  · intro hle
    obtain ⟨l, hl⟩ := hcut
    obtain ⟨c, l, rfl⟩ := List.exists_cons_of_ne_nil (l := l) (by
      rintro rfl
      exact hne (by rw [← hl, List.append_nil]))
    have htotal := congrArg List.length (hl.trans hframe)
    rw [List.length_append, List.length_append, List.length_cons, List.length_singleton,
      hlengths] at htotal
    obtain rfl : l = [] := List.eq_nil_of_length_eq_zero (by omega)
    obtain ⟨-, hc⟩ := List.append_inj' (hl.trans hframe) rfl
    rw [← hl, hc]
  · intro heq
    obtain ⟨rfl, -⟩ := List.append_inj' (heq.trans hframe) rfl
    rw [hlengths]

omit [IntOverflow] in
/-- A header of digits fits the buffer. -/
theorem length_front_le (d : TcpFields) {n : ℕ} (hn : n < 2 ^ 64) :
    ((if d.commaExpected then [0x2c] else []) ++ decimal n ++ [0x3a] : Bytes).length ≤
      maxBufferLength := by
  obtain ⟨hdigits, -⟩ := length_decimal_le (n := n) (k := 20) (by decide) (hn.trans (by decide))
  have hcomma : (if d.commaExpected then [0x2c] else [] : Bytes).length ≤ 1 := by
    cases d.commaExpected <;> decide
  rw [List.length_append, List.length_append, List.length_singleton, maxBufferLength]
  omega

open TcpConnection in
/-- Nothing happens at a part of a frame, unless it can be executed. -/
theorem events_cut_iff (handler : RpcHandler ω) (d : TcpFields) (world : ω) {request delivered : Bytes}
    (hlength : request.length < 2 ^ 64) (hcut : delivered <+: frame request) :
    (service handler).framing.events (d, world)
        ((if d.commaExpected then [0x2c] else []) ++ delivered) = [] ↔
      ¬ Executable request delivered := by
  have hnotMem : (0x3a : UInt8) ∉ (if d.commaExpected then [0x2c] else [] : Bytes) := by
    cases d.commaExpected <;> decide
  have hfits := length_front_le d hlength
  have hhead := head_number d request.length
  generalize (if d.commaExpected then [0x2c] else [] : Bytes) = comma at hfits hhead hnotMem ⊢
  have hframe : frame request = (decimal request.length ++ [0x3a]) ++ (request ++ [0x2c]) := by
    rw [frame_eq]
    simp
  rw [hframe] at hcut
  by_cases hshort : delivered.length ≤ (decimal request.length).length
  · -- The colon has not arrived.
    have hdigits : delivered <+: decimal request.length :=
      List.prefix_of_prefix_length_le hcut
        ((List.prefix_append _ _).trans (List.prefix_append _ _)) hshort
    have hcolon : (0x3a : UInt8) ∉ (comma ++ delivered).take maxBufferLength := by
      intro hmem
      rcases List.mem_append.mp (List.mem_of_mem_take hmem) with hmem | hmem
      · exact hnotMem hmem
      · exact notMem_decimal (by decide) _ (hdigits.subset hmem)
    have hincomplete : (service handler).head d ((comma ++ delivered).take maxBufferLength) =
        .incomplete := by
      show head d _ = _
      rw [head, findChar_of_notMem hcolon]
    have hwait : (service handler).look (d, world) (comma ++ delivered) = .wait := by
      rw [Service.look, hincomplete]
    refine iff_of_true (Framing.events_of_wait hwait) ?_
    rintro ⟨-, -, hle⟩
    omega
  · obtain ⟨t, rfl⟩ : decimal request.length ++ [0x3a] <+: delivered := by
      refine List.prefix_of_prefix_length_le (List.prefix_append _ _) hcut ?_
      rw [List.length_append, List.length_singleton]
      omega
    have hstream : comma ++ (decimal request.length ++ [0x3a] ++ t) =
        (comma ++ decimal request.length ++ [0x3a]) ++ t := by
      simp
    rw [hstream, Executable, lengthRead]
    generalize hnumber : atoi (decimal request.length ++ [0x3a]) = z at hhead ⊢
    have hsplit : (decimal request.length ++ [0x3a] ++ t).length + comma.length =
        ((comma ++ decimal request.length ++ [0x3a]) ++ t).length := by
      simp only [List.length_append]
      omega
    have hfront : (comma ++ decimal request.length ++ [0x3a]).length =
        comma.length + (decimal request.length).length + 1 := by
      rw [List.length_append, List.length_append, List.length_singleton]
    generalize comma ++ decimal request.length ++ [0x3a] = header at hhead hfits hsplit hfront ⊢
    have hfull : (service handler).head d (header.take maxBufferLength) =
        if z ≤ 0 then .fault
        else .complete header.length (toSize z) true { commaExpected := true } := by
      rw [List.take_of_length_le hfits]
      exact hhead
    by_cases hz : z ≤ 0
    · rw [if_pos hz] at hfull
      have hstop : (service handler).look (d, world) (header ++ t) = .stop := by
        rw [Service.look, Service.head_of_append (σ := (d, world)) hfull (by simp)]
      refine iff_of_true (Framing.events_of_stop hstop) ?_
      rintro ⟨hpos, -, -⟩
      omega
    · rw [if_neg hz] at hfull
      have hcomplete := Service.head_of_append (σ := (d, world)) (l := t) hfull (by simp)
      by_cases hmax : maxContentLength < toSize z
      · have hstop : (service handler).look (d, world) (header ++ t) = .stop := by
          rw [Service.look, hcomplete]
          exact if_pos hmax
        refine iff_of_true (Framing.events_of_stop hstop) ?_
        rintro ⟨-, hle, -⟩
        omega
      · by_cases hpart : (header ++ t).length < header.length + toSize z
        · have hwait := look_of_short hcomplete (not_lt.mp hmax) hpart
          refine iff_of_true (Framing.events_of_wait hwait) ?_
          rintro ⟨-, -, hle⟩
          omega
        · have hlook := look_of_complete hcomplete (not_lt.mp hmax) (not_lt.mp hpart)
          refine iff_of_false ?_ (not_not_intro ⟨not_le.mp hz, not_lt.mp hmax, by omega⟩)
          simp only [service, Bool.not_true, Bool.and_false, Bool.false_eq_true, if_false] at hlook
          rw [Framing.events_of_next (F := (service handler).framing) hlook]
          exact List.cons_ne_nil _ _

open TcpConnection in
/-- Behind the frames of other requests, the part of a frame is executed or not. -/
theorem requests_cut_iff (handler : RpcHandler ω) (world : ω) {ps : List Bytes}
    (hps : ∀ p ∈ ps, 1 ≤ p.length ∧ p.length ≤ maxContentLength) {request delivered : Bytes}
    (hlength : request.length < 2 ^ 64) (hcut : delivered <+: frame request) :
    requests handler world ((ps.map frame).flatten ++ delivered) = ps ↔
      ¬ Executable request delivered := by
  obtain ⟨es, d, world', hes, hmap, -⟩ := receives_frames_rest handler ps hps {} world
  rw [← events_cut_iff handler d world' hlength hcut]
  obtain ⟨rest, hrest, hsettled⟩ := (service handler).framing.exists_receives_events (d, world')
    ((if d.commaExpected then [0x2c] else []) ++ delivered)
  have hevents := ((hes.append delivered).trans hrest).eq_events hsettled
  simp only [Bool.false_eq_true, if_false, List.nil_append] at hevents
  rw [requests, ← hevents, List.map_append, hmap]
  constructor
  · intro h
    exact List.map_eq_nil_iff.mp (List.append_right_eq_self.mp h)
  · intro h
    rw [h, List.map_nil, List.append_nil]

omit [IntOverflow] in
/-- The streams of a client hold a frame. -/
theorem bytes_generateHeader {header : WriteSegmentedStream} (hheader : header.bytes = [])
    (stream : WriteSegmentedStream) :
    (generateHeader header stream).1.bytes ++ (generateHeader header stream).2.bytes =
      frame stream.bytes := by
  rw [frame_eq]
  simp [generateHeader, WriteSegmentedStream.length, hheader]

/-- When the first `WriteRequest` gives up, a part of a frame is delivered. -/
theorem cut_of_givesUp {client : ClientHandler π υ} {peer : Client.Peer} {p : π} {notification : Bool}
    {s : Client TcpFields υ} {delivered : Bytes}
    (h : Client.GivesUp transport client peer p notification s delivered) :
    delivered <+: frame (Client.generated client p notification s) ∧
      delivered ≠ frame (Client.generated client p notification s) := by
  obtain ⟨s₁, ⟨header, stream, hheader, hstream, hstreams⟩, hcut⟩ := h.cut
  have hbytes := bytes_generateHeader hheader stream
  obtain ⟨hheader', hstream'⟩ := Prod.mk.inj hstreams
  rw [hstream] at hbytes
  rw [← hbytes]
  rw [hheader', hstream'] at hcut
  exact hcut

end TcpClient

namespace TcpConnection

variable [IntOverflow] {ω : Type}

/-- In whatever way a stream arrives, what is executed of it comes first among these requests. -/
def ExecutesOnly (handler : RpcHandler ω) (world : ω) (stream : Bytes) (ps : List Bytes) : Prop :=
  ∀ d : Delivery, wp (serve (TcpConnection.process handler) (d.calls ++ [true]))
    (fun _ s => s.executed <+: ps) (fun _ s => s.executed <+: ps) (d.accepted stream {} world)

theorem executesOnly_requests (handler : RpcHandler ω) (world : ω) (stream : Bytes) :
    ExecutesOnly handler world stream (requests handler world stream) := by
  intro d
  have hseen : (service handler).Seen {} {} [] := rfl
  refine wp_mono (d.serve_follows (readHeader_spec handler) (executeRequest_spec handler) hseen stream
    world) ?_ fun stop s hwaiting => hwaiting.2.2
  rintro _ s ⟨es, rest, hquiet⟩
  exact hquiet.executed_prefix

end TcpConnection

/-! ## Over HTTP -/

namespace HttpConnection

variable [IntOverflow] {ω : Type}

/-- In whatever way a stream arrives, what is executed of it comes first among these requests. -/
def ExecutesOnly (handlers : List (RpcContentHandler ω)) (world : ω) (stream : Bytes)
    (ps : List HttpExecuted) : Prop :=
  ∀ d : Delivery, wp (serve HttpConnection.process (d.calls ++ [true]))
    (fun _ s => s.executed <+: ps) (fun _ s => s.executed <+: ps)
    (d.accepted stream ⟨.initial, handlers⟩ world)

theorem executesOnly_requests (handlers : List (RpcContentHandler ω)) (world : ω) (stream : Bytes) :
    ExecutesOnly handlers world stream (requests handlers world stream) := by
  intro d
  have hseen : service.Seen (⟨.initial, handlers⟩ : HttpFields ω) ⟨.initial, handlers⟩ [] :=
    service.seen_initializeData ⟨.initial, handlers⟩ []
  refine wp_mono (d.serve_follows readHeader_spec executeRequest_spec hseen stream world) ?_
    fun stop s hwaiting => hwaiting.2.2
  rintro _ s ⟨es, rest, hquiet⟩
  exact hquiet.executed_prefix

end HttpConnection

namespace HttpClient

variable [IntOverflow] {ω υ π : Type} {contentType host : Bytes} {port : ℕ}

/-- When the first `WriteRequest` gives up, a part of the text is delivered, and not all of it. -/
theorem cut_of_givesUp {client : ClientHandler π υ} {peer : Client.Peer} {p : π} {notification : Bool}
    {s : Client HttpResponse υ} {delivered : Bytes}
    (h : Client.GivesUp (transport contentType host port) client peer p notification s delivered) :
    delivered <+: text contentType host port (Client.generated client p notification s) ∧
      delivered ≠ text contentType host port (Client.generated client p notification s) := by
  obtain ⟨s₁, ⟨header, stream, hheader, hstream, hstreams⟩, hcut⟩ := h.cut
  have hbytes := bytes_generateHeader contentType host port hheader stream
  obtain ⟨hheader', hstream'⟩ := Prod.mk.inj hstreams
  rw [WriteSegmentedStream.length, hstream] at hbytes
  rw [text_eq, ← hbytes, ← hstream]
  rw [hheader', hstream'] at hcut
  exact hcut

/-- Behind the texts of other requests, nothing of a part of a text is executed. -/
theorem requests_cut (handlers : List (RpcContentHandler ω)) (world : ω)
    (htype : (0x0a : UInt8) ∉ contentType) (hhost : (0x0a : UInt8) ∉ host) {ps : List Bytes}
    (hps : ∀ p ∈ ps, p.length < 2 ^ 31) {request delivered : Bytes} (hlength : request.length < 2 ^ 31)
    (hcut : delivered <+: text contentType host port request)
    (hne : delivered ≠ text contentType host port request) :
    HttpConnection.requests handlers world
        ((ps.map (text contentType host port)).flatten ++ delivered) =
      HttpConnection.requests handlers world (ps.map (text contentType host port)).flatten := by
  rw [HttpConnection.requests, HttpConnection.requests]
  refine congrArg (List.map Prod.fst) (Framing.events_append_of_cut (fun m hm σ => ?_)
    (whole_text hhost htype port hlength) hcut hne _)
  obtain ⟨p, hp, rfl⟩ := List.mem_map.mp hm
  exact whole_text hhost htype port (hps p hp) σ

end HttpClient

/-! ## The retry -/

open Client in
/-- When the first `WriteRequest` of `Call`, `Post` or `Notify` gives up, the server executes nothing of
what is delivered of the request: over TCP exactly if it is not executable, and over HTTP in any case. -/
theorem retried_request_iff [IntOverflow] {ω υ π : Type} (client : ClientHandler π υ)
    (peer : Client.Peer) (p : π) (notification : Bool) (world : ω) :
    (∀ (handler : RpcHandler ω) (ps : List Bytes),
      (∀ q ∈ ps, 1 ≤ q.length ∧ q.length ≤ maxContentLength) →
      ∀ (s : Client TcpFields υ) (delivered : Bytes),
        GivesUp TcpClient.transport client peer p notification s delivered →
        (generated client p notification s).length < 2 ^ 64 →
        let stream := (ps.map TcpClient.frame).flatten ++ delivered
        let executable := TcpClient.Executable (generated client p notification s) delivered
        (TcpConnection.requests handler world stream = ps ↔ ¬ executable) ∧
          (¬ executable → TcpConnection.ExecutesOnly handler world stream ps)) ∧
    (∀ (handlers : List (RpcContentHandler ω)) (contentType host : Bytes) (port : ℕ),
      (0x0a : UInt8) ∉ contentType → (0x0a : UInt8) ∉ host →
      ∀ ps : List Bytes, (∀ q ∈ ps, q.length < 2 ^ 31) →
      ∀ (s : Client HttpResponse υ) (delivered : Bytes),
        GivesUp (HttpClient.transport contentType host port) client peer p notification s delivered →
        (generated client p notification s).length < 2 ^ 31 →
        let before := (ps.map (HttpClient.text contentType host port)).flatten
        HttpConnection.requests handlers world (before ++ delivered) =
            HttpConnection.requests handlers world before ∧
          HttpConnection.ExecutesOnly handlers world (before ++ delivered)
            (HttpConnection.requests handlers world before)) := by
  constructor
  · intro handler ps hps s delivered hgives hlength stream executable
    have hiff : TcpConnection.requests handler world stream = ps ↔ ¬ executable :=
      TcpClient.requests_cut_iff handler world hps hlength (TcpClient.cut_of_givesUp hgives).1
    refine ⟨hiff, fun hnot => ?_⟩
    have honly := TcpConnection.executesOnly_requests handler world stream
    rwa [hiff.mpr hnot] at honly
  · intro handlers contentType host port htype hhost ps hps s delivered hgives hlength before
    obtain ⟨hcut, hne⟩ := HttpClient.cut_of_givesUp hgives
    have hsame := HttpClient.requests_cut handlers world htype hhost hps hlength hcut hne
    refine ⟨hsame, ?_⟩
    have honly := HttpConnection.executesOnly_requests handlers world (before ++ delivered)
    rwa [hsame] at honly

namespace Client

/-- A client of which a request is a text, for an example. -/
def echo : ClientHandler Bytes Unit where
  generateRequest request _ n := ⟨true, request, n, n + 1⟩
  processResponse (response : List UInt8) _ := ⟨.success, .null, response, rfl⟩

/-- A client that is not connected yet, with what the kernel is going to answer to `Send`. -/
def fresh {ρ : Type} (derived : ρ) (attempts : List SendAttempt) : Client ρ Unit where
  checks := [true]
  timeLeft := [1, 1, 1]
  socket := { attempts }
  message := { buffer := [], heap := fun _ => 0 }
  derived := derived

end Client

open Client in
/-- The last byte of a message is not accepted in time: the server executes the request, which the client
is going to write again. -/
theorem not_retried_once :
    let _ := IntOverflow.truncate
    let handler : RpcHandler Unit := fun request world => ⟨request, [], false, world, rfl⟩
    let request := ascii "add"
    let s := fresh {} [⟨.accepted 0, 0, true⟩, ⟨.accepted 1, 1, true⟩]
    let server := accepted (List.replicate (maxBufferLength + 1) 0) (fun _ => 0) {}
      ⟨ascii "3:add", [⟨.arrived 5, 0, true⟩]⟩ {} ()
    (¬ ∀ delivered, GivesUp TcpClient.transport echo (fun _ => []) request false s delivered →
      TcpConnection.requests handler () delivered = []) ∧
    wp (serve (TcpConnection.process handler) [true]) (fun _ s => s.executed = [request])
      (fun _ _ => False) server := by
  intro _ handler request s server
  refine ⟨fun hall => ?_, by decide +kernel⟩
  have hrun : GivesUp TcpClient.transport echo (fun _ => []) request false s (ascii "3:add") :=
    givesUp_of_wp (by decide +kernel)
  have hexecuted : TcpConnection.requests handler () (ascii "3:add") = [request] := by decide +kernel
  rw [hall _ hrun] at hexecuted
  cases hexecuted

open Client in
/-- A request that is cut behind its header over TCP, and in its body over HTTP behind another one that
is complete, is executed by neither server. -/
theorem retried_request_cut :
    let _ := IntOverflow.truncate
    let handler : RpcHandler Unit := fun request world => ⟨request, [], false, world, rfl⟩
    let handlers := [⟨handler, fun _ => true, ascii "json"⟩]
    let text := HttpClient.text (ascii "json") (ascii "127.0.0.1") 80
    TcpConnection.requests handler () (ascii "3:") = [] ∧
      HttpConnection.requests handlers () (text (ascii "sub") ++ (text (ascii "add")).dropLast) =
        [⟨ascii "POST", ascii "json", ascii "sub"⟩] := by
  intro _ handler handlers text
  have htheorem := retried_request_iff echo (fun _ => []) (ascii "add") false ()
  constructor
  · refine ((htheorem.1 handler [] (fun _ h => by cases h)
      (fresh {} [⟨.accepted 0, 0, true⟩, ⟨.failed true, 0, true⟩]) (ascii "3:")
      (givesUp_of_wp (by decide +kernel)) (by decide)).1).mpr ?_
    decide +kernel
  · have hcut := (htheorem.2 handlers (ascii "json") (ascii "127.0.0.1") 80 (by decide) (by decide)
      [ascii "sub"] (by decide)
      (fresh .initial [⟨.accepted 0, 0, true⟩, ⟨.accepted 1, 1, true⟩]) (text (ascii "add")).dropLast
      (givesUp_of_wp (by decide +kernel)) (by decide)).1
    rw [List.map_singleton, List.flatten_singleton] at hcut
    exact hcut.trans (by decide +kernel)

end AnyRpc
