import AnyRpc.Client.Client
import AnyRpc.Connection.Bounds

/-! # Responses that are complete

A client hands a response over when `ReadResponse` has returned true, which says less than that the
response is there: `TcpSocket::Receive` also returns true when the time is over. -/

namespace AnyRpc

open Library

namespace Client

variable {ρ υ π : Type}

/-! ## What leaves the record of responses -/

/-- A store changes the buffer. -/
theorem leaves_store (f : MessageBuffer → Option MessageBuffer) :
    Leaves handed (store f : ClientM ρ υ Unit) := by
  intro s
  unfold store
  cases f s.message <;> rfl

/-- `GetTimeLeft` leaves what does not depend on the time. -/
theorem leaves_getTimeLeft_of {γ : Type} {f : Client ρ υ → γ}
    (h : ∀ s timeLeft, f { s with timeLeft } = f s) : Leaves f (getTimeLeft : ClientM ρ υ ℕ) := by
  intro s
  unfold getTimeLeft
  cases s.timeLeft with
  | nil => rfl
  | cons t timeLeft => exact h s timeLeft

/-- `GetTimeLeft` hands nothing over. -/
theorem leaves_getTimeLeft : Leaves handed (getTimeLeft : ClientM ρ υ ℕ) :=
  leaves_getTimeLeft_of fun _ _ => rfl

/-- `IsConnected` leaves what does not depend on the answers of the kernel. -/
theorem leaves_isConnected_of {γ : Type} {f : Client ρ υ → γ}
    (h : ∀ s checks, f { s with checks } = f s) : Leaves f (isConnected : ClientM ρ υ Bool) := by
  intro s
  unfold isConnected
  by_cases hopened : s.opened
  · rw [if_pos hopened]
    cases s.checks with
    | nil => rfl
    | cons check checks => exact h s checks
  · rw [if_neg hopened]
    rfl

/-- `IsConnected` hands nothing over. -/
theorem leaves_isConnected : Leaves handed (isConnected : ClientM ρ υ Bool) :=
  leaves_isConnected_of fun _ _ => rfl

/-- `Receive` into the buffer. -/
theorem leaves_receive (storeAt : Bytes → MessageBuffer → Option MessageBuffer)
    (maxLength timeout : ℕ) :
    Leaves handed (receive storeAt maxLength timeout : ClientM ρ υ Received) := by
  refine .bind .get fun s => ?_
  cases s.incoming.receive maxLength timeout with
  | none => exact .throw _
  | some received =>
    exact .bind (.modify fun _ => rfl) fun _ => .bind (leaves_store _) fun _ => .pure _

/-- `Send` of a buffer. -/
theorem leaves_send (buffer : Bytes) (timeout : ℕ) :
    Leaves handed (send buffer timeout : ClientM ρ υ (Bool × ℕ)) := by
  intro s
  unfold send
  cases TcpSocket.send buffer { s.socket with timeout } <;> rfl

/-- The header of a derived class is read without a response being handed over. -/
def Frames (transport : ClientTransport ρ υ) : Prop :=
  ∀ eof, Leaves handed (transport.processHeader eof)

variable {transport : ClientTransport ρ υ} {handler : ClientHandler π υ} {peer : Peer}

/-- `Close` of the socket. -/
theorem leaves_close : Leaves handed (close transport) := .modify fun _ => rfl

/-- `ResetTransaction` of the class and of the derived one. -/
theorem leaves_resetTransaction : Leaves handed (resetTransaction transport) :=
  .modify fun _ => rfl

/-- What is received too much is moved to the front. -/
theorem leaves_preserveReceiveBuffer : Leaves handed (preserveReceiveBuffer : ClientM ρ υ Unit) :=
  .bind (leaves_store _) fun _ => .modify fun _ => rfl

/-- `Connect`, which may close first. -/
theorem leaves_connect : Leaves handed (connect transport) := by
  refine .bind leaves_isConnected fun connected => .ite (.pure _) ?_
  refine .bind leaves_close fun _ => .bind (.modify fun _ => rfl) fun _ => ?_
  refine .bind (.modify fun _ => rfl) fun _ => .bind leaves_getTimeLeft fun _ => ?_
  exact .bind leaves_isConnected fun _ => .ite (.pure _) (.bind (.modify fun _ => rfl) fun _ => .pure _)

/-- A request that is generated. -/
theorem leaves_generateRequest (p : π) (notification : Bool) :
    Leaves handed (generateRequest handler p notification : ClientM ρ υ Bool) :=
  .bind .get fun _ => .bind (.modify fun _ => rfl) fun _ => .pure _

/-- The segments of a stream are sent one after the other. -/
theorem leaves_writeStream (stream : WriteSegmentedStream) (fuel bytesWritten : ℕ) :
    Leaves handed (writeStream stream fuel bytesWritten : ClientM ρ υ Bool) := by
  induction fuel generalizing bytesWritten with
  | zero => exact .throw _
  | succ fuel ih =>
    refine .ite (.bind leaves_getTimeLeft fun _ => ?_) (.pure _)
    exact .bind (leaves_send _ _) fun _ => .ite (ih _) (.pure _)

/-- `WriteRequest`: the header and the body. -/
theorem leaves_writeRequest : Leaves handed (writeRequest peer : ClientM ρ υ Bool) := by
  refine .bind .get fun s => .bind (leaves_writeStream _ _ _) fun _ => .ite (.pure _) ?_
  refine .bind .get fun _ => .bind (leaves_writeStream _ _ _) fun _ => .ite (.pure _) ?_
  exact .bind (.modify fun _ => rfl) fun _ => .pure _

/-- Everything up to the request that is written, also for the second time. -/
theorem leaves_sendRequest (p : π) (notification : Bool) :
    Leaves handed (sendRequest transport handler peer p notification) := by
  refine .bind (.modify fun _ => rfl) fun _ => .bind leaves_preserveReceiveBuffer fun _ => ?_
  refine .bind leaves_resetTransaction fun _ => .bind leaves_connect fun _ => .ite (.pure _) ?_
  refine .bind (leaves_generateRequest _ _) fun _ => .ite (.pure _) ?_
  refine .bind (.modify fun _ => rfl) fun _ => .bind leaves_writeRequest fun _ => .ite (.pure _) ?_
  exact .bind leaves_close fun _ =>
    .bind leaves_connect fun _ => .ite (.pure _) leaves_writeRequest

/-- A failed operation resets the transaction. -/
theorem leaves_fail : Leaves handed (fail transport) := by
  refine .bind ?_ fun _ => .pure _
  refine .bind leaves_close fun _ => .bind (.modify fun _ => rfl) fun _ => ?_
  exact .bind leaves_resetTransaction fun _ => .modify fun _ => rfl

/-- The loop of `ReadHeader`. -/
theorem leaves_readHeaderLoop (h : Frames transport) (fuel : ℕ) :
    Leaves handed (readHeaderLoop transport fuel) := by
  induction fuel with
  | zero => exact .throw _
  | succ fuel ih =>
    refine .bind .get fun s => .bind (leaves_receive _ _ _) fun received => .ite (.pure _) ?_
    refine .bind (.modify fun _ => rfl) fun _ => .bind (h _) fun outcome => ?_
    cases outcome with
    | complete => exact .pure _
    | fault => exact .pure _
    | incomplete =>
      refine .bind leaves_getTimeLeft fun _ => .ite ?_ ih
      exact .bind (.modify fun _ => rfl) fun _ => .pure _

/-- `ReadHeader`. -/
theorem leaves_readHeader (h : Frames transport) : Leaves handed (readHeader transport) :=
  .bind .get fun _ => leaves_readHeaderLoop h _

/-- `ReadResponse`. -/
theorem leaves_readResponse : Leaves handed (readResponse : ClientM ρ υ Bool) := by
  refine .bind .get fun _ => .ite (.pure _) ?_
  refine .bind leaves_getTimeLeft fun _ => .bind (leaves_receive _ _ _) fun _ => ?_
  refine .bind (.modify fun _ => rfl) fun _ => .bind (leaves_store _) fun _ => ?_
  exact .ite (.bind (.modify fun _ => rfl) fun _ => .pure _) (.pure _)

/-! ## Reading the body -/

/-- The time is over before the body is there. -/
def BodyTimesOut (s : Client ρ υ) : Prop :=
  ∃ timeLeft later, s.message.contentAvail < s.message.contentLength ∧
    s.timeLeft = timeLeft :: later ∧
    s.incoming.TimesOut (s.message.contentLength - s.message.contentAvail) timeLeft

/-- A store that lies inside its block, or not. -/
theorem wp_store {f : MessageBuffer → Option MessageBuffer} {s : Client ρ υ}
    {Q : Unit → Client ρ υ → Prop} {E : Stop → Client ρ υ → Prop}
    (hE : f s.message = none → E .outOfBounds s)
    (hQ : ∀ message, f s.message = some message → Q () { s with message }) :
    wp (store f) Q E s := by
  unfold wp store
  cases hmessage : f s.message with
  | none => exact hE hmessage
  | some message => exact hQ message hmessage

/-- Where `Receive` returns, everything else than what it has read stays. -/
theorem wp_receive {storeAt : Bytes → MessageBuffer → Option MessageBuffer}
    {maxLength timeout : ℕ} {s : Client ρ υ} {Q : Received → Client ρ υ → Prop}
    {E : Stop → Client ρ υ → Prop} (hE : ∀ e s', E e s')
    (hQ : ∀ received incoming message,
      s.incoming.receive maxLength timeout = some (received, incoming) →
      message = s.message ∨ storeAt (received.data ++ [0]) s.message = some message →
        Q received { s with incoming, message }) :
    wp (receive storeAt maxLength timeout) Q E s := by
  rw [receive, wp_bind, wp_get]
  cases hreceive : s.incoming.receive maxLength timeout with
  | none => exact hE _ _
  | some result =>
    obtain ⟨received, incoming⟩ := result
    simp only [wp_bind, wp_modify]
    refine wp_store (fun _ => hE _ _) fun message hmessage =>
      hQ received incoming message hreceive ?_
    split at hmessage
    · exact .inl (Option.some.inj hmessage).symm
    · exact .inr hmessage

/-- `ReadResponse` returns true without the whole body exactly when the time is over before the body
is there. -/
theorem wp_readResponse (s : Client ρ υ) :
    wp readResponse (fun success s' =>
      success = true ∧ s'.message.contentAvail < s'.message.contentLength ↔ BodyTimesOut s)
      (fun _ _ => True) s := by
  rw [readResponse, wp_bind, wp_get, wp_ite]
  constructor
  · intro havail
    constructor
    · rintro ⟨-, hshort⟩
      exact absurd hshort (Nat.not_lt.mpr havail)
    · rintro ⟨_, _, hshort, -⟩
      exact absurd hshort (Nat.not_lt.mpr havail)
  · intro havail
    rw [Nat.not_le] at havail
    rw [wp_bind]
    cases htime : s.timeLeft with
    | nil =>
      simp only [wp, getTimeLeft, htime]
    | cons timeLeft later =>
      simp only [wp, getTimeLeft, htime]
      refine wp_seq (R := fun received s' => s'.message.contentLength = s.message.contentLength ∧
        (received.success = true ∧
          received.data.length < s.message.contentLength - s.message.contentAvail ↔
            s.incoming.TimesOut (s.message.contentLength - s.message.contentAvail) timeLeft)) ?_ ?_
      · refine wp_receive (fun _ _ => trivial) fun received incoming message hreceive hmessage => ?_
        refine ⟨?_, Incoming.receive_timesOut (Nat.sub_pos_of_lt havail) hreceive⟩
        rcases hmessage with rfl | hstore
        · rfl
        · exact (MessageBuffer.sameShape_of_storeContent hstore).contentLength
      · rintro received s₁ ⟨hlength, hout⟩
        rw [wp_bind, wp_modify, wp_bind]
        have houtcome : (received.success = true ∧
            s.message.contentAvail + received.data.length < s.message.contentLength) ↔
              BodyTimesOut s := by
          constructor
          · rintro ⟨hsuccess, hshort⟩
            exact ⟨timeLeft, later, havail, htime, hout.mp ⟨hsuccess, by omega⟩⟩
          · rintro ⟨timeLeft', later', -, htime', htimesOut⟩
            obtain ⟨rfl, rfl⟩ := List.cons.inj (htime.symm.trans htime')
            obtain ⟨hsuccess, hshort⟩ := hout.mpr htimesOut
            exact ⟨hsuccess, by omega⟩
        refine wp_store (fun _ => trivial) fun message hmessage => ?_
        have hshape := MessageBuffer.sameShape_of_storeContent hmessage
        have havail' := hshape.contentAvail
        have hlength' := hshape.contentLength.trans hlength
        rw [wp_ite]
        constructor
        · intro hfailed
          rw [wp_bind, wp_modify, wp_pure, ← houtcome]
          simp_all
        · intro hsuccess
          rw [wp_pure, ← houtcome, havail', hlength']
          simp_all

/-- `ProcessResponse` hands the response over. -/
theorem wp_processResponse (s : Client ρ υ) :
    wp (processResponse transport handler)
      (fun _ s' => ∃ h : Handed, s'.handed = s.handed ++ [h] ∧
        h.contentLength = s.message.contentLength ∧ h.contentAvail = s.message.contentAvail)
      (fun _ s' => s'.handed = s.handed) s := by
  rw [processResponse, wp_bind, wp_get, wp_bind]
  refine wp_store (fun _ => rfl) fun message hmessage => ?_
  have hshape := MessageBuffer.sameShape_of_storeContent hmessage
  rw [wp_bind, wp_modify, wp_ite]
  constructor
  · intro _
    exact ⟨_, rfl, hshape.contentLength, hshape.contentAvail⟩
  · intro _
    exact ⟨_, rfl, hshape.contentLength, hshape.contentAvail⟩

/-- What is handed over since a state is complete. -/
def CompleteSince (s s' : Client ρ υ) : Prop :=
  ∀ h ∈ s'.handed.drop s.handed.length, h.contentLength ≤ h.contentAvail

instance (s s' : Client ρ υ) : Decidable (CompleteSince s s') :=
  inferInstanceAs (Decidable (∀ h ∈ s'.handed.drop s.handed.length, _ ≤ _))

/-- Where nothing was handed over. -/
theorem completeSince_of_eq {s s' : Client ρ υ} (h : s'.handed = s.handed) : CompleteSince s s' := by
  intro r hr
  rw [h, List.drop_length] at hr
  cases hr

/-- Since two states that agree on what was handed over. -/
theorem completeSince_congr {s s₁ s' : Client ρ υ} (h : s₁.handed = s.handed) :
    CompleteSince s₁ s' ↔ CompleteSince s s' := by
  rw [CompleteSince, h]
  rfl

/-- Where one response was handed over. -/
theorem completeSince_append {s s' : Client ρ υ} {h : Handed} (heq : s'.handed = s.handed ++ [h]) :
    CompleteSince s s' ↔ h.contentLength ≤ h.contentAvail := by
  rw [CompleteSince, heq, List.drop_left]
  simp

end Client

namespace Operation

open Client

variable {ρ υ π : Type} (transport : ClientTransport ρ υ) (handler : ClientHandler π υ) (peer : Peer)

/-- What an operation does until the header of the response is there that it waits for. -/
def awaitHeader : Operation π → ClientM ρ υ Bool
  | .call p => do
    if !(← sendRequest transport handler peer p false) then return false else readHeader transport
  | .post _ => return false
  | .getPostResult => do
    modify fun s => { s with result := .invalid }
    if (← get).responseProcessed then
      preserveReceiveBuffer
      resetTransaction transport
    if !(← isConnected) then return false else readHeader transport
  | .notify p => do
    if !(← sendRequest transport handler peer p true) then return false
    else if !transport.hasNotifyResponse then return false
    else readHeader transport

/-- What it does then. -/
def finish : Operation π → ClientM ρ υ Bool
  | .notify _ => finishNotify transport
  | _ => Client.finish transport handler

/-- The time is over before the body is there that an operation waits for. -/
def CutShort (op : Operation π) (s : Client ρ υ) : Prop :=
  ∃ s₁, op.awaitHeader transport handler peer s = .ok true s₁ ∧ s₁.BodyTimesOut

/-- An operation fails with a transport fault. -/
def TransportFault (op : Operation π) (s : Client ρ υ) : Prop :=
  ∃ message s', op.run transport handler peer s = .ok false s' ∧
    s'.result = .fault transportError message

/-- An operation hands over what is complete, and fails when the body is cut short. -/
structure HandsComplete (op : Operation π) (s : Client ρ υ) : Prop where
  complete : wp (op.run transport handler peer) (fun _ => CompleteSince s) (fun _ => CompleteSince s) s
  fails : op.CutShort transport handler peer s → op.TransportFault transport handler peer s

variable {transport handler peer}

/-- Only `Post`, and `Notify` where there is no response to it, do not wait for a header. -/
def Awaits (transport : ClientTransport ρ υ) : Operation π → Prop
  | .post _ => False
  | .notify _ => transport.hasNotifyResponse = true
  | _ => True

/-- What follows a header may be moved out of the cases that come before it. -/
theorem awaiting_bind (before : ClientM ρ υ Bool) (next : ClientM ρ υ Bool) :
    (before >>= fun ok => if !ok then fail transport
      else readHeader transport >>= fun ok => if !ok then fail transport else next) =
    (before >>= fun ok => if !ok then pure false else readHeader transport) >>= fun ok =>
      if ok then next else fail transport := by
  rw [bind_assoc]
  congr 1
  funext ok
  cases ok with
  | false => rfl
  | true =>
    simp only [Bool.not_true, Bool.false_eq_true, if_false]
    congr 1
    funext complete
    cases complete <;> rfl

/-- An operation that waits for a header goes on behind it, or fails. -/
theorem run_eq {op : Operation π} (h : op.Awaits transport) :
    op.run transport handler peer = op.awaitHeader transport handler peer >>= fun complete =>
      if complete then op.finish transport handler else fail transport := by
  cases op with
  | call p => exact awaiting_bind _ _
  | post p => cases h
  | getPostResult =>
    rw [run, Client.getPostResult, awaitHeader, bind_assoc]
    congr 1
    funext _
    rw [bind_assoc]
    congr 1
    funext s
    cases s.responseProcessed with
    | false => exact awaiting_bind _ _
    | true =>
      simp only [if_true]
      rw [bind_assoc]
      congr 1
      funext _
      rw [bind_assoc]
      congr 1
      funext _
      exact awaiting_bind _ _
  | notify p =>
    have hresponse : transport.hasNotifyResponse = true := h
    simp only [run, Client.notify, awaitHeader, hresponse, Bool.not_true, Bool.false_eq_true,
      if_false]
    exact awaiting_bind _ _

/-- Nothing is handed over before the header is there. -/
theorem leaves_awaitHeader (h : Frames transport) (op : Operation π) :
    Leaves handed (op.awaitHeader transport handler peer) := by
  cases op with
  | call p => exact .bind (leaves_sendRequest _ _) fun _ => .ite (.pure _) (leaves_readHeader h)
  | post p => exact .pure _
  | getPostResult =>
    have hrest : Leaves handed (isConnected >>= fun ok : Bool =>
        if !ok then pure false else readHeader transport) :=
      .bind leaves_isConnected fun _ => .ite (.pure _) (leaves_readHeader h)
    refine .bind (.modify fun _ => rfl) fun _ => .bind .get fun s => .ite ?_ hrest
    exact .bind leaves_preserveReceiveBuffer fun _ => .bind leaves_resetTransaction fun _ => hrest
  | notify p =>
    exact .bind (leaves_sendRequest _ _) fun _ =>
      .ite (.pure _) (.ite (.pure _) (leaves_readHeader h))

/-- An operation that does not wait for a header hands nothing over. -/
theorem leaves_run {op : Operation π} (h : ¬ op.Awaits transport) :
    Leaves handed (op.run transport handler peer) := by
  cases op with
  | call p => exact absurd trivial h
  | post p => exact .bind (leaves_sendRequest _ _) fun _ => .ite leaves_fail (.pure _)
  | getPostResult => exact absurd trivial h
  | notify p =>
    have hresponse : transport.hasNotifyResponse = false := Bool.not_eq_true _ ▸ h
    simp only [run, Client.notify, hresponse, Bool.not_false, if_true]
    exact .bind (leaves_sendRequest _ _) fun _ =>
      .ite leaves_fail (.bind (.modify fun _ => rfl) fun _ => .pure _)

/-- Without a header, the body is not cut short. -/
theorem CutShort.awaits {op : Operation π} {s : Client ρ υ}
    (h : op.CutShort transport handler peer s) : op.Awaits transport := by
  obtain ⟨s₁, hawait, -⟩ := h
  cases op with
  | call p => trivial
  | post p => cases hawait
  | getPostResult => trivial
  | notify p =>
    cases hresponse : transport.hasNotifyResponse with
    | true => exact hresponse
    | false =>
      exfalso
      simp only [awaitHeader, hresponse, Bool.not_false, if_true] at hawait
      obtain ⟨sent, s₂, -, hrest⟩ := bind_eq_ok.mp hawait
      cases sent <;> cases hrest

/-- What is owed behind the header: what is handed over is complete, unless the body is cut short; then
it is not, or the operation succeeds. -/
def Behind (s : Client ρ υ) (success : Bool) (s' : Client ρ υ) : Prop :=
  (¬ s.BodyTimesOut → CompleteSince s s') ∧
    (s.BodyTimesOut → ¬ CompleteSince s s' ∨ success = true)

/-- Where nothing is handed over and the time is not over. -/
theorem behind_of_eq {s s' : Client ρ υ} {success : Bool} (hin : ¬ s.BodyTimesOut)
    (h : s'.handed = s.handed) : Behind s success s' :=
  ⟨fun _ => completeSince_of_eq h, fun hout => absurd hout hin⟩

/-- `ReadResponse` comes first behind the header. -/
theorem wp_read {s : Client ρ υ} {next : ClientM ρ υ Bool}
    (hnext : ∀ s₁, s₁.handed = s.handed →
      (s₁.message.contentAvail < s₁.message.contentLength ↔ s.BodyTimesOut) →
        wp next (Behind s) (fun _ s' => CompleteSince s s') s₁) :
    wp (readResponse >>= fun ok => if !ok then fail transport else next)
      (Behind s) (fun _ s' => CompleteSince s s') s := by
  refine wp_seq (wp_mono (leaves_readResponse.and (wp_readResponse s)) (fun _ _ h => h)
    fun _ _ h => completeSince_of_eq h.1) ?_
  rintro ok s₁ ⟨hhanded, hshort⟩
  cases ok with
  | false =>
    have hin : ¬ s.BodyTimesOut := fun hout => absurd (hshort.mpr hout).1 (by simp)
    exact behind_of_eq hin hhanded
  | true => exact hnext s₁ hhanded (by simpa using hshort)

/-- Behind the header, the body is read and handed over. -/
theorem wp_finish (op : Operation π) (s : Client ρ υ) :
    wp (op.finish transport handler) (Behind s) (fun _ s' => CompleteSince s s') s := by
  have hprocess : wp (Client.finish transport handler) (Behind s)
      (fun _ s' => CompleteSince s s') s := by
    refine wp_read fun s₁ hhanded hshort => ?_
    refine wp_seq (wp_mono (wp_processResponse s₁) (fun _ _ h => h)
      fun _ _ h => completeSince_of_eq (h.trans hhanded)) ?_
    rintro outcome s₂ ⟨h, hnew, hlength, havail⟩
    rw [hhanded] at hnew
    have hbehind {success : Bool} {s₃ : Client ρ υ} (h₃ : s₃.handed = s₂.handed) :
        Behind s success s₃ := by
      have hcomplete := completeSince_append (s := s) (h₃.trans hnew)
      rw [hlength, havail] at hcomplete
      constructor
      · intro hin
        exact hcomplete.mpr (Nat.not_lt.mp (mt hshort.mp hin))
      · intro hout
        exact .inl fun hle => absurd (hcomplete.mp hle) (Nat.not_le.mpr (hshort.mpr hout))
    cases outcome with
    | success => exact hbehind rfl
    | errorKeepOpen => exact hbehind rfl
    | errorClose => exact hbehind rfl
  cases op with
  | call p => exact hprocess
  | post p => exact hprocess
  | getPostResult => exact hprocess
  | notify p =>
    refine wp_read fun s₁ hhanded hshort => ?_
    exact ⟨fun _ => completeSince_of_eq hhanded, fun _ => .inr rfl⟩

/-- An operation hands over only what is complete, and fails where the body is cut short, exactly when
the body is not cut short. -/
theorem handsComplete_iff (h : Frames transport) (op : Operation π) (s : Client ρ υ) :
    op.HandsComplete transport handler peer s ↔ ¬ op.CutShort transport handler peer s := by
  constructor
  · rintro ⟨hcomplete, hfails⟩ hcut
    have hawaits := hcut.awaits
    obtain ⟨message, s', hrun, -⟩ := hfails hcut
    have hsince : CompleteSince s s' := hcomplete.of_ok hrun
    obtain ⟨s₁, hawait, hout⟩ := hcut
    rw [run_eq hawaits, bind_of_ok hawait, if_pos rfl] at hrun
    have hbehind : Behind s₁ false s' := (wp_finish op s₁).of_ok hrun
    rcases hbehind.2 hout with hincomplete | hsuccess
    · rw [completeSince_congr ((leaves_awaitHeader h op).of_ok hawait)] at hincomplete
      exact hincomplete hsince
    · cases hsuccess
  · intro hin
    refine ⟨?_, fun hcut => absurd hcut hin⟩
    by_cases hawaits : op.Awaits transport
    · rw [run_eq hawaits]
      cases hawait : op.awaitHeader transport handler peer s with
      | error e s₁ =>
        have hleaves : Leaves handed (op.awaitHeader transport handler peer) :=
          leaves_awaitHeader h op
        have hleft := hleaves s
        rw [hawait] at hleft
        exact (wp_bind_of_error hawait).mpr (completeSince_of_eq hleft)
      | ok complete s₁ =>
        have hleft := (leaves_awaitHeader h op).of_ok hawait
        rw [wp_bind_of_ok hawait]
        cases complete with
        | false => exact completeSince_of_eq hleft
        | true =>
          refine wp_mono (wp_finish op s₁) (fun _ s' hbehind => ?_) fun _ s' hsince => ?_
          · rw [← completeSince_congr hleft]
            exact hbehind.1 fun hout => hin ⟨s₁, hawait, hout⟩
          · rwa [← completeSince_congr hleft]
    · exact wp_mono ((leaves_run hawaits).and wp_true) (fun _ _ h => completeSince_of_eq h.1)
        fun _ _ h => completeSince_of_eq h.1

end Operation

open Client

/-! ## The two kinds of clients -/

/-- The header of TCP is a number and a colon. -/
theorem TcpClient.frames [IntOverflow] {υ : Type} : Frames (TcpClient.transport (υ := υ)) := by
  intro eof
  refine .bind .get fun s => ?_
  simp only
  cases findChar s.message.data 0x3a with
  | none => exact .pure _
  | some n =>
    refine .ite (.pure _) (.ite (.pure _) ?_)
    refine .bind (.modify fun _ => rfl) fun _ => .ite (.pure _) ?_
    refine .bind (leaves_store _) fun _ => .bind (leaves_store _) fun _ => ?_
    exact .bind (.modify fun _ => rfl) fun _ => .pure _

/-- The header of HTTP is read line by line. -/
theorem HttpClient.frames [IntOverflow] {υ : Type} (contentType host : Bytes) (port : ℕ) :
    Frames (HttpClient.transport (υ := υ) contentType host port) := by
  intro eof
  refine .bind .get fun s => .bind (.modify fun _ => rfl) fun _ => ?_
  cases (s.derived.processHeaderData s.message.data eof).headerResult with
  | fault => exact .pure _
  | incomplete => exact .pure _
  | complete =>
    refine .bind (.modify fun _ => rfl) fun _ => .ite (.pure _) ?_
    refine .bind (leaves_store _) fun _ => .bind (leaves_store _) fun _ => ?_
    exact .ite (.pure _) (.pure _)

/-- A client hands over only responses whose body is there, and an operation fails with a transport
fault where the body is cut short, exactly when no body is cut short by the time being over. -/
theorem client_handsComplete_iff [IntOverflow] {π υ : Type} (handler : ClientHandler π υ) (peer : Peer)
    (op : Operation π) :
    (∀ s, op.HandsComplete TcpClient.transport handler peer s ↔
      ¬ op.CutShort TcpClient.transport handler peer s) ∧
    ∀ (contentType host : Bytes) (port : ℕ) s,
      op.HandsComplete (HttpClient.transport contentType host port) handler peer s ↔
        ¬ op.CutShort (HttpClient.transport contentType host port) handler peer s :=
  ⟨op.handsComplete_iff TcpClient.frames,
    fun contentType host port => op.handsComplete_iff (HttpClient.frames contentType host port)⟩

/-- A response over TCP of which two bytes out of five have arrived when the time is over. -/
theorem tcpClient_hands_short :
    let _ := IntOverflow.truncate
    let handler : ClientHandler Unit Unit := {
      generateRequest := fun _ _ id => ⟨true, ascii "request", id, id + 1⟩
      processResponse := fun response _ =>
        ⟨.errorClose, .fault (-32001) (ascii "Response parse error"), response, rfl⟩ }
    let s : Client TcpFields Unit := {
      opened := true
      checks := [true]
      timeLeft := [1000, 1000, 5]
      socket.attempts := [⟨.accepted 0, 0, true⟩, ⟨.accepted 0, 0, true⟩]
      incoming.attempts := [⟨.arrived 4, 0, true⟩, ⟨.arrived 0, 5, false⟩]
      message.buffer := List.replicate (maxBufferLength + 1) 0
      derived := {} }
    ¬ (Operation.call ()).HandsComplete TcpClient.transport handler (fun _ => ascii "5:ab") s := by
  intro _ handler s h
  have hcomplete := h.complete
  revert hcomplete
  decide +kernel

end AnyRpc
