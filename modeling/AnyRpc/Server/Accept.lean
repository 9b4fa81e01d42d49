import AnyRpc.Connection.Disconnect
import AnyRpc.Server.ThreadPool

/-! # Accepting connections

`ServerST::AcceptConnection` makes room for a connection before it creates it: while the list is full,
it closes the connection that has been used the least recent among those that may be closed. The other
steps of the server are `Process` on one of the connections, which `Work` calls for one after the other,
and the settings, which may change at any time. -/

namespace AnyRpc

open Library ServerConnection

/-- What comes with a connection that is accepted: the memory that it is created in, and what the kernel
and the peer are going to answer and to send. -/
structure Peer where
  buffer : Bytes
  heap : ℕ → UInt8
  socket : TcpSocket
  incoming : Incoming

/-- A connection in the list of the server. -/
structure Listed (ρ ω ε : Type) where
  connection : ServerConnection ρ ω ε
  lastTransactionTime : ℕ+

/-- `ServerST`, over what the methods of the manager keep. -/
structure ServerST (ρ ω ε : Type) where
  maxConnections : ℕ
  forcedDisconnectAllowed : Bool
  connections : List (Listed ρ ω ε) := []
  world : ω
  /-- The members of the derived class that a connection is created with. -/
  derived : ρ
  /-- The connection for which `AcceptConnection` makes room, with the time at which it is created. -/
  accepting : Option (Peer × ℕ+) := none

namespace ServerST

variable {ρ ω ε : Type} (kind : ConnectionKind (ServerConnection ρ ω ε))

/-! ## Steps -/

/-- What a round of the loop of `AcceptConnection` does. -/
inductive Round (ρ ω ε : Type) where
  /-- A connection is closed, and there is another round. -/
  | disconnected (p : Listed ρ ω ε)
  /-- None can be closed, and the new connection is refused. -/
  | refused
  /-- There is room, and the new connection is added. -/
  | created (p : Listed ρ ω ε)

/-- The loop over the connections, from one position on, with the connection that is to be closed and the
time of its last transaction so far. -/
def findTarget (forcedDisconnectAllowed : Bool) :
    List (Listed ρ ω ε) → ℕ → Option ℕ × ℕ → Option ℕ × ℕ
  | [], _, target => target
  | p :: connections, i, (targetIt, targetTime) =>
    if forcedDisconnectAllowed && kind.forcedDisconnectAllowed p.connection then
      if targetTime = 0 ∨ p.lastTransactionTime < targetTime then
        findTarget forcedDisconnectAllowed connections (i + 1) (some i, p.lastTransactionTime)
      else findTarget forcedDisconnectAllowed connections (i + 1) (targetIt, targetTime)
    else findTarget forcedDisconnectAllowed connections (i + 1) (targetIt, targetTime)

/-- `Accept`: there is a connection to create, at the time that is given. -/
def accept (peer : Peer) (time : ℕ+) (s : ServerST ρ ω ε) : Option (ServerST ρ ω ε) :=
  match s.accepting with
  | none => some { s with accepting := some (peer, time) }
  | some _ => none

/-- `CreateConnection`. -/
def createConnection (peer : Peer) (s : ServerST ρ ω ε) : ServerConnection ρ ω ε :=
  accepted peer.buffer peer.heap peer.socket peer.incoming s.derived s.world

/-- A round of the loop of `AcceptConnection`. -/
def makeRoom (s : ServerST ρ ω ε) : Option (Round ρ ω ε × ServerST ρ ω ε) :=
  match s.accepting with
  | none => none
  | some (peer, time) =>
    if s.maxConnections ≤ s.connections.length then
      match (findTarget kind s.forcedDisconnectAllowed s.connections 0 (none, 0)).1 with
      | none => some (.refused, { s with accepting := none })
      | some i => s.connections[i]?.map fun p =>
        (.disconnected p, { s with connections := s.connections.eraseIdx i })
    else
      let p : Listed ρ ω ε := ⟨s.createConnection peer, time⟩
      some (.created p, { s with connections := s.connections ++ [p], accepting := none })

/-- What `Work` does with a connection that is ready. The time of a transaction is set if a response is
written. -/
def process (i : ℕ) (time : Option ℕ+) (s : ServerST ρ ω ε) : Option (ServerST ρ ω ε) :=
  match s.accepting with
  | some _ => none
  | none => do
    let p ← s.connections[i]?
    let (threw, connection) ← kind.process true { p.connection with world := s.world }
    let connection := if threw then kind.setCloseState connection else connection
    some { s with
      world := connection.world
      connections :=
        if kind.connectionState connection = .closeConnection then s.connections.eraseIdx i
        else s.connections.set i ⟨connection, time.getD p.lastTransactionTime⟩ }

/-- The steps of the server, and of those who change its settings. -/
inductive Action where
  | accept (peer : Peer) (time : ℕ+)
  | makeRoom
  | process (i : ℕ) (time : Option ℕ+)
  | setMaxConnections (maxConnections : ℕ)
  | setForcedDisconnectAllowed (forcedDisconnectAllowed : Bool)

/-- One step. -/
def step (s : ServerST ρ ω ε) : Action → Option (ServerST ρ ω ε)
  | .accept peer time => s.accept peer time
  | .makeRoom => (s.makeRoom kind).map (·.2)
  | .process i time => s.process kind i time
  | .setMaxConnections maxConnections => some { s with maxConnections }
  | .setForcedDisconnectAllowed forcedDisconnectAllowed => some { s with forcedDisconnectAllowed }

/-- The steps of a number of actions, one after the other. -/
def run : List Action → ServerST ρ ω ε → Option (ServerST ρ ω ε)
  | [], s => some s
  | a :: as, s => (s.step kind a).bind (run as)

/-! ## The connection to be closed -/

section

variable {kind} {forcedDisconnectAllowed : Bool}

/-- Whether the server may close a connection. -/
abbrev Closable (kind : ConnectionKind (ServerConnection ρ ω ε)) (forcedDisconnectAllowed : Bool)
    (p : Listed ρ ω ε) : Prop :=
  (forcedDisconnectAllowed && kind.forcedDisconnectAllowed p.connection) = true

/-- What the loop over the connections finds: what it had before, or a connection of the list that has
been used less recently; and nothing that may be closed has been used less recently than this. -/
structure Least (kind : ConnectionKind (ServerConnection ρ ω ε)) (forcedDisconnectAllowed : Bool)
    (connections : List (Listed ρ ω ε)) (i : ℕ) (before target : Option ℕ × ℕ) : Prop where
  none_iff : target.1 = none ↔ target.2 = 0
  le_of_mem : ∀ q ∈ connections, Closable kind forcedDisconnectAllowed q →
    target.2 ≠ 0 ∧ target.2 ≤ q.lastTransactionTime
  le_before : before.2 ≠ 0 → target.2 ≠ 0 ∧ target.2 ≤ before.2
  found : target = before ∨ ∃ j p, connections[j]? = some p ∧
    Closable kind forcedDisconnectAllowed p ∧ target = (some (i + j), (p.lastTransactionTime : ℕ))

theorem findTarget_spec (connections : List (Listed ρ ω ε)) (i : ℕ) {targetIt : Option ℕ}
    {targetTime : ℕ} (htarget : targetIt = none ↔ targetTime = 0) :
    Least kind forcedDisconnectAllowed connections i (targetIt, targetTime)
      (findTarget kind forcedDisconnectAllowed connections i (targetIt, targetTime)) := by
  induction connections generalizing i targetIt targetTime with
  | nil => exact ⟨htarget, fun _ h => (by cases h), fun h => ⟨h, le_rfl⟩, .inl rfl⟩
  | cons p connections ih =>
    have hpos : (p.lastTransactionTime : ℕ) ≠ 0 := p.lastTransactionTime.ne_zero
    -- What is found behind the connection is found from the connection on.
    have hbehind {j : ℕ} {q : Listed ρ ω ε} {target : Option ℕ × ℕ} (hget : connections[j]? = some q)
        (hclosable : Closable kind forcedDisconnectAllowed q)
        (heq : target = (some (i + 1 + j), (q.lastTransactionTime : ℕ))) :
        ∃ j p', (p :: connections)[j]? = some p' ∧ Closable kind forcedDisconnectAllowed p' ∧
          target = (some (i + j), (p'.lastTransactionTime : ℕ)) :=
      ⟨j + 1, q, hget, hclosable, by rw [heq, Nat.add_assoc, Nat.add_comm 1]⟩
    rw [findTarget]
    by_cases hclosable : Closable kind forcedDisconnectAllowed p
    · rw [if_pos hclosable]
      by_cases hless : targetTime = 0 ∨ p.lastTransactionTime < targetTime
      · rw [if_pos hless]
        obtain ⟨hnone, hall, hmin, hfound⟩ := @ih (i + 1) (some i)
          (p.lastTransactionTime : ℕ) ⟨fun h => (by cases h), fun h => absurd h hpos⟩
        refine ⟨hnone, fun q hq hclosable => ?_, fun h => ?_, ?_⟩
        · rcases List.mem_cons.mp hq with rfl | hq
          · exact hmin hpos
          · exact hall q hq hclosable
        · exact ⟨(hmin hpos).1, (hmin hpos).2.trans (hless.resolve_left h).le⟩
        · rcases hfound with heq | ⟨j, q, hget, hq, heq⟩
          · exact .inr ⟨0, p, rfl, hclosable, heq⟩
          · exact .inr (hbehind hget hq heq)
      · rw [if_neg hless]
        rw [not_or, not_lt] at hless
        obtain ⟨hnone, hall, hmin, hfound⟩ := ih (i + 1) htarget
        refine ⟨hnone, fun q hq hclosable => ?_, hmin, ?_⟩
        · rcases List.mem_cons.mp hq with rfl | hq
          · exact ⟨(hmin hless.1).1, (hmin hless.1).2.trans hless.2⟩
          · exact hall q hq hclosable
        · exact hfound.imp_right fun ⟨j, q, hget, hq, heq⟩ => hbehind hget hq heq
    · rw [if_neg hclosable]
      obtain ⟨hnone, hall, hmin, hfound⟩ := ih (i + 1) htarget
      refine ⟨hnone, fun q hq hq' => ?_, hmin, ?_⟩
      · rcases List.mem_cons.mp hq with rfl | hq
        · exact absurd hq' hclosable
        · exact hall q hq hq'
      · exact hfound.imp_right fun ⟨j, q, hget, hq, heq⟩ => hbehind hget hq heq

end

/-! ## Every run -/

/-- What is known of every connection in the list: it is in one of its states as it is known, and it is
not one that is to be closed. -/
def Sound [Transport ρ] (P : Phases ρ ε) (s : ServerST ρ ω ε) : Prop :=
  ∀ p ∈ s.connections, P.Holds p.connection ∧ p.connection.connectionState ≠ .closeConnection

section

variable [Transport ρ] {P : Phases ρ ε} {serve : Bool → ConnectionM ρ ω ε Unit}
  {closable : ServerConnection ρ ω ε → Bool} {s s' : ServerST ρ ω ε}

/-- A round of `AcceptConnection` closes a connection or creates one. -/
theorem Sound.makeRoom (hs : s.Sound P) (hcreate : P.At .readHeader s.derived [] 0)
    {r : Round ρ ω ε} {kind : ConnectionKind (ServerConnection ρ ω ε)}
    (h : s.makeRoom kind = some (r, s')) : s'.Sound P ∧ s'.derived = s.derived := by
  unfold ServerST.makeRoom at h
  split at h
  · cases h
  · rename_i peer time _
    split at h
    · split at h
      · cases h
        exact ⟨hs, rfl⟩
      · obtain ⟨p, -, heq⟩ := Option.map_eq_some_iff.mp h
        cases heq
        exact ⟨fun q hq => hs q (List.mem_of_mem_eraseIdx hq), rfl⟩
    · cases h
      refine ⟨fun q hq => ?_, rfl⟩
      rcases List.mem_append.mp hq with hq | hq
      · exact hs q hq
      · obtain rfl := List.mem_singleton.mp hq
        exact ⟨hcreate, fun h => by cases h⟩

/-- What `Process` leaves open is in one of its states. -/
theorem Sound.process (hs : s.Sound P)
    (hprocess : ∀ c : ServerConnection ρ ω ε, P.Holds c →
      wp (serve true) (fun _ => P.Holds) (fun _ _ => True) c)
    {i : ℕ} {time : Option ℕ+}
    (h : s.process (ServerConnection.kind serve closable) i time = some s') :
    s'.Sound P ∧ s'.derived = s.derived := by
  unfold ServerST.process at h
  split at h
  · cases h
  · obtain ⟨p, hget, h⟩ := Option.bind_eq_some_iff.mp h
    obtain ⟨⟨threw, c⟩, hc, h⟩ := Option.bind_eq_some_iff.mp h
    cases h
    refine ⟨fun q hq => ?_, rfl⟩
    have hp := hs p (List.mem_of_getElem? hget)
    have hrun := hprocess { p.connection with world := s.world } hp.1
    simp only [ServerConnection.kind] at hc
    unfold wp at hrun
    split at hc
    · rename_i c' heq
      rw [heq] at hrun
      cases hc
      have hq : q ∈ if c.connectionState = .closeConnection then s.connections.eraseIdx i
        else s.connections.set i ⟨c, time.getD p.lastTransactionTime⟩ := hq
      by_cases hclose : c.connectionState = .closeConnection
      · rw [if_pos hclose] at hq
        exact hs q (List.mem_of_mem_eraseIdx hq)
      · rw [if_neg hclose] at hq
        rcases List.mem_or_eq_of_mem_set hq with hq | rfl
        · exact hs q hq
        · exact ⟨hrun, hclose⟩
    · cases hc

/-- Over every run, each connection in the list is in one of its states, and open. -/
theorem Sound.run {as : List Action} (hs : s.Sound P) (hcreate : P.At .readHeader s.derived [] 0)
    (hprocess : ∀ c : ServerConnection ρ ω ε, P.Holds c →
      wp (serve true) (fun _ => P.Holds) (fun _ _ => True) c)
    (h : run (ServerConnection.kind serve closable) as s = some s') : s'.Sound P := by
  induction as generalizing s with
  | nil =>
    cases h
    exact hs
  | cons a as ih =>
    obtain ⟨s₁, hstep, h⟩ := Option.bind_eq_some_iff.mp h
    have hnext : s₁.Sound P ∧ s₁.derived = s.derived := by
      cases a with
      | accept peer time =>
        simp only [step, accept] at hstep
        split at hstep
        · cases hstep
          exact ⟨hs, rfl⟩
        · cases hstep
      | makeRoom =>
        obtain ⟨⟨r, s₂⟩, hround, rfl⟩ := Option.map_eq_some_iff.mp hstep
        exact hs.makeRoom hcreate hround
      | process i time => exact hs.process hprocess hstep
      | setMaxConnections maxConnections =>
        cases hstep
        exact ⟨hs, rfl⟩
      | setForcedDisconnectAllowed allowed =>
        cases hstep
        exact ⟨hs, rfl⟩
    exact ih hnext.1 (hnext.2 ▸ hcreate) h

end

/-- What a round of `AcceptConnection` is allowed to do, given which connections are not in use: it adds
a connection if the list has room for it, and it closes the one that has been used the least recent of
those that are not in use, if it closes one. -/
def Fair (notInProgress : ServerConnection ρ ω ε → Prop) (s : ServerST ρ ω ε) :
    Round ρ ω ε → ServerST ρ ω ε → Prop
  | .created p, s' =>
    s'.connections = s.connections ++ [p] ∧ s'.connections.length ≤ s'.maxConnections
  | .disconnected p, s' =>
    s.forcedDisconnectAllowed = true ∧ notInProgress p.connection ∧
      (∀ q ∈ s.connections, notInProgress q.connection →
        p.lastTransactionTime ≤ q.lastTransactionTime) ∧
      ∃ i, s.connections[i]? = some p ∧ s'.connections = s.connections.eraseIdx i
  | .refused, s' =>
    s'.connections = s.connections ∧
      (s.forcedDisconnectAllowed = true → ∀ q ∈ s.connections, ¬ notInProgress q.connection)

/-- A round is as it is allowed to be, if the connections that may be closed are those not in use. -/
theorem fair_of_makeRoom {notInProgress : ServerConnection ρ ω ε → Prop} {s s' : ServerST ρ ω ε}
    (hiff : ∀ p ∈ s.connections,
      kind.forcedDisconnectAllowed p.connection = true ↔ notInProgress p.connection)
    {r : Round ρ ω ε} (h : s.makeRoom kind = some (r, s')) : Fair notInProgress s r s' := by
  have hclosable (hallowed : s.forcedDisconnectAllowed = true) (q : Listed ρ ω ε)
      (hq : q ∈ s.connections) (hnot : notInProgress q.connection) :
      Closable kind s.forcedDisconnectAllowed q :=
    Bool.and_eq_true_iff.mpr ⟨hallowed, (hiff q hq).mpr hnot⟩
  obtain ⟨hnone, hall, -, hfound⟩ := @findTarget_spec _ _ _ kind s.forcedDisconnectAllowed s.connections 0
    none 0 ⟨fun _ => rfl, fun _ => rfl⟩
  unfold makeRoom at h
  split at h
  · cases h
  · split at h
    · split at h
      · rename_i htarget
        cases h
        refine ⟨rfl, fun hallowed q hq hnot => ?_⟩
        exact (hall q hq (hclosable hallowed q hq hnot)).1 (hnone.mp htarget)
      · rename_i i htarget
        obtain ⟨p, hget, heq⟩ := Option.map_eq_some_iff.mp h
        cases heq
        rcases hfound with heq | ⟨j, p', hget', hclosable', heq⟩
        · rw [heq] at htarget
          cases htarget
        · rw [heq] at htarget
          rw [heq] at hall
          obtain rfl : 0 + j = i := Option.some.inj htarget
          rw [Nat.zero_add] at hget
          obtain rfl : p' = p := Option.some.inj (hget'.symm.trans hget)
          obtain ⟨hallowed, hforced⟩ := Bool.and_eq_true_iff.mp hclosable'
          refine ⟨hallowed, (hiff p' (List.mem_of_getElem? hget)).mp hforced, fun q hq hnot => ?_,
            0 + j, by rwa [Nat.zero_add], rfl⟩
          exact (hall q hq (hclosable hallowed q hq hnot)).2
    · rename_i hroom
      cases h
      refine ⟨rfl, ?_⟩
      rw [List.length_append]
      show s.connections.length + 1 ≤ s.maxConnections
      omega

/-- A server that listens, with no connection so far. -/
def listening (maxConnections : ℕ) (forcedDisconnectAllowed : Bool) (derived : ρ) (world : ω) :
    ServerST ρ ω ε where
  maxConnections
  forcedDisconnectAllowed
  world
  derived

theorem sound_listening [Transport ρ] {P : Phases ρ ε} (maxConnections : ℕ)
    (forcedDisconnectAllowed : Bool) (derived : ρ) (world : ω) :
    (listening maxConnections forcedDisconnectAllowed derived world : ServerST ρ ω ε).Sound P := by
  intro p hp
  cases hp

end ServerST

open ServerST

/-- In whatever order connections arrive, whatever comes in on them, in whatever pieces, and whenever the
settings change: `AcceptConnection` adds a connection if the list has room for it, and closes the one that
has been used the least recent among those that no request is in progress on. -/
theorem accept_fair [IntOverflow] {ω : Type} (handler : RpcHandler ω)
    (handlers : List (RpcContentHandler ω)) (world : ω) (maxConnections : ℕ)
    (forcedDisconnectAllowed : Bool) (as : List Action) :
    (∀ s, run (TcpConnection.kind handler) as
        (listening maxConnections forcedDisconnectAllowed {} world) = some s →
      ∀ r s', s.makeRoom (TcpConnection.kind handler) = some (r, s') →
        Fair TcpConnection.NotInProgress s r s') ∧
    (∀ s, run HttpConnection.kind as
        (listening maxConnections forcedDisconnectAllowed ⟨.initial, handlers⟩ world) = some s →
      ∀ r s', s.makeRoom HttpConnection.kind = some (r, s') →
        Fair HttpConnection.NotInProgress s r s') := by
  constructor
  · intro s hrun r s' hround
    have hsound := (sound_listening (P := TcpConnection.phases) maxConnections
      forcedDisconnectAllowed {} world).run ⟨fun h => (by cases h), fun h => absurd rfl h⟩
      (fun c hc => process_keeps TcpConnection.readHeader_keeps
        (TcpConnection.executeRequest_keeps handler) true hc) hrun
    refine fair_of_makeRoom _ (fun p hp => ?_) hround
    exact TcpConnection.forcedDisconnectAllowed_iff (hsound p hp).1 (hsound p hp).2
  · intro s hrun r s' hround
    have hsound := (sound_listening (P := HttpConnection.phases) maxConnections
      forcedDisconnectAllowed ⟨.initial, handlers⟩ world).run rfl
      (fun c hc => process_keeps HttpConnection.readHeader_keeps
        HttpConnection.executeRequest_keeps true hc) hrun
    refine fair_of_makeRoom _ (fun p hp => ?_) hround
    exact HttpConnection.forcedDisconnectAllowed_iff (hsound p hp).1 (hsound p hp).2

/-- A peer that sends nothing. -/
def Peer.silent : Peer := ⟨[], fun _ => 0, {}, {}⟩

/-- A server for one connection: the first one makes room for the second. -/
theorem accept_fair_second :
    let _ := IntOverflow.truncate
    let handler : RpcHandler Unit := fun request world => ⟨request, [], false, world, rfl⟩
    ∃ s p s', run (TcpConnection.kind handler) [.accept .silent 5, .makeRoom, .accept .silent 7]
        (listening 1 true {} ()) = some s ∧
      s.makeRoom (TcpConnection.kind handler) = some (.disconnected p, s') ∧
      Fair TcpConnection.NotInProgress s (.disconnected p) s' := by
  intro _ handler
  refine ⟨_, _, _, rfl, rfl, ?_⟩
  exact (accept_fair handler [] () 1 true
    [.accept .silent 5, .makeRoom, .accept .silent 7]).1 _ rfl _ _ rfl

end AnyRpc
