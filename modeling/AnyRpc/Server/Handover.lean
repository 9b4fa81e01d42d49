import AnyRpc.Client.Header
import AnyRpc.Connection.Bounds
import AnyRpc.Server.ThreadPool

/-! # Connections are handed over

The main thread hands connections over to the workers by way of the queue, and gets them back by
`SetActive`. As long as it deletes only connections that are active, no connection is deleted in the
hands of a worker, and none is in the hands of two threads. -/

namespace AnyRpc

open Library

/-- The connections that `select` has found ready and that the main thread has not come to yet. -/
def MainPhase.pending {κ : Type} : MainPhase κ → List ℕ
  | .selecting => []
  | .accepting ready => ready
  | .admitting ready _ _ => ready
  | .serving ready todo => todo.filter (· ∈ ready)

namespace ServerTP

variable {κ ι : Type}

/-! ## What is to hold -/

/-- A connection is in the queue, or a worker holds it. -/
def InUse (s : ServerTP κ ι) (id : ℕ) : Prop :=
  id ∈ s.workQueue ∨ ∃ w, (s.workers w).held = some id

/-- The main thread is about to process a connection. -/
def MainHolds (s : ServerTP κ ι) (id : ℕ) : Prop :=
  ∃ ready todo, s.main = .serving ready (id :: todo) ∧ id ∈ ready

/-- No two threads hold the same connection. -/
structure Exclusive (s : ServerTP κ ι) : Prop where
  workers {w w' : ι} {id : ℕ} (h : (s.workers w).held = some id) (h' : (s.workers w').held = some id) :
    w = w'
  main {id : ℕ} (h : s.MainHolds id) : ¬ s.InUse id

/-- A connection is deleted in a step. -/
def Deletes (s s' : ServerTP κ ι) (id : ℕ) : Prop := id ∈ s.ids ∧ id ∉ s'.ids

/-- The connections that are deleted in a step have their active flag set. -/
def Guarded (s s' : ServerTP κ ι) : Prop :=
  ∀ p ∈ s.connections, s.Deletes s' p.id → p.active = true

/-! ## The lists of connections -/

theorem mem_ids {s : ServerTP κ ι} {id : ℕ} : id ∈ s.ids ↔ ∃ p ∈ s.connections, p.id = id :=
  List.mem_map

theorem find?_eq_some {s : ServerTP κ ι} {id : ℕ} {p : Pooled κ} (h : s.find? id = some p) :
    p ∈ s.connections ∧ p.id = id :=
  ⟨List.mem_of_find?_eq_some h, by simpa using List.find?_some h⟩

theorem ids_replace (p : Pooled κ) (connections : List (Pooled κ)) :
    (replace p connections).map (·.id) = connections.map (·.id) := by
  rw [replace, List.map_map]
  refine List.map_congr_left fun p' _ => ?_
  by_cases h : p'.id = p.id
  · simp [h]
  · simp [h]

theorem mem_replace {p q : Pooled κ} {connections : List (Pooled κ)} (h : q ∈ replace p connections) :
    q = p ∨ q ∈ connections ∧ q.id ≠ p.id := by
  obtain ⟨p', hp', rfl⟩ := List.mem_map.mp h
  by_cases heq : p'.id = p.id
  · rw [if_pos heq]
    exact .inl rfl
  · rw [if_neg heq]
    exact .inr ⟨hp', heq⟩

theorem mem_replace_self {p p' : Pooled κ} {connections : List (Pooled κ)} (hp : p ∈ connections)
    (hid : p'.id = p.id) : p' ∈ replace p' connections :=
  List.mem_map.mpr ⟨p, hp, by rw [if_pos hid.symm]⟩

theorem mem_erase {q : Pooled κ} {id : ℕ} {connections : List (Pooled κ)} :
    q ∈ erase id connections ↔ q ∈ connections ∧ q.id ≠ id := by
  rw [erase, List.mem_filter, decide_eq_true_eq]

theorem mem_ids_erase {id id' : ℕ} {connections : List (Pooled κ)} :
    id ∈ (erase id' connections).map (·.id) ↔ id ∈ connections.map (·.id) ∧ id ≠ id' := by
  simp only [List.mem_map, mem_erase]
  constructor
  · rintro ⟨p, ⟨hp, hne⟩, rfl⟩
    exact ⟨⟨p, hp, rfl⟩, hne⟩
  · rintro ⟨⟨p, hp, rfl⟩, hne⟩
    exact ⟨p, ⟨hp, hne⟩, rfl⟩

theorem nodup_ids_erase {id : ℕ} {connections : List (Pooled κ)}
    (h : (connections.map (·.id)).Nodup) : ((erase id connections).map (·.id)).Nodup :=
  h.sublist (List.filter_sublist.map _)

/-! ## The owners of the connections -/

/-- The owners of the connections, as the server keeps track of them: a connection belongs to the main
thread when its active flag is set, and otherwise to the queue or to the worker that holds it. -/
structure Owns (s : ServerTP κ ι) (o : ℕ → Option (Owner ι)) : Prop where
  nodup : s.ids.Nodup
  alive (id : ℕ) : id ∈ s.ids ↔ o id ≠ none
  active (p : Pooled κ) (hp : p ∈ s.connections) : p.active = true ↔ o p.id = some .root
  queued (id : ℕ) : id ∈ s.workQueue ↔ o id = some .queue
  workQueue : s.workQueue.Nodup
  held (w : ι) (id : ℕ) : (s.workers w).held = some id ↔ o id = some (.worker w)
  used (id : ℕ) (h : o id ≠ none) : id < s.nextId
  pending (id : ℕ) (h : id ∈ s.main.pending) : id < s.nextId ∧ (o id = none ∨ o id = some .root)
  todo (ready todo : List ℕ) (h : s.main = .serving ready todo) : todo.Nodup

variable {s : ServerTP κ ι} {o : ℕ → Option (Owner ι)}

/-- What is in use does not belong to the main thread. -/
theorem Owns.inUse_iff (h : s.Owns o) {id : ℕ} (hid : id ∈ s.ids) :
    s.InUse id ↔ o id ≠ some .root := by
  have halive := (h.alive id).mp hid
  rw [InUse, h.queued]
  simp only [h.held]
  cases ho : o id with
  | none => exact absurd ho halive
  | some x =>
    cases x with
    | root => simp
    | queue => simp
    | worker w => simp

/-- No two threads hold the same connection, since it has one owner. -/
theorem Owns.exclusive (h : s.Owns o) : s.Exclusive where
  workers hw hw' := by
    have heq := ((h.held _ _).mp hw).symm.trans ((h.held _ _).mp hw')
    cases heq
    rfl
  main {id} hmain := by
    obtain ⟨ready, todo, hphase, hready⟩ := hmain
    have hpending : id ∈ s.main.pending := by
      rw [hphase]
      exact List.mem_filter.mpr ⟨List.mem_cons_self, decide_eq_true hready⟩
    rintro (hqueue | ⟨w, hw⟩)
    · rw [h.queued] at hqueue
      rcases (h.pending id hpending).2 with ho | ho <;> cases hqueue.symm.trans ho
    · rw [h.held] at hw
      rcases (h.pending id hpending).2 with ho | ho <;> cases hw.symm.trans ho

/-- A step that deletes nothing that is in use deletes only connections whose active flag is set. -/
theorem Owns.guarded (h : s.Owns o) {s' : ServerTP κ ι}
    (hdeletes : ∀ id, s.Deletes s' id → ¬ s.InUse id) : s.Guarded s' := by
  intro p hp hid
  rw [h.active p hp, ← not_not (a := o p.id = _), ← ne_eq, ← h.inUse_iff hid.1]
  exact hdeletes p.id hid

/-! ## One step -/

/-- The main thread goes on, and the connections belong to whom they did. -/
theorem Owns.phase (h : s.Owns o) {main : MainPhase κ}
    (hpending : ∀ id ∈ main.pending, id < s.nextId ∧ (o id = none ∨ o id = some .root))
    (htodo : ∀ ready todo, main = .serving ready todo → todo.Nodup) : Owns { s with main } o where
  nodup := h.nodup
  alive := h.alive
  active := h.active
  queued := h.queued
  workQueue := h.workQueue
  held := h.held
  used := h.used
  pending := hpending
  todo := htodo

/-- A connection is processed by its owner. -/
theorem Owns.replace (h : s.Owns o) {p p' : Pooled κ} (hp : p ∈ s.connections) (hid : p'.id = p.id)
    (hactive : p'.active = p.active) :
    Owns { s with connections := ServerTP.replace p' s.connections } o where
  nodup := by
    show ((ServerTP.replace p' s.connections).map (·.id)).Nodup
    rw [ids_replace]
    exact h.nodup
  alive id := by
    show id ∈ (ServerTP.replace p' s.connections).map (·.id) ↔ _
    rw [ids_replace]
    exact h.alive id
  active q hq := by
    rcases mem_replace hq with rfl | ⟨hq, -⟩
    · rw [hid, hactive]
      exact h.active p hp
    · exact h.active q hq
  queued := h.queued
  workQueue := h.workQueue
  held := h.held
  used := h.used
  pending := h.pending
  todo := h.todo

/-- The main thread deletes a connection that belongs to it. -/
theorem Owns.discard (h : s.Owns o) {id : ℕ} (hroot : o id = some .root) :
    Owns { s with connections := erase id s.connections } (Function.update o id none) := by
  have hne {id' : ℕ} {x : Owner ι} (hx : x ≠ .root) :
      o id' = some x ↔ Function.update o id none id' = some x := by
    by_cases heq : id' = id
    · rw [heq, Function.update_self, hroot]
      simp [hx.symm]
    · rw [Function.update_of_ne heq]
  refine ⟨nodup_ids_erase h.nodup, fun id' => ?_, fun p hp => ?_, fun id' => ?_, h.workQueue,
    fun w id' => ?_, fun id' hid' => ?_, fun id' hid' => ?_, h.todo⟩
  · show id' ∈ (erase id s.connections).map (·.id) ↔ _
    rw [mem_ids_erase]
    by_cases heq : id' = id
    · simp [heq]
    · rw [Function.update_of_ne heq, ← h.alive id', and_iff_left heq]
      rfl
  · obtain ⟨hp, hid⟩ := mem_erase.mp hp
    rw [Function.update_of_ne hid]
    exact h.active p hp
  · rw [← hne (by simp)]
    exact h.queued id'
  · rw [← hne (by simp)]
    exact h.held w id'
  · by_cases heq : id' = id
    · rw [heq, Function.update_self] at hid'
      exact absurd rfl hid'
    · rw [Function.update_of_ne heq] at hid'
      exact h.used id' hid'
  · obtain ⟨hlt, howner⟩ := h.pending id' hid'
    refine ⟨hlt, ?_⟩
    by_cases heq : id' = id
    · rw [heq, Function.update_self]
      exact .inl rfl
    · rw [Function.update_of_ne heq]
      exact howner

/-- The server creates a connection, which belongs to the main thread. -/
theorem Owns.create (h : s.Owns o) {p : Pooled κ} (hid : p.id = s.nextId) (hactive : p.active = true) :
    o s.nextId = none ∧ Owns { s with
      connections := s.connections ++ [p]
      nextId := s.nextId + 1 } (Function.update o s.nextId (some .root)) := by
  have hlist : (s.connections ++ [p]).map (·.id) = s.ids ++ [s.nextId] := by
    rw [List.map_append, List.map_singleton, hid]
    rfl
  have hnew : o s.nextId = none := by
    by_contra hne
    exact absurd (h.used _ hne) (lt_irrefl _)
  have hids (id : ℕ) (hid : id ∈ s.ids) : id ≠ s.nextId := by
    rintro rfl
    exact (h.alive _).mp hid hnew
  have hother {id : ℕ} {x : Owner ι} (hx : x ≠ .root) :
      o id = some x ↔ Function.update o s.nextId (some .root) id = some x := by
    by_cases heq : id = s.nextId
    · rw [heq, Function.update_self, hnew]
      simp [hx.symm]
    · rw [Function.update_of_ne heq]
  refine ⟨hnew, ⟨?_, fun id => ?_, fun p hp => ?_, fun id => ?_, h.workQueue, fun w id => ?_,
    fun id hid => ?_, fun id hid => ?_, h.todo⟩⟩
  · show ((s.connections ++ [p]).map (·.id)).Nodup
    rw [hlist]
    refine List.nodup_append.mpr ⟨h.nodup, List.nodup_singleton _, fun id hid id' hid' => ?_⟩
    rw [List.mem_singleton.mp hid']
    exact hids id hid
  · show id ∈ (s.connections ++ [p]).map (·.id) ↔ _
    rw [hlist, List.mem_append, List.mem_singleton]
    by_cases heq : id = s.nextId
    · simp [heq]
    · rw [Function.update_of_ne heq, ← h.alive id, or_iff_left heq]
  · rcases List.mem_append.mp hp with hp | hp
    · rw [Function.update_of_ne (hids _ (mem_ids.mpr ⟨p, hp, rfl⟩))]
      exact h.active p hp
    · rw [List.mem_singleton.mp hp, hid, hactive]
      simp
  · rw [← hother (by simp)]
    exact h.queued id
  · rw [← hother (by simp)]
    exact h.held w id
  · by_cases heq : id = s.nextId
    · rw [heq]
      exact Nat.lt_succ_self _
    · rw [Function.update_of_ne heq] at hid
      exact Nat.lt_succ_of_lt (h.used id hid)
  · obtain ⟨hlt, howner⟩ := h.pending id hid
    refine ⟨Nat.lt_succ_of_lt hlt, ?_⟩
    rw [Function.update_of_ne hlt.ne]
    exact howner

/-- The main thread puts a connection into the queue, and processes it no more. -/
theorem Owns.enqueue (h : s.Owns o) {p p' : Pooled κ} (hid : p'.id = p.id)
    (hactive : p'.active = false) (hroot : o p.id = some .root) (hpending : p.id ∉ s.main.pending) :
    Owns { s with
      connections := ServerTP.replace p' s.connections
      workQueue := s.workQueue ++ [p.id] } (Function.update o p.id (some .queue)) := by
  have hids : (ServerTP.replace p' s.connections).map (·.id) = s.ids := ids_replace _ _
  have hnodup : ((ServerTP.replace p' s.connections).map (·.id)).Nodup := hids ▸ h.nodup
  refine ⟨hnodup, fun id => ?_, fun q hq => ?_, fun id => ?_, ?_, fun w id => ?_,
    fun id hid' => ?_, fun id hid' => ?_, h.todo⟩
  · show id ∈ (ServerTP.replace p' s.connections).map (·.id) ↔ _
    rw [hids, h.alive id]
    by_cases heq : id = p.id
    · simp [heq, hroot]
    · rw [Function.update_of_ne heq]
  · rcases mem_replace hq with rfl | ⟨hq, hne⟩
    · rw [hid, Function.update_self, hactive]
      simp
    · rw [hid] at hne
      rw [Function.update_of_ne hne]
      exact h.active q hq
  · rw [List.mem_append, List.mem_singleton, h.queued id]
    by_cases heq : id = p.id
    · simp [heq]
    · rw [Function.update_of_ne heq, or_iff_left heq]
  · refine List.nodup_append.mpr ⟨h.workQueue, List.nodup_singleton _, fun id hqueue id' hid' => ?_⟩
    rw [List.mem_singleton.mp hid']
    rintro rfl
    rw [h.queued, hroot] at hqueue
    cases hqueue
  · rw [h.held w id]
    by_cases heq : id = p.id
    · simp [heq, hroot]
    · rw [Function.update_of_ne heq]
  · by_cases heq : id = p.id
    · rw [heq]
      exact h.used _ (by rw [hroot]; simp)
    · rw [Function.update_of_ne heq] at hid'
      exact h.used id hid'
  · have hne : id ≠ p.id := by
      rintro rfl
      exact hpending hid'
    rw [Function.update_of_ne hne]
    exact h.pending id hid'

variable [DecidableEq ι]

/-- A worker takes the first connection from the queue. -/
theorem Owns.take (h : s.Owns o) {w : ι} {id : ℕ} {workQueue : List ℕ} (hw : (s.workers w).held = none)
    (hqueue : s.workQueue = id :: workQueue) :
    o id = some .queue ∧ Owns { s with
      workQueue := workQueue
      workers := Function.update s.workers w (.holding id) }
      (Function.update o id (some (.worker w))) := by
  have hid : o id = some .queue := (h.queued id).mp (hqueue ▸ List.mem_cons_self)
  have hnodup := h.workQueue
  rw [hqueue, List.nodup_cons] at hnodup
  refine ⟨hid, ⟨h.nodup, fun id' => ?_, fun p hp => ?_, fun id' => ?_, hnodup.2, fun w' id' => ?_,
    fun id' hid' => ?_, fun id' hid' => ?_, h.todo⟩⟩
  · show id' ∈ s.ids ↔ _
    rw [h.alive id']
    by_cases heq : id' = id
    · simp [heq, hid]
    · rw [Function.update_of_ne heq]
  · rw [h.active p hp]
    by_cases heq : p.id = id
    · simp [heq, hid]
    · rw [Function.update_of_ne heq]
  · have hmem := h.queued id'
    rw [hqueue, List.mem_cons] at hmem
    show id' ∈ workQueue ↔ _
    by_cases heq : id' = id
    · rw [heq, Function.update_self]
      simp [hnodup.1]
    · rw [Function.update_of_ne heq, ← hmem, or_iff_right heq]
  · have hheld := h.held w' id'
    show (Function.update s.workers w (.holding id) w').held = some id' ↔ _
    by_cases hworker : w' = w
    · subst hworker
      rw [hw] at hheld
      rw [Function.update_self]
      by_cases heq : id' = id
      · simp [heq, Worker.held]
      · rw [Function.update_of_ne heq, ← hheld]
        simp [Worker.held, Ne.symm heq]
    · rw [Function.update_of_ne hworker, hheld]
      by_cases heq : id' = id
      · simp [heq, hid, Ne.symm hworker]
      · rw [Function.update_of_ne heq]
  · by_cases heq : id' = id
    · rw [heq]
      exact h.used _ (by rw [hid]; simp)
    · rw [Function.update_of_ne heq] at hid'
      exact h.used id' hid'
  · obtain ⟨hlt, howner⟩ := h.pending id' hid'
    refine ⟨hlt, ?_⟩
    have hne : id' ≠ id := by
      rintro rfl
      rcases howner with ho | ho <;> cases hid.symm.trans ho
    rw [Function.update_of_ne hne]
    exact howner

/-- A worker goes on with the connection that it holds. -/
theorem Owns.worked (h : s.Owns o) {w : ι} {worker : Worker}
    (hw : worker.held = (s.workers w).held) :
    Owns { s with workers := Function.update s.workers w worker } o where
  nodup := h.nodup
  alive := h.alive
  active := h.active
  queued := h.queued
  workQueue := h.workQueue
  held w' id := by
    show (Function.update s.workers w worker w').held = some id ↔ _
    by_cases heq : w' = w
    · rw [heq, Function.update_self, hw]
      exact h.held w id
    · rw [Function.update_of_ne heq]
      exact h.held w' id
  used := h.used
  pending := h.pending
  todo := h.todo

/-- A worker gives its connection back. -/
theorem Owns.giveBack (h : s.Owns o) {w : ι} {p : Pooled κ} (p' : Pooled κ) (hid : p'.id = p.id)
    (hactive : p'.active = true) (hw : (s.workers w).held = some p.id) :
    o p.id = some (.worker w) ∧ Owns { s with
      connections := ServerTP.replace p' s.connections
      workers := Function.update s.workers w .idle } (Function.update o p.id (some .root)) := by
  have howner : o p.id = some (.worker w) := (h.held w p.id).mp hw
  have hids : (ServerTP.replace p' s.connections).map (·.id) = s.ids := ids_replace _ _
  have hnodup : ((ServerTP.replace p' s.connections).map (·.id)).Nodup := hids ▸ h.nodup
  refine ⟨howner, ⟨hnodup, fun id => ?_, fun q hq => ?_, fun id => ?_, h.workQueue,
    fun w' id => ?_, fun id hid' => ?_, fun id hid' => ?_, h.todo⟩⟩
  · show id ∈ (ServerTP.replace p' s.connections).map (·.id) ↔ _
    rw [hids, h.alive id]
    by_cases heq : id = p.id
    · simp [heq, howner]
    · rw [Function.update_of_ne heq]
  · rcases mem_replace hq with rfl | ⟨hq, hne⟩
    · rw [hid, Function.update_self, hactive]
      simp
    · rw [hid] at hne
      rw [Function.update_of_ne hne]
      exact h.active q hq
  · rw [h.queued id]
    by_cases heq : id = p.id
    · simp [heq, howner]
    · rw [Function.update_of_ne heq]
  · have hheld := h.held w' id
    show (Function.update s.workers w .idle w').held = some id ↔ _
    by_cases hworker : w' = w
    · subst hworker
      rw [Function.update_self]
      by_cases heq : id = p.id
      · simp [heq, Worker.held]
      · rw [Function.update_of_ne heq, ← hheld, hw]
        simp [Worker.held, Ne.symm heq]
    · rw [Function.update_of_ne hworker, hheld]
      by_cases heq : id = p.id
      · simp [heq, howner, Ne.symm hworker]
      · rw [Function.update_of_ne heq]
  · by_cases heq : id = p.id
    · rw [heq]
      exact h.used _ (by rw [howner]; simp)
    · rw [Function.update_of_ne heq] at hid'
      exact h.used id hid'
  · obtain ⟨hlt, hpending⟩ := h.pending id hid'
    refine ⟨hlt, ?_⟩
    by_cases heq : id = p.id
    · rw [heq, Function.update_self]
      exact .inr rfl
    · rw [Function.update_of_ne heq]
      exact hpending

/-! ## The steps of the threads -/

variable {kind : ConnectionKind κ}

theorem processed_eq_some {executeAfterRead : Bool} {time : Option ℕ} {p p' : Pooled κ}
    (h : processed kind executeAfterRead time p = some p') : p'.id = p.id ∧ p'.active = p.active := by
  obtain ⟨⟨threw, connection⟩, -, rfl⟩ := Option.map_eq_some_iff.mp h
  exact ⟨rfl, rfl⟩

omit [DecidableEq ι] in
/-- The connection to be disconnected is one of those that there are. -/
theorem mem_ids_of_findTarget {id : ℕ} (h : (findTarget kind s).1 = some id) : id ∈ s.ids := by
  -- Over a part of the list, it is in this part, or it was there before.
  have hpart {next : Option ℕ × ℕ → Pooled κ → Option ℕ × ℕ}
      (hnext : ∀ target p, next target p = target ∨ (next target p).1 = some p.id)
      (connections : List (Pooled κ)) (target : Option ℕ × ℕ)
      (h : (connections.foldl next target).1 = some id) :
      target.1 = some id ∨ id ∈ connections.map (·.id) := by
    induction connections generalizing target with
    | nil => exact .inl h
    | cons p connections ih =>
      rw [List.foldl_cons] at h
      rcases ih _ h with htarget | hmem
      · rcases hnext target p with hkept | hfound
        · exact .inl (hkept ▸ htarget)
        · rw [hfound] at htarget
          exact .inr (List.mem_cons.mpr (.inl (Option.some.inj htarget).symm))
      · exact .inr (List.mem_cons_of_mem _ hmem)
  rw [findTarget] at h
  refine (hpart ?_ s.connections (none, 0) h).resolve_left fun hnone => ?_
  · rintro ⟨target, targetTime⟩ p
    dsimp only
    split_ifs
    · exact .inr rfl
    · exact .inl rfl
    · exact .inl rfl
  · cases hnone

omit [DecidableEq ι] in
/-- A deletion of a connection whose active flag is set. -/
theorem Owns.erase (h : s.Owns o) {p : Pooled κ} (hp : p ∈ s.connections) (hactive : p.active = true) :
    Handover o (Function.update o p.id none) ∧
      Owns { s with connections := ServerTP.erase p.id s.connections } (Function.update o p.id none) :=
  have hroot := (h.active p hp).mp hactive
  ⟨.discard hroot, h.discard hroot⟩

omit [DecidableEq ι] in
/-- In the main loop, a connection is deleted if it is to be closed. -/
theorem Owns.close (kind : ConnectionKind κ) (h : s.Owns o) {p p' : Pooled κ} (hp : p ∈ s.connections) (hid : p'.id = p.id)
    (hactive : kind.connectionState p'.connection = .closeConnection → p.active = true) :
    ∃ o', (o' = o ∨ Handover o o') ∧
      Owns { s with connections := serve.close kind p' s.connections } o' := by
  unfold serve.close
  by_cases hclose : kind.connectionState p'.connection = .closeConnection
  · rw [if_pos hclose, hid]
    obtain ⟨hdiscard, howns⟩ := h.erase hp (hactive hclose)
    exact ⟨_, .inr hdiscard, howns⟩
  · rw [if_neg hclose]
    exact ⟨o, .inl rfl, h⟩

omit [DecidableEq ι] in
theorem Owns.select_spec {s' : ServerTP κ ι} (h : s.Owns o) {ready : List ℕ}
    (hstep : select kind ready s = some s') : s'.Owns o := by
  unfold select at hstep
  split at hstep
  · split at hstep
    · rename_i hready
      cases hstep
      refine h.phase (fun id hid => ?_) fun _ _ h => by cases h
      -- The main thread waits only for connections that are active.
      obtain ⟨p, hfind, hwaits⟩ := (Option.any_eq_true _ _).mp (List.all_eq_true.mp hready id hid)
      obtain ⟨hp, rfl⟩ := find?_eq_some hfind
      have hroot := (h.active p hp).mp (Bool.and_eq_true_iff.mp hwaits).1
      exact ⟨h.used _ (by rw [hroot]; simp), .inr hroot⟩
    · cases hstep
  · cases hstep

omit [DecidableEq ι] in
theorem Owns.accept_spec {s' : ServerTP κ ι} (h : s.Owns o) {connection : Option (κ × ℕ)}
    (hstep : accept connection s = some s') : s'.Owns o := by
  unfold accept at hstep
  split at hstep
  · rename_i ready hmain
    have hpending (id : ℕ) (hid : id ∈ ready) := h.pending id (by rw [hmain]; exact hid)
    split at hstep
    · cases hstep
      refine h.phase (fun id hid => hpending id ?_) fun ready todo heq => ?_
      · exact of_decide_eq_true (List.mem_filter.mp hid).2
      · cases heq
        exact h.nodup
    · cases hstep
      exact h.phase hpending fun _ _ h => by cases h
  · cases hstep

omit [DecidableEq ι] in
theorem Owns.makeRoom_spec {s' : ServerTP κ ι} (h : s.Owns o) (hstep : makeRoom kind s = some s')
    (hguarded : s.Guarded s') : ∃ o', (o' = o ∨ Handover o o') ∧ s'.Owns o' := by
  unfold makeRoom at hstep
  split at hstep
  · rename_i ready connection time hmain
    have hpending (id : ℕ) (hid : id ∈ ready) := h.pending id (by rw [hmain]; exact hid)
    split at hstep
    · cases htarget : (findTarget kind s).1 with
      | none =>
        rw [htarget] at hstep
        cases hstep
        refine ⟨o, .inl rfl, h.phase (fun id hid => hpending id ?_) fun ready todo heq => ?_⟩
        · exact of_decide_eq_true (List.mem_filter.mp hid).2
        · cases heq
          exact h.nodup
      | some id =>
        rw [htarget] at hstep
        cases hstep
        obtain ⟨p, hp, rfl⟩ := mem_ids.mp (mem_ids_of_findTarget htarget)
        have hactive : p.active = true := by
          refine hguarded p hp ⟨mem_ids.mpr ⟨p, hp, rfl⟩, fun hmem => ?_⟩
          exact (mem_ids_erase.mp hmem).2 rfl
        obtain ⟨hdiscard, howns⟩ := h.erase hp hactive
        exact ⟨_, .inr hdiscard, howns⟩
    · cases hstep
      obtain ⟨hnew, howns⟩ := h.create (p := { id := s.nextId, connection, lastTransactionTime := time })
        rfl rfl
      refine ⟨_, .inr (.create hnew), howns.phase (fun id hid => ?_) fun ready todo heq => ?_⟩
      · refine howns.pending id ?_
        show id ∈ s.main.pending
        rw [hmain]
        exact of_decide_eq_true (List.mem_filter.mp hid).2
      · cases heq
        have hnodup := howns.nodup
        rwa [ids, List.map_append] at hnodup
  · cases hstep

omit [DecidableEq ι] in
theorem Owns.serve_spec {s' : ServerTP κ ι} (h : s.Owns o) {time : Option ℕ}
    (hstep : serve kind time s = some s') (hguarded : s.Guarded s') :
    ∃ o', (o' = o ∨ Handover o o') ∧ s'.Owns o' := by
  unfold serve at hstep
  split at hstep
  · rename_i ready id todo hmain
    obtain ⟨p, hfind, hstep⟩ := Option.bind_eq_some_iff.mp hstep
    obtain ⟨hp, rfl⟩ := find?_eq_some hfind
    have htodo := h.todo _ _ hmain
    rw [List.nodup_cons] at htodo
    -- The main thread goes on to the next connection.
    have hnext (connections : List (Pooled κ)) {o' : ℕ → Option (Owner ι)}
        (h' : Owns { s with connections } o') :
        Owns { s with connections, main := .serving ready todo } o' := by
      refine h'.phase (fun id hid => h'.pending id ?_) fun _ _ heq => ?_
      · show id ∈ s.main.pending
        rw [hmain]
        have hmem := List.mem_filter.mp hid
        exact List.mem_filter.mpr ⟨List.mem_cons_of_mem _ hmem.1, hmem.2⟩
      · cases heq
        exact htodo.2
    split at hstep
    · rename_i hready
      obtain ⟨p', hprocessed, hstep⟩ := Option.bind_eq_some_iff.mp hstep
      obtain ⟨hid, hsame⟩ := processed_eq_some hprocessed
      have hroot : o p.id = some .root := by
        have hpending := h.pending p.id (by
          rw [hmain]
          exact List.mem_filter.mpr ⟨List.mem_cons_self, decide_eq_true hready⟩)
        exact hpending.2.resolve_left ((h.alive p.id).mp (mem_ids.mpr ⟨p, hp, rfl⟩))
      split at hstep
      · cases hstep
        refine ⟨_, .inr (.enqueue hroot), (hnext s.connections h).enqueue hid rfl hroot ?_⟩
        intro hmem
        exact htodo.1 (List.mem_filter.mp hmem).1
      · cases hstep
        obtain ⟨o', ho', howns⟩ := (h.replace hp hid hsame).close kind
          (mem_replace_self hp hid) rfl fun _ => hsame.trans ((h.active p hp).mpr hroot)
        exact ⟨o', ho', hnext _ howns⟩
    · cases hstep
      obtain ⟨o', ho', howns⟩ := h.close kind hp rfl fun hclose => by
        refine hguarded p hp ⟨mem_ids.mpr ⟨p, hp, rfl⟩, fun hmem => ?_⟩
        have hmem : p.id ∈ (serve.close kind p s.connections).map (·.id) := hmem
        rw [serve.close, if_pos hclose] at hmem
        exact (mem_ids_erase.mp hmem).2 rfl
      exact ⟨o', ho', hnext _ howns⟩
  · cases hstep

theorem Owns.step_spec {s' : ServerTP κ ι} (h : s.Owns o) {a : Action κ ι}
    (hstep : step kind a s = some s') (hguarded : s.Guarded s') :
    ∃ o', (o' = o ∨ Handover o o') ∧ s'.Owns o' := by
  cases a with
  | select ready => exact ⟨o, .inl rfl, h.select_spec hstep⟩
  | accept connection => exact ⟨o, .inl rfl, h.accept_spec hstep⟩
  | makeRoom => exact h.makeRoom_spec hstep hguarded
  | serve time => exact h.serve_spec hstep hguarded
  | again =>
    have hstep : again s = some s' := hstep
    unfold again at hstep
    split at hstep
    · cases hstep
      exact ⟨o, .inl rfl, h.phase (fun _ hid => by cases hid) fun _ _ heq => by cases heq⟩
    · cases hstep
  | take w =>
    have hstep : ServerTP.take w s = some s' := hstep
    unfold ServerTP.take at hstep
    split at hstep
    · rename_i id workQueue hidle hqueue
      cases hstep
      obtain ⟨hid, howns⟩ := h.take (w := w) (by rw [hidle]; rfl) hqueue
      exact ⟨_, .inr (.take w hid), howns⟩
    · cases hstep
  | work w time =>
    have hstep : work kind w time s = some s' := hstep
    unfold work at hstep
    split at hstep
    · rename_i id hholding
      obtain ⟨p, hfind, hstep⟩ := Option.bind_eq_some_iff.mp hstep
      obtain ⟨p', hprocessed, hstep⟩ := Option.bind_eq_some_iff.mp hstep
      obtain ⟨hp, rfl⟩ := find?_eq_some hfind
      obtain ⟨hid, hsame⟩ := processed_eq_some hprocessed
      cases hstep
      refine ⟨o, .inl rfl, (h.replace hp hid hsame).worked ?_⟩
      show some p.id = (s.workers w).held
      rw [hholding]
      rfl
    · cases hstep
  | setActive w =>
    have hstep : setActive w s = some s' := hstep
    unfold setActive at hstep
    split at hstep
    · rename_i id hprocessed
      obtain ⟨p, hfind, hdone⟩ := Option.bind_eq_some_iff.mp hstep
      obtain ⟨-, rfl⟩ := find?_eq_some hfind
      cases hdone
      obtain ⟨howner, howns⟩ := h.giveBack (w := w) (p := p) { p with active := true }
        rfl rfl (by rw [hprocessed]; rfl)
      exact ⟨_, .inr (.giveBack w howner), howns⟩
    · cases hstep

/-- A step that deletes only connections whose active flag is set takes nothing from the queue or from a
worker. -/
theorem Owns.not_inUse_of_deletes {s' : ServerTP κ ι} (h : s.Owns o) {a : Action κ ι}
    (hstep : step kind a s = some s') (hguarded : s.Guarded s') {id : ℕ} (hid : s.Deletes s' id) :
    ¬ s.InUse id := by
  obtain ⟨o', hhandover, howns⟩ := h.step_spec hstep hguarded
  have halive := (h.alive id).mp hid.1
  have hgone : o' id = none := not_not.mp fun hne => hid.2 ((howns.alive id).mpr hne)
  rw [h.inUse_iff hid.1, not_not]
  rcases hhandover with rfl | hhandover
  · exact absurd hgone halive
  · exact hhandover.owner_of_discarded halive hgone

/-! ## Runs -/

omit [DecidableEq ι] in
/-- A server without connections. -/
theorem owns_listening (maxConnections : ℕ) (forcedDisconnectAllowed : Bool) :
    (listening maxConnections forcedDisconnectAllowed : ServerTP κ ι).Owns fun _ => none where
  nodup := List.nodup_nil
  alive id := by simp [ids, listening]
  active p hp := by cases hp
  queued id := by simp [listening]
  workQueue := List.nodup_nil
  held w id := by simp [listening, Worker.held]
  used id h := absurd rfl h
  pending id h := by cases h
  todo ready todo h := by cases h

/-- Every step of a run deletes only connections whose active flag is set. -/
def GuardedRun (kind : ConnectionKind κ) : List (Action κ ι) → ServerTP κ ι → Prop
  | [], _ => True
  | a :: as, s =>
    match step kind a s with
    | none => True
    | some s' => s.Guarded s' ∧ GuardedRun kind as s'

instance (s s' : ServerTP κ ι) : Decidable (s.Guarded s') :=
  inferInstanceAs (Decidable (∀ p ∈ s.connections, (p.id ∈ s.ids ∧ p.id ∉ s'.ids) → p.active = true))

instance GuardedRun.decidable :
    (as : List (Action κ ι)) → (s : ServerTP κ ι) → Decidable (GuardedRun kind as s)
  | [], _ => isTrue trivial
  | a :: as, s =>
    match h : step kind a s with
    | none => isTrue (by rw [GuardedRun, h]; trivial)
    | some s' =>
      have := GuardedRun.decidable as s'
      decidable_of_iff (s.Guarded s' ∧ GuardedRun kind as s') (by rw [GuardedRun, h])

/-- A run hands connections over from one owner to the next. -/
theorem Owns.run_spec {as : List (Action κ ι)} {s' : ServerTP κ ι} (h : s.Owns o)
    (hguarded : GuardedRun kind as s) (hrun : run kind as s = some s') :
    ∃ o', Relation.ReflTransGen Handover o o' ∧ s'.Owns o' := by
  induction as generalizing s o with
  | nil =>
    cases hrun
    exact ⟨o, .refl, h⟩
  | cons a as ih =>
    obtain ⟨s₁, hstep, hrun⟩ := Option.bind_eq_some_iff.mp hrun
    rw [GuardedRun, hstep] at hguarded
    obtain ⟨o₁, hhandover, howns⟩ := h.step_spec hstep hguarded.1
    obtain ⟨o', ho', howns'⟩ := ih howns hguarded.2 hrun
    rcases hhandover with rfl | hhandover
    · exact ⟨o', ho', howns'⟩
    · exact ⟨o', .head hhandover ho', howns'⟩

end ServerTP

open ServerTP in
/-- As long as the main thread deletes only connections whose active flag is set, no two threads hold
the same connection, and what is in the queue or in the hands of a worker is not deleted. In such a run,
a step deletes nothing that is in use exactly when it deletes only connections whose flag is set. -/
theorem threadPool_exclusive {κ ι : Type} [DecidableEq ι] (kind : ConnectionKind κ)
    (maxConnections : ℕ) (forcedDisconnectAllowed : Bool) (as : List (Action κ ι))
    (hguarded : GuardedRun kind as (listening maxConnections forcedDisconnectAllowed))
    (s : ServerTP κ ι) (hs : run kind as (listening maxConnections forcedDisconnectAllowed) = some s) :
    s.Exclusive ∧ (∀ id, s.InUse id → id ∈ s.ids) ∧ ∀ a s', step kind a s = some s' →
      (s.Guarded s' ↔ ∀ id, s.Deletes s' id → ¬ s.InUse id) := by
  obtain ⟨o, -, howns⟩ := (owns_listening _ _).run_spec hguarded hs
  refine ⟨howns.exclusive, fun id huse => ?_, fun a s' hstep =>
    ⟨fun hguarded _ => howns.not_inUse_of_deletes hstep hguarded, howns.guarded⟩⟩
  rw [howns.alive]
  rcases huse with hqueue | ⟨w, hw⟩
  · rw [(howns.queued id).mp hqueue]
    simp
  · rw [(howns.held w id).mp hw]
    simp

/-! ## A client that is served while another one connects -/

/-- A TCP connection of a client that sends one request. -/
def TcpConnection.client (request : Bytes) : ServerConnection TcpFields Unit Bytes :=
  .accepted (List.replicate (maxBufferLength + 1) 0) (fun _ => 0) {}
    ⟨TcpClient.frame request, [⟨.arrived 100, 0, true⟩, ⟨.arrived 0, 0, true⟩]⟩ {} ()

/-- The steps until a worker has executed the request of the first client. -/
def ServerTP.serveClient : List (ServerTP.Action (ServerConnection TcpFields Unit Bytes) Unit) :=
  [.select [], .accept (some (TcpConnection.client (ascii "a"), 10)), .makeRoom, .serve none, .again,
    .select [0], .accept none, .serve none, .again, .take (), .work () none]

open ServerTP in
/-- The request of a client is executed, and the worker still holds its connection. -/
theorem threadPool_exclusive_one :
    let _ := IntOverflow.truncate
    let handler : RpcHandler Unit := fun request world => ⟨request, [], false, world, rfl⟩
    let kind := TcpConnection.kind handler
    ∃ s, run kind serveClient (listening 1 true) = some s ∧ (s.workers ()).held = some 0 ∧
      s.Exclusive ∧ (∀ id, s.InUse id → id ∈ s.ids) ∧ ∀ a s', step kind a s = some s' →
        (s.Guarded s' ↔ ∀ id, s.Deletes s' id → ¬ s.InUse id) := by
  intro _ handler kind
  have hheld : ∃ s ∈ run kind serveClient (listening 1 true), (s.workers ()).held = some 0 := by
    decide +kernel
  obtain ⟨s, hs, hheld⟩ := hheld
  exact ⟨s, hs, hheld, threadPool_exclusive kind 1 true serveClient (by decide +kernel) s hs⟩

open ServerTP in
/-- Another client connects when the worker has executed the request: the connection is deleted while
the worker holds it. -/
theorem threadPool_deletes_held :
    let _ := IntOverflow.truncate
    let handler : RpcHandler Unit := fun request world => ⟨request, [], false, world, rfl⟩
    let kind := TcpConnection.kind handler
    ∃ s ∈ run kind (serveClient ++
        [.select [], .accept (some (TcpConnection.client (ascii "b"), 20)), .makeRoom]) (listening 1 true),
      (s.workers ()).held = some 0 ∧ 0 ∉ s.ids := by
  decide +kernel

end AnyRpc
