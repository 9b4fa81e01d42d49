import AnyRpc.Server.SharedMethods

/-! # The lifetime of methods

What holds of the map, of the objects and of the executions in flight, whatever the order of the
steps. -/

namespace AnyRpc

namespace SharedMethodManager

variable {ι : Type} {s s' : SharedMethodManager ι}

/-- The number of executions of an object that are in flight. -/
def executions (s : SharedMethodManager ι) (id : ℕ) : ℕ := (s.inFlight.map Prod.snd).count id

/-- An object with the name is in the map. -/
def Registered (s : SharedMethodManager ι) (name : Bytes) (id : ℕ) : Prop := (name, id) ∈ s.methods

/-- The invariant of the steps. -/
structure Inv (s : SharedMethodManager ι) : Prop where
  keys : (s.methods.map Prod.fst).Nodup
  /-- The objects in the map are there, under their names. -/
  named : ∀ name id, (name, id) ∈ s.methods → ∃ o, s.objects id = some o ∧ o.name = name
  counted : ∀ id o, s.objects id = some o → o.activeThreads = s.executions id
  /-- What is executed is in the map. -/
  running : ∀ t id, (t, id) ∈ s.inFlight → ∃ name, (name, id) ∈ s.methods
  unused : ∀ id, s.nextId ≤ id → s.objects id = none
  freed : s.freed.Nodup
  gone : ∀ id ∈ s.freed, s.objects id = none ∧ id < s.nextId

/-! ## The map -/

theorem mem_of_find {name : Bytes} {id : ℕ} (h : s.find name = some id) : (name, id) ∈ s.methods := by
  obtain ⟨l, l', heq, -⟩ := List.lookup_eq_some_iff.mp h
  rw [heq]
  simp

theorem not_mem_of_find {name : Bytes} (h : s.find name = none) (id : ℕ) :
    (name, id) ∉ s.methods := by
  intro hmem
  have hne := List.lookup_eq_none_iff.mp h (name, id) hmem
  simp at hne

theorem Inv.find_eq (h : s.Inv) {name : Bytes} {id : ℕ} (hmem : (name, id) ∈ s.methods) :
    s.find name = some id := by
  cases hfind : s.find name with
  | none => exact absurd hmem (not_mem_of_find hfind id)
  | some id' =>
    have heq := List.inj_on_of_nodup_map h.keys (mem_of_find hfind) hmem rfl
    rw [(Prod.mk.inj heq).2]

/-- An object is in the map under one name only. -/
theorem Inv.name_unique (h : s.Inv) {name name' : Bytes} {id : ℕ} (hmem : (name, id) ∈ s.methods)
    (hmem' : (name', id) ∈ s.methods) : name = name' := by
  obtain ⟨o, ho, hname⟩ := h.named name id hmem
  obtain ⟨o', ho', hname'⟩ := h.named name' id hmem'
  rw [ho] at ho'
  cases ho'
  rw [← hname, hname']

/-- What is not in the map is not executed. -/
theorem Inv.executions_eq_zero (h : s.Inv) {id : ℕ} (hid : ∀ name, (name, id) ∉ s.methods) :
    s.executions id = 0 := by
  rw [executions, List.count_eq_zero]
  intro hmem
  obtain ⟨⟨t, id'⟩, hflight, rfl⟩ := List.mem_map.mp hmem
  obtain ⟨name, hname⟩ := h.running t id' hflight
  exact hid name hname

theorem executions_pos {t : ι} {id : ℕ} (h : (t, id) ∈ s.inFlight) : 0 < s.executions id :=
  List.count_pos_iff.mpr (List.mem_map.mpr ⟨(t, id), h, rfl⟩)

/-! ## What the parts of a step keep -/

/-- The objects after one of them is changed or allocated. -/
theorem update_eq_some {objects : ℕ → Option MethodObject} {id id' : ℕ} {o o' : MethodObject} :
    Function.update objects id (some o) id' = some o' ↔
      id' = id ∧ o = o' ∨ id' ≠ id ∧ objects id' = some o' := by
  by_cases heq : id' = id
  · simp [heq]
  · simp [heq]

theorem mem_insert {name name' : Bytes} {id id' : ℕ} :
    (name', id') ∈ (s.insert name id).methods ↔
      (name', id') = (name, id) ∨ (name', id') ∈ s.methods :=
  List.mem_orderedInsert _

theorem mem_erase {name name' : Bytes} {id' : ℕ} :
    (name', id') ∈ (s.erase name).methods ↔ (name', id') ∈ s.methods ∧ name' ≠ name := by
  simp [erase]

/-- An object is put into the map under its name. -/
theorem Inv.insert (h : s.Inv) {id : ℕ} {o : MethodObject} (ho : s.objects id = some o)
    (hfind : s.find o.name = none) : (s.insert o.name id).Inv where
  keys := by
    have hperm : ((s.insert o.name id).methods.map Prod.fst).Perm
        (o.name :: s.methods.map Prod.fst) :=
      (List.perm_orderedInsert _ (o.name, id) s.methods).map Prod.fst
    rw [hperm.nodup_iff, List.nodup_cons]
    refine ⟨?_, h.keys⟩
    intro hmem
    obtain ⟨⟨name, id'⟩, hname, rfl⟩ := List.mem_map.mp hmem
    exact not_mem_of_find hfind id' hname
  named name' id' hmem := by
    rcases mem_insert.mp hmem with heq | hmem
    · cases heq
      exact ⟨o, ho, rfl⟩
    · exact h.named name' id' hmem
  counted := h.counted
  running t id' hflight := by
    obtain ⟨name', hname'⟩ := h.running t id' hflight
    exact ⟨name', mem_insert.mpr (.inr hname')⟩
  unused := h.unused
  freed := h.freed
  gone := h.gone

/-- An entry of the map whose object is not executed is erased. -/
theorem Inv.erase (h : s.Inv) {name : Bytes} {id : ℕ} (hmem : (name, id) ∈ s.methods)
    (hidle : s.executions id = 0) : (s.erase name).Inv where
  keys := h.keys.sublist (List.filter_sublist.map Prod.fst)
  named name' id' hmem' := h.named name' id' (mem_erase.mp hmem').1
  counted := h.counted
  running t id' hflight := by
    obtain ⟨name', hname'⟩ := h.running t id' hflight
    refine ⟨name', mem_erase.mpr ⟨hname', ?_⟩⟩
    rintro rfl
    -- The entry that is erased is the one of an object that is not executed.
    have heq := List.inj_on_of_nodup_map h.keys hmem hname' rfl
    cases heq
    exact absurd hidle (executions_pos hflight).ne'
  unused := h.unused
  freed := h.freed
  gone := h.gone

/-- An object that is not in the map is freed. -/
theorem Inv.free (h : s.Inv) {id : ℕ} {o : MethodObject} (ho : s.objects id = some o)
    (hid : ∀ name, (name, id) ∉ s.methods) : (s.free id).Inv where
  keys := h.keys
  named name' id' hmem := by
    obtain ⟨o', ho', hname⟩ := h.named name' id' hmem
    refine ⟨o', ?_, hname⟩
    show Function.update s.objects id none id' = _
    rw [Function.update_of_ne, ho']
    rintro rfl
    exact hid name' hmem
  counted id' o' ho' := by
    have ho' : Function.update s.objects id none id' = some o' := ho'
    by_cases heq : id' = id
    · rw [heq, Function.update_self] at ho'
      cases ho'
    · rw [Function.update_of_ne heq] at ho'
      exact h.counted id' o' ho'
  running := h.running
  unused id' hid' := by
    show Function.update s.objects id none id' = _
    by_cases heq : id' = id
    · rw [heq, Function.update_self]
    · rw [Function.update_of_ne heq, h.unused id' hid']
  freed := by
    refine List.nodup_append.mpr ⟨h.freed, List.nodup_singleton id, ?_⟩
    intro a ha b hb heq
    rw [List.mem_singleton.mp hb] at heq
    rw [heq] at ha
    rw [(h.gone id ha).1] at ho
    cases ho
  gone id' hid' := by
    have hlt : id < s.nextId := by
      by_contra hle
      rw [h.unused id (Nat.not_lt.mp hle)] at ho
      cases ho
    show Function.update s.objects id none id' = none ∧ id' < s.nextId
    by_cases heq : id' = id
    · rw [heq, Function.update_self]
      exact ⟨rfl, hlt⟩
    · rcases List.mem_append.mp hid' with hold | hnew
      · rw [Function.update_of_ne heq]
        exact h.gone id' hold
      · exact absurd (List.mem_singleton.mp hnew) heq

theorem Inv.release (h : s.Inv) {id : ℕ} {o : MethodObject} (ho : s.objects id = some o)
    (o' : MethodObject) (hid : ∀ name, (name, id) ∉ s.methods) : (s.release id o').Inv := by
  unfold SharedMethodManager.release
  split
  · exact h.free ho hid
  · exact h

/-- A new object. -/
theorem Inv.allocate (h : s.Inv) {o : MethodObject} (ho : o.activeThreads = 0) :
    (s.allocate o).Inv where
  keys := h.keys
  named name' id' hmem := by
    obtain ⟨o', ho', hname⟩ := h.named name' id' hmem
    refine ⟨o', ?_, hname⟩
    show Function.update s.objects s.nextId (some o) id' = _
    rw [Function.update_of_ne, ho']
    rintro rfl
    rw [h.unused _ le_rfl] at ho'
    cases ho'
  counted id' o' ho' := by
    have ho' : Function.update s.objects s.nextId (some o) id' = some o' := ho'
    by_cases heq : id' = s.nextId
    · rw [heq, Function.update_self] at ho'
      cases ho'
      rw [heq, ho]
      refine (Nat.cast_eq_zero.mpr (h.executions_eq_zero fun name hmem => ?_)).symm
      obtain ⟨o', ho', -⟩ := h.named name s.nextId hmem
      rw [h.unused _ le_rfl] at ho'
      cases ho'
    · rw [Function.update_of_ne heq] at ho'
      exact h.counted id' o' ho'
  running := h.running
  unused id' hid' := by
    have hid' : s.nextId + 1 ≤ id' := hid'
    show Function.update s.objects s.nextId (some o) id' = _
    rw [Function.update_of_ne (by omega), h.unused id' (by omega)]
  freed := h.freed
  gone id' hid' := by
    obtain ⟨hgone, hlt⟩ := h.gone id' hid'
    show Function.update s.objects s.nextId (some o) id' = none ∧ id' < s.nextId + 1
    rw [Function.update_of_ne (by omega), hgone]
    exact ⟨rfl, by omega⟩

/-- An object that is there is changed, except for its name, along with the executions in flight. -/
theorem Inv.setObject (h : s.Inv) {id : ℕ} {o o' : MethodObject} {inFlight : List (ι × ℕ)}
    (ho : s.objects id = some o) (hname : o'.name = o.name)
    (hcount : o'.activeThreads = ((inFlight.map Prod.snd).count id : ℕ))
    (hothers : ∀ id', id' ≠ id → (inFlight.map Prod.snd).count id' = s.executions id')
    (hrunning : ∀ t id', (t, id') ∈ inFlight → ∃ name, (name, id') ∈ s.methods) :
    Inv { s.setObject id o' with inFlight } where
  keys := h.keys
  named name' id' hmem := by
    obtain ⟨o₁, ho₁, hname₁⟩ := h.named name' id' hmem
    show ∃ o₂, Function.update s.objects id (some o') id' = some o₂ ∧ _
    by_cases heq : id' = id
    · rw [heq] at ho₁ ⊢
      rw [ho] at ho₁
      cases ho₁
      exact ⟨o', Function.update_self .., hname.trans hname₁⟩
    · exact ⟨o₁, (Function.update_of_ne heq ..).trans ho₁, hname₁⟩
  counted id' o₁ ho₁ := by
    have ho₁ : Function.update s.objects id (some o') id' = some o₁ := ho₁
    show _ = ((inFlight.map Prod.snd).count id' : ℤ)
    by_cases heq : id' = id
    · rw [heq, Function.update_self] at ho₁
      cases ho₁
      rw [heq]
      exact hcount
    · rw [Function.update_of_ne heq] at ho₁
      rw [hothers id' heq]
      exact h.counted id' o₁ ho₁
  running := hrunning
  unused id' hid' := by
    show Function.update s.objects id (some o') id' = _
    rw [Function.update_of_ne, h.unused id' hid']
    rintro rfl
    rw [h.unused _ hid'] at ho
    cases ho
  freed := h.freed
  gone id' hid' := by
    obtain ⟨hgone, hlt⟩ := h.gone id' hid'
    refine ⟨?_, hlt⟩
    show Function.update s.objects id (some o') id' = none
    rw [Function.update_of_ne, hgone]
    rintro rfl
    rw [hgone] at ho
    cases ho

/-! ## The steps -/

/-- An execution begins. -/
def begin (t : ι) (id : ℕ) (o : MethodObject) (s : SharedMethodManager ι) : SharedMethodManager ι :=
  { s.setObject id { o with activeThreads := o.activeThreads + 1 } with
    inFlight := s.inFlight ++ [(t, id)] }

/-- An execution ends, without the removal of its method. -/
def finish [DecidableEq ι] (t : ι) (id : ℕ) (o : MethodObject) (s : SharedMethodManager ι) :
    SharedMethodManager ι :=
  { s.setObject id { o with activeThreads := o.activeThreads - 1 } with
    inFlight := s.inFlight.erase (t, id) }

/-- What a step does to the objects and to the map, and what it answers. -/
inductive Changes [DecidableEq ι] (s : SharedMethodManager ι) :
    Action ι → MethodResponse → SharedMethodManager ι → Prop
  | create (name help : Bytes) (deleteOnRemove : Bool) :
      Changes s (.create name help deleteOnRemove) .done (s.allocate { name, help, deleteOnRemove })
  | addFunction {name : Bytes} (help : Bytes) (hfind : s.find name = none) :
      Changes s (.addFunction name help) .done ((s.allocate { name, help }).insert name s.nextId)
  | addMethod {id : ℕ} {o : MethodObject} (ho : s.objects id = some o) (hfind : s.find o.name = none) :
      Changes s (.addMethod id) .done (s.insert o.name id)
  | refuse {id id' : ℕ} {o : MethodObject} (e : AnyRpcException) (ho : s.objects id = some o)
      (hfind : s.find o.name = some id') : Changes s (.addMethod id) (.threw e) (s.release id o)
  | mark {t : ι} {name : Bytes} {w : Bool} {id : ℕ} {o : MethodObject} (r : MethodResponse)
      (waiting : List (ι × Bytes)) (hfind : s.find name = some id) (ho : s.objects id = some o)
      (hactive : 0 < o.activeThreads) :
      Changes s (.removeMethod t name w) r
        { s.setObject id { o with delayedRemove := true } with waiting }
  | remove {t : ι} {name : Bytes} {w : Bool} {id : ℕ} {o : MethodObject} (hfind : s.find name = some id)
      (ho : s.objects id = some o) (hidle : ¬ 0 < o.activeThreads) :
      Changes s (.removeMethod t name w) (.returned true) ((s.erase name).release id o)
  | begin {t : ι} {name : Bytes} {id : ℕ} {o : MethodObject} (hfind : s.find name = some id)
      (ho : s.objects id = some o) (hmark : o.delayedRemove = false) :
      Changes s (.executeMethod t name) (.executes id) (s.begin t id o)
  | finish {t : ι} {id : ℕ} {o : MethodObject} (threw : Bool) (hflight : (t, id) ∈ s.inFlight)
      (ho : s.objects id = some o) (hmore : o.delayedRemove = true → o.activeThreads ≠ 1) :
      Changes s (.followUpOperations t id threw) (if threw then .rethrew else .returned true)
        (s.finish t id o)
  | finishLast {t : ι} {id : ℕ} {o : MethodObject} (threw : Bool) (hflight : (t, id) ∈ s.inFlight)
      (ho : s.objects id = some o) (hmark : o.delayedRemove = true) (hlast : o.activeThreads = 1)
      (hmem : (o.name, id) ∈ s.methods) :
      Changes s (.followUpOperations t id threw) (if threw then .rethrew else .returned true)
        (((s.finish t id o).erase o.name).release id { o with activeThreads := 0 })
  | nothing {a : Action ι} (r : MethodResponse) (waiting : List (ι × Bytes))
      (ha : ∀ t id threw, a ≠ .followUpOperations t id threw) : Changes s a r { s with waiting }

theorem release_erase (s : SharedMethodManager ι) (id : ℕ) (o : MethodObject) (name : Bytes) :
    (s.release id o).erase name = (s.erase name).release id o := by
  unfold release
  split <;> rfl

/-- Everything that a step can do. -/
theorem Inv.step_cases [DecidableEq ι] (h : s.Inv) {a : Action ι} {r : MethodResponse}
    (hstep : s.step a = some (r, s')) : Changes s a r s' := by
  cases a with
  | create name help deleteOnRemove =>
    cases hstep
    exact .create name help deleteOnRemove
  | addFunction name help =>
    simp only [step, addFunction] at hstep
    split at hstep
    · next hfind =>
      cases hstep
      exact .addFunction help hfind
    · cases hstep
      exact .nothing _ s.waiting (by simp)
  | addMethod id =>
    obtain ⟨o, ho, hstep⟩ := Option.bind_eq_some_iff.mp hstep
    split at hstep
    · next hfind =>
      cases hstep
      exact .addMethod ho hfind
    · next hfind =>
      cases hstep
      exact .refuse _ ho hfind
  | removeMethod t name w =>
    simp only [step, removeMethod] at hstep
    split at hstep
    · cases hstep
      exact .nothing _ s.waiting (by simp)
    · next id hfind =>
      obtain ⟨o, ho, hstep⟩ := Option.bind_eq_some_iff.mp hstep
      split at hstep
      · next hactive =>
        split at hstep
        · cases hstep
          exact .mark _ _ hfind ho hactive
        · cases hstep
          exact .mark _ s.waiting hfind ho hactive
      · next hidle =>
        cases hstep
        rw [release_erase]
        exact .remove hfind ho hidle
  | wake t name =>
    simp only [step, wake] at hstep
    split at hstep
    · split at hstep
      · cases hstep
        exact .nothing _ _ (by simp)
      · cases hstep
        exact .nothing _ s.waiting (by simp)
    · cases hstep
  | executeMethod t name =>
    simp only [step, executeMethod] at hstep
    split at hstep
    · cases hstep
      exact .nothing _ s.waiting (by simp)
    · next id hfind =>
      obtain ⟨o, ho, hstep⟩ := Option.bind_eq_some_iff.mp hstep
      split at hstep
      · cases hstep
        exact .nothing _ s.waiting (by simp)
      · next hmark =>
        cases hstep
        exact .begin hfind ho (Bool.not_eq_true _ ▸ hmark)
  | followUpOperations t id threw =>
    simp only [step, followUpOperations] at hstep
    split at hstep
    · next hflight =>
      obtain ⟨o, ho, hstep⟩ := Option.bind_eq_some_iff.mp hstep
      obtain ⟨name, hmem⟩ := h.running t id hflight
      obtain ⟨o', ho', hname⟩ := h.named name id hmem
      rw [ho] at ho'
      cases ho'
      subst hname
      split at hstep
      · next hlast =>
        rw [Bool.and_eq_true, decide_eq_true_eq] at hlast
        have hone : o.activeThreads = 1 := by
          have hzero : o.activeThreads - 1 = 0 := hlast.2
          omega
        have hfind : SharedMethodManager.find o.name
            { s.setObject id { o with activeThreads := o.activeThreads - 1 } with
              inFlight := s.inFlight.erase (t, id) } = some id := h.find_eq hmem
        simp only [hfind] at hstep
        cases hstep
        rw [release_erase]
        have hzero : o.activeThreads - 1 = 0 := by omega
        have hlast := Changes.finishLast threw hflight ho hlast.1 hone hmem
        rw [← hzero] at hlast
        exact hlast
      · next hmore =>
        cases hstep
        refine .finish threw hflight ho ?_
        intro hmark hone
        apply hmore
        simp [hmark, hone]
    · cases hstep
  | listMethods =>
    cases hstep
    exact .nothing _ s.waiting (by simp)

theorem Inv.begin (h : s.Inv) (t : ι) {name : Bytes} {id : ℕ} {o : MethodObject}
    (hfind : s.find name = some id) (ho : s.objects id = some o) : (s.begin t id o).Inv := by
  refine h.setObject ho rfl ?_ ?_ ?_
  · rw [List.map_append, List.count_append]
    have hcount := h.counted id o ho
    simp only [executions] at hcount
    simp [hcount]
  · intro id' hne
    rw [List.map_append, List.count_append]
    simp [executions, Ne.symm hne]
  · intro t' id' hflight
    rcases List.mem_append.mp hflight with hold | hnew
    · exact h.running t' id' hold
    · cases List.mem_singleton.mp hnew
      exact ⟨name, mem_of_find hfind⟩

variable [DecidableEq ι]

/-- An execution that is taken away from those in flight. -/
theorem executions_erase {t : ι} {id : ℕ} (h : (t, id) ∈ s.inFlight) (id' : ℕ) :
    ((s.inFlight.erase (t, id)).map Prod.snd).count id' + (if id' = id then 1 else 0) =
      s.executions id' := by
  have hperm : (s.inFlight.map Prod.snd).Perm (id :: (s.inFlight.erase (t, id)).map Prod.snd) :=
    (List.perm_cons_erase h).map Prod.snd
  rw [executions, hperm.count_eq, List.count_cons]
  by_cases heq : id' = id
  · simp [heq]
  · simp [heq, Ne.symm heq]

theorem Inv.finish (h : s.Inv) {t : ι} {id : ℕ} {o : MethodObject} (hflight : (t, id) ∈ s.inFlight)
    (ho : s.objects id = some o) : (s.finish t id o).Inv := by
  refine h.setObject ho rfl ?_ ?_ ?_
  · have hcount := h.counted id o ho
    have herase := executions_erase hflight id
    rw [if_pos rfl] at herase
    show o.activeThreads - 1 = _
    omega
  · intro id' hne
    have herase := executions_erase hflight id'
    rw [if_neg hne] at herase
    exact herase
  · intro t' id' hflight'
    exact h.running t' id' (List.mem_of_mem_erase hflight')

/-- A method that is deleted when it is removed is not added while it is in the map. -/
def Legal (s : SharedMethodManager ι) : Action ι → Prop
  | .addMethod id =>
    ∀ o ∈ s.objects id, o.deleteOnRemove = true → ∀ e ∈ s.methods, e.2 ≠ id
  | _ => True

/-- A step keeps the invariant. -/
theorem Inv.step (h : s.Inv) {a : Action ι} (hlegal : s.Legal a) {r : MethodResponse}
    (hstep : s.step a = some (r, s')) : s'.Inv := by
  cases h.step_cases hstep with
  | create name help deleteOnRemove => exact h.allocate rfl
  | @addFunction name help hfind =>
    have hnew : (s.allocate { name, help }).Inv := h.allocate rfl
    exact hnew.insert (Function.update_self ..) hfind
  | addMethod ho hfind => exact h.insert ho hfind
  | @refuse id id' o e ho hfind =>
    unfold SharedMethodManager.release
    split
    · next hdelete =>
      exact h.free ho fun name hmem => hlegal o ho hdelete _ hmem rfl
    · exact h
  | @mark t name w id o r waiting hfind ho hactive =>
    have hmarked : ({ s.setObject id { o with delayedRemove := true } with
        inFlight := s.inFlight } : SharedMethodManager ι).Inv :=
      h.setObject ho rfl (h.counted id o ho) (fun _ _ => rfl) h.running
    exact ⟨hmarked.keys, hmarked.named, hmarked.counted, hmarked.running, hmarked.unused,
      hmarked.freed, hmarked.gone⟩
  | @remove t name w id o hfind ho hidle =>
    have hmem := mem_of_find hfind
    have hnone : s.executions id = 0 := by
      have hcount := h.counted id o ho
      omega
    refine (h.erase hmem hnone).release ho o fun name' hmem' => ?_
    have hmem' := mem_erase.mp hmem'
    exact hmem'.2 (h.name_unique hmem'.1 hmem)
  | begin hfind ho hmark => exact h.begin _ hfind ho
  | finish threw hflight ho hmore => exact h.finish hflight ho
  | @finishLast t id o threw hflight ho hmark hlast hmem =>
    have hdone := h.finish hflight ho
    have hobject : (s.finish t id o).objects id = some { o with activeThreads := o.activeThreads - 1 } :=
      Function.update_self ..
    have hnone : (s.finish t id o).executions id = 0 := by
      have hcount := hdone.counted id _ hobject
      simp only at hcount
      omega
    refine (hdone.erase hmem hnone).release hobject _ fun name' hmem' => ?_
    have hmem' := mem_erase.mp hmem'
    exact hmem'.2 (hdone.name_unique hmem'.1 hmem)
  | nothing r waiting ha =>
    exact ⟨h.keys, h.named, h.counted, h.running, h.unused, h.freed, h.gone⟩

/-! ## Marks -/

/-- What is in the map and marked for its removal is still executed. -/
def Pending (s : SharedMethodManager ι) : Prop :=
  ∀ name id o, (name, id) ∈ s.methods → s.objects id = some o → o.delayedRemove = true →
    0 < o.activeThreads

/-- No method is added that was marked for its removal. -/
def Unmarked (s : SharedMethodManager ι) : Action ι → Prop
  | .addMethod id => ∀ o ∈ s.objects id, o.delayedRemove = false
  | _ => True

omit [DecidableEq ι] in
theorem objects_release {id id' : ℕ} {o o' : MethodObject}
    (h : (s.release id o).objects id' = some o') : s.objects id' = some o' := by
  unfold release at h
  split at h
  · by_cases heq : id' = id
    · rw [heq] at h
      have hnone : (s.free id).objects id = none := Function.update_self ..
      rw [hnone] at h
      cases h
    · have hsame : (s.free id).objects id' = s.objects id' := Function.update_of_ne heq ..
      rwa [hsame] at h
  · exact h

omit [DecidableEq ι] in
@[simp] theorem methods_release (s : SharedMethodManager ι) (id : ℕ) (o : MethodObject) :
    (s.release id o).methods = s.methods := by
  unfold release
  split <;> rfl

/-- A step that does not add a method with a mark leaves none without an execution. -/
theorem Pending.step (hp : s.Pending) (h : s.Inv) {a : Action ι} (hunmarked : s.Unmarked a)
    {r : MethodResponse} (hstep : s.step a = some (r, s')) : s'.Pending := by
  intro name' id' o' hmem' ho' hmark'
  cases h.step_cases hstep with
  | create name help deleteOnRemove =>
    rcases update_eq_some.mp ho' with ⟨-, rfl⟩ | ⟨-, ho'⟩
    · cases hmark'
    · exact hp name' id' o' hmem' ho' hmark'
  | @addFunction name help hfind =>
    rcases update_eq_some.mp ho' with ⟨-, rfl⟩ | ⟨hne, ho'⟩
    · cases hmark'
    · rcases mem_insert.mp hmem' with heq | hmem'
      · exact absurd (Prod.mk.inj heq).2 hne
      · exact hp name' id' o' hmem' ho' hmark'
  | @addMethod id o ho hfind =>
    rcases mem_insert.mp hmem' with heq | hmem'
    · cases heq
      rw [hunmarked o' ho'] at hmark'
      cases hmark'
    · exact hp name' id' o' hmem' ho' hmark'
  | @refuse id id' o e ho hfind =>
    rw [methods_release] at hmem'
    exact hp name' _ o' hmem' (objects_release ho') hmark'
  | @mark t name w id o r waiting hfind ho hactive =>
    rcases update_eq_some.mp ho' with ⟨-, rfl⟩ | ⟨-, ho'⟩
    · exact hactive
    · exact hp name' id' o' hmem' ho' hmark'
  | @remove t name w id o hfind ho hidle =>
    have hobject : (s.erase name).objects id' = some o' := objects_release ho'
    rw [methods_release] at hmem'
    exact hp name' id' o' (mem_erase.mp hmem').1 hobject hmark'
  | @begin t name id o hfind ho hmark =>
    rcases update_eq_some.mp ho' with ⟨-, rfl⟩ | ⟨-, ho'⟩
    · rw [hmark] at hmark'
      cases hmark'
    · exact hp name' id' o' hmem' ho' hmark'
  | @finish t id o threw hflight ho hmore =>
    rcases update_eq_some.mp ho' with ⟨rfl, rfl⟩ | ⟨-, ho'⟩
    · -- Another execution is in flight.
      have hactive := hp name' id' o hmem' ho hmark'
      have hone := hmore hmark'
      show 0 < o.activeThreads - 1
      omega
    · exact hp name' id' o' hmem' ho' hmark'
  | @finishLast t id o threw hflight ho hmark hlast hmem =>
    have hobject : ((s.finish t id o).erase o.name).objects id' = some o' := objects_release ho'
    rw [methods_release] at hmem'
    obtain ⟨hold, hne⟩ : (name', id') ∈ s.methods ∧ name' ≠ o.name := mem_erase.mp hmem'
    rcases update_eq_some.mp hobject with ⟨rfl, rfl⟩ | ⟨-, ho'⟩
    · exact absurd (h.name_unique hold hmem) hne
    · exact hp name' id' o' hold ho' hmark'
  | nothing r waiting ha => exact hp name' id' o' hmem' ho' hmark'

/-! ## Objects that are added once -/

/-- The object that a step adds to the map, or tries to add. -/
def adds (s : SharedMethodManager ι) : Action ι → List ℕ
  | .addFunction name _ => if s.find name = none then [s.nextId] else []
  | .addMethod id => [id]
  | _ => []

/-- What holds while every object is added once: only those that were added are in the map or
marked. -/
structure AddedOnce (added : List ℕ) (s : SharedMethodManager ι) : Prop where
  registered : ∀ name id, (name, id) ∈ s.methods → id ∈ added
  marked : ∀ id o, s.objects id = some o → o.delayedRemove = true → id ∈ added

omit [DecidableEq ι] in
theorem AddedOnce.unmarked {added : List ℕ} (h : s.AddedOnce added) {a : Action ι}
    (hnew : ∀ id ∈ s.adds a, id ∉ added) : s.Unmarked a := by
  cases a with
  | addMethod id =>
    intro o ho
    rw [← Bool.not_eq_true]
    intro hmark
    exact hnew id (List.mem_singleton_self id) (h.marked id o ho hmark)
  | _ => trivial

omit [DecidableEq ι] in
theorem AddedOnce.legal {added : List ℕ} (h : s.AddedOnce added) {a : Action ι}
    (hnew : ∀ id ∈ s.adds a, id ∉ added) : s.Legal a := by
  cases a with
  | addMethod id =>
    rintro o - - ⟨name, id'⟩ hmem rfl
    exact hnew id' (List.mem_singleton_self id') (h.registered name id' hmem)
  | _ => trivial

theorem AddedOnce.step {added : List ℕ} (hadded : s.AddedOnce added) (h : s.Inv) {a : Action ι}
    {r : MethodResponse} (hstep : s.step a = some (r, s')) : s'.AddedOnce (s.adds a ++ added) := by
  -- An object that is changed, where the change leaves its mark.
  have hupdate {id : ℕ} {o : MethodObject} (hmark : o.delayedRemove = true → id ∈ added) (id' : ℕ)
      (o' : MethodObject) (ho' : Function.update s.objects id (some o) id' = some o')
      (hmark' : o'.delayedRemove = true) : id' ∈ added := by
    rcases update_eq_some.mp ho' with ⟨rfl, rfl⟩ | ⟨-, ho'⟩
    · exact hmark hmark'
    · exact hadded.marked id' o' ho' hmark'
  cases h.step_cases hstep with
  | create name help deleteOnRemove =>
    exact ⟨hadded.registered, hupdate fun hmark => by cases hmark⟩
  | @addFunction name help hfind =>
    simp only [adds, if_pos hfind]
    refine ⟨fun name' id' hmem' => ?_, fun id' o' ho' hmark' =>
      List.mem_append_right _ (hupdate (fun hmark => by cases hmark) id' o' ho' hmark')⟩
    rcases mem_insert.mp hmem' with heq | hmem'
    · cases heq
      exact List.mem_append_left _ (List.mem_singleton_self _)
    · exact List.mem_append_right _ (hadded.registered name' id' hmem')
  | @addMethod id o ho hfind =>
    refine ⟨fun name' id' hmem' => ?_, fun id' o' ho' hmark' =>
      List.mem_append_right _ (hadded.marked id' o' ho' hmark')⟩
    rcases mem_insert.mp hmem' with heq | hmem'
    · cases heq
      exact List.mem_append_left _ (List.mem_singleton_self _)
    · exact List.mem_append_right _ (hadded.registered name' id' hmem')
  | @refuse id id' o e ho hfind =>
    refine ⟨fun name' id' hmem' => ?_, fun id' o' ho' hmark' =>
      List.mem_append_right _ (hadded.marked id' o' (objects_release ho') hmark')⟩
    rw [methods_release] at hmem'
    exact List.mem_append_right _ (hadded.registered name' id' hmem')
  | @mark t name w id o r waiting hfind ho hactive =>
    exact ⟨hadded.registered, hupdate fun _ => hadded.registered name id (mem_of_find hfind)⟩
  | @remove t name w id o hfind ho hidle =>
    refine ⟨fun name' id' hmem' => ?_, fun id' o' ho' hmark' => ?_⟩
    · rw [methods_release] at hmem'
      exact hadded.registered name' id' (mem_erase.mp hmem').1
    · have hobject : (s.erase name).objects id' = some o' := objects_release ho'
      exact hadded.marked id' o' hobject hmark'
  | @begin t name id o hfind ho hmark =>
    exact ⟨hadded.registered, hupdate (hadded.marked id o ho)⟩
  | @finish t id o threw hflight ho hmore =>
    exact ⟨hadded.registered, hupdate (hadded.marked id o ho)⟩
  | @finishLast t id o threw hflight ho hmark hlast hmem =>
    refine ⟨fun name' id' hmem' => ?_, fun id' o' ho' hmark' => ?_⟩
    · rw [methods_release] at hmem'
      have hold : (name', id') ∈ s.methods ∧ name' ≠ o.name := mem_erase.mp hmem'
      exact hadded.registered name' id' hold.1
    · have hobject : ((s.finish t id o).erase o.name).objects id' = some o' := objects_release ho'
      have hmarked : ({ o with activeThreads := o.activeThreads - 1 } : MethodObject).delayedRemove =
          true → id ∈ added := hadded.marked id o ho
      exact hupdate hmarked id' o' hobject hmark'
  | nothing r waiting ha =>
    exact ⟨fun name' id' hmem' => List.mem_append_right _ (hadded.registered name' id' hmem'),
      fun id' o' ho' hmark' => List.mem_append_right _ (hadded.marked id' o' ho' hmark')⟩

/-! ## Runs -/

omit [DecidableEq ι] in
theorem inv_empty : (empty : SharedMethodManager ι).Inv where
  keys := List.nodup_nil
  named _ _ h := (List.not_mem_nil h).elim
  counted _ _ h := by cases h
  running _ _ h := (List.not_mem_nil h).elim
  unused _ _ := rfl
  freed := List.nodup_nil
  gone _ h := (List.not_mem_nil h).elim

omit [DecidableEq ι] in
/-- An object that is constructed and put into the map. -/
theorem Inv.addNew (h : s.Inv) {o : MethodObject} (hidle : o.activeThreads = 0)
    (hfind : s.find o.name = none) : ((s.allocate o).insert o.name s.nextId).Inv :=
  (h.allocate hidle).insert (Function.update_self ..) hfind

omit [DecidableEq ι] in
theorem inv_initial : (initial : SharedMethodManager ι).Inv := by
  have hlist := inv_empty.addNew (ι := ι)
    (o := { name := ascii "system.listMethods"
            help := ascii "List all methods available on a server as an array of strings" }) rfl rfl
  exact hlist.addNew (o := { name := ascii "system.methodHelp"
                             help := ascii "Retrieve the help string for a named method" }) rfl rfl

omit [DecidableEq ι] in
theorem unmarked_initial {id : ℕ} {o : MethodObject}
    (ho : (initial : SharedMethodManager ι).objects id = some o) : o.delayedRemove = false := by
  rcases update_eq_some.mp ho with ⟨-, rfl⟩ | ⟨-, ho⟩
  · rfl
  · rcases update_eq_some.mp ho with ⟨-, rfl⟩ | ⟨-, ho⟩
    · rfl
    · cases ho

omit [DecidableEq ι] in
theorem addedOnce_initial : (initial : SharedMethodManager ι).AddedOnce [0, 1] where
  registered name id hmem := by
    rcases mem_insert.mp hmem with heq | hmem
    · cases heq
      exact List.mem_cons_of_mem _ (List.mem_singleton_self 1)
    · rcases mem_insert.mp hmem with heq | hmem
      · cases heq
        exact List.mem_cons_self
      · exact (List.not_mem_nil hmem).elim
  marked id o ho hmark := by
    rw [unmarked_initial ho] at hmark
    cases hmark

/-- Every step of a run has a property. -/
def Throughout (P : SharedMethodManager ι → Action ι → Prop) :
    List (Action ι) → SharedMethodManager ι → Prop
  | [], _ => True
  | a :: as, s => P s a ∧ ∀ r ∈ s.step a, Throughout P as r.2

theorem Inv.run (h : s.Inv) {as : List (Action ι)} (hlegal : Throughout Legal as s)
    (hrun : run as s = some s') : s'.Inv := by
  induction as generalizing s with
  | nil =>
    cases hrun
    exact h
  | cons a as ih =>
    obtain ⟨r, hstep, hrun⟩ := Option.bind_eq_some_iff.mp hrun
    exact ih (h.step hlegal.1 hstep) (hlegal.2 r hstep) hrun

instance Throughout.decidable {P : SharedMethodManager ι → Action ι → Prop}
    [∀ s a, Decidable (P s a)] :
    (as : List (Action ι)) → (s : SharedMethodManager ι) → Decidable (Throughout P as s)
  | [], _ => isTrue trivial
  | a :: as, s =>
    have : ∀ r : MethodResponse × SharedMethodManager ι, Decidable (Throughout P as r.2) :=
      fun r => Throughout.decidable as r.2
    inferInstanceAs (Decidable (P s a ∧ ∀ r ∈ s.step a, Throughout P as r.2))

/-- Every object that is added in a run is added once. -/
def AddsOnce : List ℕ → List (Action ι) → SharedMethodManager ι → Prop
  | _, [], _ => True
  | added, a :: as, s =>
    (∀ id ∈ s.adds a, id ∉ added) ∧ ∀ r ∈ s.step a, AddsOnce (s.adds a ++ added) as r.2

instance AddsOnce.decidable : (added : List ℕ) → (as : List (Action ι)) →
    (s : SharedMethodManager ι) → Decidable (AddsOnce added as s)
  | _, [], _ => isTrue trivial
  | added, a :: as, s =>
    have := fun r : MethodResponse × SharedMethodManager ι =>
      AddsOnce.decidable (s.adds a ++ added) as r.2
    inferInstanceAs (Decidable ((∀ id ∈ s.adds a, id ∉ added) ∧
      ∀ r ∈ s.step a, AddsOnce (s.adds a ++ added) as r.2))

theorem run_of_addsOnce {added : List ℕ} {as : List (Action ι)} (h : s.Inv) (hp : s.Pending)
    (ha : s.AddedOnce added) (hadds : AddsOnce added as s) (hrun : run as s = some s') :
    s'.Inv ∧ s'.Pending := by
  induction as generalizing s added with
  | nil =>
    cases hrun
    exact ⟨h, hp⟩
  | cons a as ih =>
    obtain ⟨r, hstep, hrun⟩ := Option.bind_eq_some_iff.mp hrun
    exact ih (h.step (ha.legal hadds.1) hstep) (hp.step h (ha.unmarked hadds.1) hstep)
      (ha.step h hstep) (hadds.2 r hstep) hrun

/-! ## What is claimed of every run -/

/-- The lifetimes of the methods are those of their executions. -/
structure Sound (s : SharedMethodManager ι) : Prop where
  /-- No object is freed twice. -/
  freedOnce : s.freed.Nodup
  /-- An object that was freed is gone, and it is not executed. -/
  freedIdle : ∀ id ∈ s.freed, s.objects id = none ∧ s.executions id = 0
  /-- The counter of an object is the number of its executions. -/
  counted : ∀ id o, s.objects id = some o → o.activeThreads = s.executions id
  /-- An entry of the map names an object that is there. -/
  named : ∀ name id, (name, id) ∈ s.methods → ∃ o, s.objects id = some o ∧ o.name = name
  /-- An object that is executed is there, and in the map. -/
  alive : ∀ t id, (t, id) ∈ s.inFlight → ∃ o, s.objects id = some o ∧ (o.name, id) ∈ s.methods
  /-- What is in the map and marked for its removal is executed. -/
  pending : ∀ name id o, (name, id) ∈ s.methods → s.objects id = some o → o.delayedRemove = true →
    0 < s.executions id
  /-- An execution that finishes returns or throws what its method throws, and it erases the entry
  exactly when that is marked and the execution is the last one. -/
  finishes : ∀ t id o threw, (t, id) ∈ s.inFlight → s.objects id = some o →
    ∃ s', s.step (.followUpOperations t id threw) =
        some (if threw then .rethrew else .returned true, s') ∧
      ((∀ id', (o.name, id') ∉ s'.methods) ↔ o.delayedRemove = true ∧ s.executions id = 1) ∧
      (s'.freed = s.freed ++
        if o.delayedRemove ∧ s.executions id = 1 ∧ o.deleteOnRemove then [id] else [])

/-- An execution that is in flight can finish. -/
theorem step_followUpOperations {t : ι} {id : ℕ} {o : MethodObject} {threw : Bool}
    (hflight : (t, id) ∈ s.inFlight) (ho : s.objects id = some o) :
    (s.step (.followUpOperations t id threw)).isSome = true := by
  simp only [SharedMethodManager.step, followUpOperations, if_pos hflight, ho, Option.bind_eq_bind,
    Option.bind_some]
  split
  · split <;> rfl
  · rfl

/-- An execution that ends erases the entry of its method exactly when that is marked and the execution
is the last one. -/
theorem Inv.finishes (h : s.Inv) {t : ι} {id : ℕ} {o : MethodObject} (threw : Bool)
    (hflight : (t, id) ∈ s.inFlight) (ho : s.objects id = some o) :
    ∃ s', s.step (.followUpOperations t id threw) =
        some (if threw then .rethrew else .returned true, s') ∧
      ((∀ id', (o.name, id') ∉ s'.methods) ↔ o.delayedRemove = true ∧ s.executions id = 1) ∧
      (s'.freed = s.freed ++
        if o.delayedRemove ∧ s.executions id = 1 ∧ o.deleteOnRemove then [id] else []) := by
  have hsome : (s.step (.followUpOperations t id threw)).isSome = true :=
    step_followUpOperations hflight ho
  obtain ⟨⟨r, s'⟩, hstep⟩ := Option.isSome_iff_exists.mp hsome
  have hcount := h.counted id o ho
  cases h.step_cases hstep with
  | finish threw hflight' ho' hmore =>
    rw [ho] at ho'
    cases ho'
    have hnot : ¬ (o.delayedRemove = true ∧ s.executions id = 1) := by
      rintro ⟨hmark, hone⟩
      exact hmore hmark (by omega)
    obtain ⟨name, hmem⟩ := h.running t id hflight
    obtain ⟨o', ho', rfl⟩ := h.named name id hmem
    rw [ho] at ho'
    cases ho'
    refine ⟨_, hstep, ⟨fun hgone => absurd hmem (hgone id), fun hlast => absurd hlast hnot⟩, ?_⟩
    rw [if_neg fun hlast => hnot ⟨hlast.1, hlast.2.1⟩, List.append_nil]
    rfl
  | finishLast threw hflight' ho' hmark hlast hmem =>
    rw [ho] at ho'
    cases ho'
    have hone : s.executions id = 1 := by omega
    refine ⟨_, hstep, ⟨fun _ => ⟨hmark, hone⟩, fun _ id' hmem' => ?_⟩, ?_⟩
    · rw [methods_release] at hmem'
      exact (mem_erase.mp hmem').2 rfl
    · unfold SharedMethodManager.release
      by_cases hdelete : o.deleteOnRemove = true
      · rw [if_pos hdelete, if_pos ⟨hmark, hone, hdelete⟩]
        rfl
      · rw [if_neg hdelete, if_neg fun hlast => hdelete hlast.2.2, List.append_nil]
        rfl
  | nothing r waiting ha => exact absurd rfl (ha t id threw)

theorem Inv.sound (h : s.Inv) (hp : s.Pending) : s.Sound where
  freedOnce := h.freed
  freedIdle id hid := by
    refine ⟨(h.gone id hid).1, h.executions_eq_zero ?_⟩
    intro name hmem
    obtain ⟨o, ho, -⟩ := h.named name id hmem
    rw [(h.gone id hid).1] at ho
    cases ho
  counted := h.counted
  named := h.named
  alive t id hflight := by
    obtain ⟨name, hmem⟩ := h.running t id hflight
    obtain ⟨o, ho, rfl⟩ := h.named name id hmem
    exact ⟨o, ho, hmem⟩
  pending name id o hmem ho hmark := by
    have hactive := hp name id o hmem ho hmark
    rw [h.counted id o ho] at hactive
    exact_mod_cast hactive
  finishes t id o threw hflight ho := h.finishes threw hflight ho

end SharedMethodManager

open SharedMethodManager

/-- Whatever the order of the steps of the threads, as long as each method is added once: a method is
freed at most once and only when it is not executed, its counter is the number of its executions, and
an entry that is marked for its removal is erased by the last one. -/
theorem methodManager_sound {ι : Type} [DecidableEq ι] (as : List (Action ι))
    (hadds : AddsOnce [0, 1] as initial) (s : SharedMethodManager ι) (hrun : run as initial = some s) :
    s.Sound := by
  have hpending : (initial : SharedMethodManager ι).Pending := by
    intro name id o _ ho hmark
    rw [unmarked_initial ho] at hmark
    cases hmark
  obtain ⟨hinv, hp⟩ := run_of_addsOnce inv_initial hpending addedOnce_initial hadds hrun
  exact hinv.sound hp

/-- A method is removed by one thread while two others execute it. -/
theorem methodManager_sound_two :
    ∃ s : SharedMethodManager ℕ, run
        [.create (ascii "m") [] true, .addMethod 2, .executeMethod 1 (ascii "m"),
          .executeMethod 2 (ascii "m"), .removeMethod 3 (ascii "m") true,
          .followUpOperations 2 2 true, .executeMethod 2 (ascii "m"), .wake 3 (ascii "m"),
          .followUpOperations 1 2 false, .wake 3 (ascii "m")] initial = some s ∧
      s.freed = [2] ∧ s.Sound := by
  refine ⟨_, rfl, by decide, ?_⟩
  exact methodManager_sound
    [.create (ascii "m") [] true, .addMethod 2, .executeMethod 1 (ascii "m"),
      .executeMethod 2 (ascii "m"), .removeMethod 3 (ascii "m") true,
      .followUpOperations 2 2 true, .executeMethod 2 (ascii "m"), .wake 3 (ascii "m"),
      .followUpOperations 1 2 false, .wake 3 (ascii "m")] (by decide +kernel) _ rfl

end AnyRpc
