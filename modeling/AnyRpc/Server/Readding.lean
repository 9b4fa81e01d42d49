import AnyRpc.Server.Lifetime

/-! # Methods that are added again

A method that was removed while it was executed keeps its mark. When it is added again, it is in the
map, and it is listed, but it is not executed. -/

namespace AnyRpc

namespace SharedMethodManager

variable {ι : Type} {s s' : SharedMethodManager ι}

/-- A method is in the map, and it has a mark or not; one with a mark is not executed. -/
structure Kept (name : Bytes) (id : ℕ) (mark : Bool) (s : SharedMethodManager ι) : Prop where
  registered : (name, id) ∈ s.methods
  object : ∃ o, s.objects id = some o ∧ o.delayedRemove = mark
  idle : mark = true → s.executions id = 0

theorem objects_release_of_ne {id id' : ℕ} (o : MethodObject) (h : id' ≠ id) :
    (s.release id o).objects id' = s.objects id' := by
  unfold release
  split
  · exact Function.update_of_ne h ..
  · rfl

theorem executions_release (id id' : ℕ) (o : MethodObject) :
    (s.release id o).executions id' = s.executions id' := by
  unfold release
  split <;> rfl

variable [DecidableEq ι]

instance (s : SharedMethodManager ι) (a : Action ι) : Decidable (s.Legal a) :=
  match a with
  | .addMethod id => inferInstanceAs (Decidable (∀ o ∈ s.objects id, o.deleteOnRemove = true →
      ∀ e ∈ s.methods, e.2 ≠ id))
  | .create .. | .addFunction .. | .removeMethod .. | .wake .. | .executeMethod ..
  | .followUpOperations .. | .listMethods => isTrue trivial

/-- A step other than a removal of the name keeps the method and its mark. -/
theorem Kept.step {name : Bytes} {id : ℕ} {mark : Bool} (hk : s.Kept name id mark) (h : s.Inv)
    {a : Action ι} (hlegal : s.Legal a) (hother : ∀ t w, a ≠ .removeMethod t name w)
    {r : MethodResponse} (hstep : s.step a = some (r, s')) : s'.Kept name id mark := by
  obtain ⟨hmem, ⟨o, ho, hmark⟩, hidle⟩ := hk
  have hne_next : id ≠ s.nextId := by
    rintro rfl
    rw [h.unused _ le_rfl] at ho
    cases ho
  -- Another entry of the map belongs to another object.
  have hne {name' : Bytes} {id' : ℕ} (hname : name' ≠ name) (hmem' : (name', id') ∈ s.methods) :
      id ≠ id' := by
    rintro rfl
    exact hname (h.name_unique hmem' hmem)
  cases h.step_cases hstep with
  | create name' help deleteOnRemove =>
    exact ⟨hmem, ⟨o, (Function.update_of_ne hne_next ..).trans ho, hmark⟩, hidle⟩
  | addFunction help hfind =>
    exact ⟨mem_insert.mpr (.inr hmem), ⟨o, (Function.update_of_ne hne_next ..).trans ho, hmark⟩, hidle⟩
  | addMethod ho' hfind => exact ⟨mem_insert.mpr (.inr hmem), ⟨o, ho, hmark⟩, hidle⟩
  | @refuse id' _ o' e ho' hfind =>
    by_cases hid : id = id'
    · cases hid
      rw [ho] at ho'
      cases ho'
      have hkeep : s.release id o = s := by
        unfold release
        exact if_neg fun hdelete => hlegal o ho hdelete _ hmem rfl
      rw [hkeep]
      exact ⟨hmem, ⟨o, ho, hmark⟩, hidle⟩
    · refine ⟨(methods_release ..).symm ▸ hmem,
        ⟨o, (objects_release_of_ne o' hid).trans ho, hmark⟩, fun hm => ?_⟩
      rw [executions_release]
      exact hidle hm
  | @mark t name' w id' o' r waiting hfind ho' hactive =>
    have hname : name' ≠ name := fun heq => hother t w (by rw [heq])
    exact ⟨hmem, ⟨o, (Function.update_of_ne (hne hname (mem_of_find hfind)) ..).trans ho, hmark⟩, hidle⟩
  | @remove t name' w id' o' hfind ho' hidle' =>
    have hname : name' ≠ name := fun heq => hother t w (by rw [heq])
    have hid := hne hname (mem_of_find hfind)
    refine ⟨?_, ⟨o, (objects_release_of_ne o' hid).trans ho, hmark⟩, fun hm => ?_⟩
    · rw [methods_release]
      exact mem_erase.mpr ⟨hmem, hname.symm⟩
    · rw [executions_release]
      exact hidle hm
  | @begin t name' id' o' hfind ho' hmark' =>
    by_cases hid : id = id'
    · cases hid
      rw [ho] at ho'
      cases ho'
      refine ⟨hmem, ⟨_, Function.update_self .., hmark⟩, fun hm => ?_⟩
      rw [hmark, hm] at hmark'
      cases hmark'
    · refine ⟨hmem, ⟨o, (Function.update_of_ne hid ..).trans ho, hmark⟩, fun hm => ?_⟩
      have hcount := hidle hm
      unfold executions SharedMethodManager.begin at *
      simpa [Ne.symm hid] using hcount
  | @finish t id' o' threw hflight ho' hmore =>
    have herase := executions_erase hflight id
    by_cases hid : id = id'
    · cases hid
      rw [ho] at ho'
      cases ho'
      refine ⟨hmem, ⟨_, Function.update_self .., hmark⟩, fun hm => ?_⟩
      exact absurd (hidle hm) (executions_pos hflight).ne'
    · refine ⟨hmem, ⟨o, (Function.update_of_ne hid ..).trans ho, hmark⟩, fun hm => ?_⟩
      rw [if_neg hid, hidle hm] at herase
      exact herase
  | @finishLast t id' o' threw hflight ho' hmark' hlast hmem' =>
    have herase := executions_erase hflight id
    by_cases hid : id = id'
    · cases hid
      rw [ho] at ho'
      cases ho'
      rw [hmark] at hmark'
      exact absurd (hidle hmark') (executions_pos hflight).ne'
    · have hname : name ≠ o'.name := by
        rintro rfl
        have heq := List.inj_on_of_nodup_map h.keys hmem hmem' rfl
        exact hid (Prod.mk.inj heq).2
      refine ⟨?_, ⟨o, ?_, hmark⟩, fun hm => ?_⟩
      · rw [methods_release]
        exact mem_erase.mpr ⟨hmem, hname⟩
      · rw [objects_release_of_ne _ hid]
        exact (Function.update_of_ne hid ..).trans ho
      · rw [if_neg hid, hidle hm] at herase
        rw [executions_release]
        exact herase
  | nothing r waiting ha => exact ⟨hmem, ⟨o, ho, hmark⟩, hidle⟩

/-- A run without a removal of the name keeps the method and its mark. -/
theorem Kept.run {name : Bytes} {id : ℕ} {mark : Bool} (hk : s.Kept name id mark) (h : s.Inv)
    {as : List (Action ι)} (hlegal : Throughout Legal as s)
    (hother : ∀ a ∈ as, ∀ t w, a ≠ .removeMethod t name w) (hrun : run as s = some s') :
    s'.Kept name id mark := by
  induction as generalizing s with
  | nil =>
    cases hrun
    exact hk
  | cons a as ih =>
    obtain ⟨r, hstep, hrun⟩ := Option.bind_eq_some_iff.mp hrun
    exact ih (hk.step h hlegal.1 (hother a List.mem_cons_self) hstep) (h.step hlegal.1 hstep)
      (hlegal.2 r hstep) (fun b hb => hother b (List.mem_cons_of_mem a hb)) hrun

/-- `ExecuteMethod` of a name executes the method at an address, and returns true when this returns. -/
def Executes (t : ι) (name : Bytes) (id : ℕ) (s : SharedMethodManager ι) : Prop :=
  ∃ s', s.step (.executeMethod t name) = some (.executes id, s') ∧
    ∀ as s'', Throughout Legal as s' → run as s' = some s'' → (t, id) ∈ s''.inFlight →
      ∃ s₃, s''.step (.followUpOperations t id false) = some (.returned true, s₃)

/-- A method in the map is executed exactly when it has no mark. -/
theorem Kept.executes_iff {name : Bytes} {id : ℕ} {mark : Bool} (hk : s.Kept name id mark)
    (h : s.Inv) (t : ι) : s.Executes t name id ↔ mark = false := by
  obtain ⟨hmem, ⟨o, ho, hmark⟩, -⟩ := hk
  have hstep : s.step (.executeMethod t name) =
      if mark then some (.returned false, s) else some (.executes id, s.begin t id o) := by
    subst hmark
    simp only [SharedMethodManager.step, executeMethod, h.find_eq hmem, ho, Option.bind_eq_bind,
      Option.bind_some]
    rfl
  constructor
  · rintro ⟨s', hs', -⟩
    rw [hstep] at hs'
    cases mark with
    | false => rfl
    | true => cases hs'
  · intro hfalse
    have hbegin : s.step (.executeMethod t name) = some (.executes id, s.begin t id o) := by
      rw [hstep, hfalse]
      rfl
    refine ⟨_, hbegin, fun as s'' hlegal hrun hflight => ?_⟩
    have hinv := (h.step (a := .executeMethod t name) trivial hbegin).run hlegal hrun
    obtain ⟨name', hmem'⟩ := hinv.running t id hflight
    obtain ⟨o', ho', -⟩ := hinv.named name' id hmem'
    obtain ⟨s₃, hs₃, -⟩ := hinv.finishes false hflight ho'
    exact ⟨s₃, hs₃⟩

/-- A run in two parts. -/
theorem throughout_append {P : SharedMethodManager ι → Action ι → Prop} {as bs : List (Action ι)}
    (h : Throughout P (as ++ bs) s) (hrun : run as s = some s') :
    Throughout P as s ∧ Throughout P bs s' := by
  induction as generalizing s with
  | nil =>
    cases hrun
    exact ⟨trivial, h⟩
  | cons a as ih =>
    obtain ⟨r, hstep, hrest⟩ := Option.bind_eq_some_iff.mp hrun
    obtain ⟨-, hbs⟩ := ih (h.2 r hstep) hrest
    refine ⟨⟨h.1, fun r' hr' => ?_⟩, hbs⟩
    rw [Option.mem_def, hstep] at hr'
    cases hr'
    exact (ih (h.2 r hstep) hrest).1

/-- A method that is added normally is in the map then, and it is not executed. -/
theorem Inv.kept_of_addMethod (h : s.Inv) {id : ℕ} {o : MethodObject} (ho : s.objects id = some o)
    (hadd : s.step (.addMethod id) = some (.done, s')) : s'.Kept o.name id o.delayedRemove := by
  obtain ⟨o', ho', hadd⟩ := Option.bind_eq_some_iff.mp hadd
  rw [ho] at ho'
  cases ho'
  cases hfind : s.find o.name with
  | some id' =>
    rw [hfind] at hadd
    cases hadd
  | none =>
    rw [hfind] at hadd
    cases hadd
    refine ⟨mem_insert.mpr (.inl rfl), ⟨o, ho, rfl⟩, fun _ => h.executions_eq_zero ?_⟩
    -- The object was in the map under no other name.
    intro name hmem
    obtain ⟨o', ho', rfl⟩ := h.named name id hmem
    rw [ho] at ho'
    cases ho'
    exact not_mem_of_find hfind id hmem

end SharedMethodManager

open SharedMethodManager

/-- In every history, a method that has been added normally and not removed since is listed, and it is
executed exactly when it had no mark for a delayed removal when it was added. -/
theorem methodManager_executes_iff {ι : Type} [DecidableEq ι] (before after : List (Action ι)) (id : ℕ)
    (o : MethodObject) (s₀ s₁ s : SharedMethodManager ι)
    (hlegal : Throughout Legal (before ++ .addMethod id :: after) initial)
    (hbefore : run before initial = some s₀) (ho : s₀.objects id = some o)
    (hadd : s₀.step (.addMethod id) = some (.done, s₁)) (hafter : run after s₁ = some s)
    (hother : ∀ a ∈ after, ∀ t w, a ≠ .removeMethod t o.name w) :
    o.name ∈ s.listMethods ∧ ∀ t, (s.Executes t o.name id ↔ o.delayedRemove = false) := by
  obtain ⟨hlegal₀, hlegal₁⟩ := throughout_append hlegal hbefore
  have h₀ := inv_initial.run hlegal₀ hbefore
  have h₁ := h₀.step hlegal₁.1 hadd
  have hlegal₂ := hlegal₁.2 _ hadd
  have hk := (h₀.kept_of_addMethod ho hadd).run h₁ hlegal₂ hother hafter
  exact ⟨List.mem_map.mpr ⟨_, hk.registered, rfl⟩, hk.executes_iff (h₁.run hlegal₂ hafter)⟩

/-- A method that belongs to its user is removed and added again, and executed in between. -/
theorem methodManager_executes_iff_two :
    let before : List (Action ℕ) := [.create (ascii "m") [] false, .addMethod 2,
      .removeMethod 1 (ascii "m") false, .executeMethod 2 (ascii "m")]
    ∃ s₀ s₁ s : SharedMethodManager ℕ, run before initial = some s₀ ∧
      s₀.step (.addMethod 2) = some (.done, s₁) ∧
      run [.executeMethod 2 (ascii "m")] s₁ = some s ∧ ascii "m" ∈ s.listMethods ∧
      ∀ t, (s.Executes t (ascii "m") 2 ↔ false = false) := by
  intro before
  refine ⟨_, _, _, rfl, rfl, rfl, ?_⟩
  exact methodManager_executes_iff before [.executeMethod 2 (ascii "m")] 2
    { name := ascii "m", help := [], deleteOnRemove := false } _ _ _ (by decide +kernel) rfl rfl rfl rfl
    (by simp)

/-- A method that belongs to its user is removed while it is executed, and added again: the addition
returns normally, and the method is not executed. -/
theorem methodManager_keeps_mark :
    ∃ s₁ ∈ run [.create (ascii "m") [] false, .addMethod 2, .executeMethod 1 (ascii "m"),
        .removeMethod 2 (ascii "m") false, .followUpOperations 1 2 false] (initial : SharedMethodManager ℕ),
      ∃ r₂ ∈ s₁.step (.addMethod 2), r₂.1 = .done ∧
        ∃ r₃ ∈ r₂.2.step (.executeMethod 1 (ascii "m")), r₃.1 = .returned false := by
  decide +kernel

end AnyRpc
