import AnyRpc.Json.Meaning

/-! # The calls for a JSON text

On a text the reader makes the calls of what the text says, or ends with the fault of the first
integer that it can not deliver. -/

namespace AnyRpc.JsonReader

open Library Reader Json NumberText ParseNumber

/-! ## Parts of the reader -/

/-- A part of the reader consumes a text and makes the calls, or ends with the fault. -/
def Delivers (p : ReadM Unit) (s : State) (r : Bytes) : Except Fault (List Event) → Prop
  | .ok es => ∃ s', p s = .ok () s' ∧ s'.is.rest = r ∧ Step s s' es
  | .error f => ∃ s', p s = .error f s'

/-- A step leaves it as it is. -/
theorem copies_of_step {s s' : State} {es : List Event} (h : Step s s' es) :
    copies s' = copies s := by
  rw [copies, copies, h.copy, h.inSitu]

section

variable {s s' : State} {r : Bytes}

/-- A part that goes on from a state with more calls. -/
theorem delivers_of_eq {p q : ReadM Unit} (es : List Event) {x : Except Fault (List Event)}
    (hp : p s = q s') (hstep : Step s s' es) (hq : Delivers q s' r x) :
    Delivers p s r (x.map (es ++ ·)) := by
  cases x with
  | ok fs =>
    obtain ⟨s'', hrun, hr, hstep'⟩ := hq
    exact ⟨s'', hp.trans hrun, hr, hstep.trans hstep'⟩
  | error f =>
    obtain ⟨s'', hrun⟩ := hq
    exact ⟨s'', hp.trans hrun⟩

/-- A part that goes on without a call. -/
theorem delivers_of_silent {p q : ReadM Unit} {x : Except Fault (List Event)}
    (hp : p s = q s') (hstep : Step s s' []) (hq : Delivers q s' r x) : Delivers p s r x := by
  have h := delivers_of_eq [] hp hstep hq
  cases x with
  | ok fs => exact h
  | error f => exact h

/-- One part after the other. -/
theorem Delivers.bind {τ : Type} {p : ReadM Unit} {f : Unit → ReadM Unit} {u : Bytes}
    {x : Except Fault τ} {g : τ → List Event} {y : τ → Except Fault (List Event)}
    (hp : Delivers p s r (x.map g))
    (hf : ∀ t s', s'.is.rest = r → Step s s' (g t) → Delivers (f ()) s' u (y t)) :
    Delivers (p >>= f) s u (x.bind fun t => (y t).map (g t ++ ·)) := by
  cases x with
  | ok t =>
    obtain ⟨s', hrun, hr, hstep⟩ := hp
    exact delivers_of_eq _ (bind_of_ok hrun) hstep (hf t s' hr hstep)
  | error e =>
    obtain ⟨s', hrun⟩ := hp
    exact ⟨s', bind_of_error hrun⟩

/-- A last call. -/
theorem delivers_call (e : Event) (s : State) : Delivers (call e) s s.is.rest (.ok [e]) :=
  ⟨_, call_apply s e, rfl, rfl, rfl, rfl, by simp [ReaderState.events]⟩

end

/-! ## Values -/

variable [Platform]

/-- What each symbol of the grammar is for the reader: a value for `ParseValue`, elements and members
for the loops of `ParseArray` and `ParseMap`, which go on to the closing bracket. -/
def Delivered : (sym : Symbol) → Bytes → sym.Meaning → Prop
  | .value, p, j => ∀ s r depth, s.is.rest = p ++ r → EndsNumber r → p.length < depth →
      Delivers (parseValue depth) s r ((j.calls (copies s)).map EventTree.events)
  | .elements, es, js => ∀ s r depth fuel count, s.is.rest = es ++ 0x5d :: r →
      es.length < depth → es.length < fuel →
      Delivers (parseElements (parseValue depth) fuel count) s r
        ((Tree.elementsCalls (copies s) js).map fun ts =>
          EventTree.elementEvents ts ++ [.endArray (count + ts.length)])
  | .members, ms, js => ∀ s r depth fuel count, s.is.rest = ms ++ 0x7d :: r →
      ms.length < depth → ms.length < fuel →
      Delivers (parseMembers (parseValue depth) fuel count) s r
        ((Tree.membersCalls (copies s) js).map fun ts =>
          EventTree.memberEvents ts ++ [.endMap (count + ts.length)])

/-- One of the three names. -/
theorem delivered_literal {text : Bytes} (c : UInt8) (us : Bytes) (htext : text = c :: us)
    {j : Tree} (sc : Scalar) (hj : ∀ copy, j.calls copy = .ok (.leaf sc))
    (hvalue : ∀ s : State, s.is.peek = c → ∀ depth,
      parseValue (depth + 1) s = (do onText (expect text); call (.scalar sc) : ReadM Unit) s) :
    Delivered .value text j := by
  intro s r depth hrest _ hdepth
  obtain ⟨depth, rfl⟩ := Nat.exists_eq_succ_of_ne_zero (by omega : depth ≠ 0)
  obtain ⟨s', hrun, hstep, hr⟩ := literal_eq hrest (.scalar sc)
  have hpeek : s.is.peek = c := peek_of_rest (hrest.trans (by rw [htext, List.cons_append]))
  rw [hj]
  exact ⟨s', (hvalue s hpeek depth).trans hrun, hr, hstep⟩

/-- An integer is delivered as it is read on its own. -/
theorem delivered_integer (minus : Bool) {ds : Bytes} (hds : IntDigits ds) :
    Delivered .value (literal minus ds) (.integer minus ds) := by
  intro s r depth hrest hends hdepth
  obtain ⟨depth, rfl⟩ := Nat.exists_eq_succ_of_ne_zero (by omega : depth ≠ 0)
  have hvalid : Valid ⟨minus, ds, none, none⟩ := ⟨hds, nofun, nofun⟩
  have hnumber : parseValue (depth + 1) s = parseNumber s :=
    parseValue_number hvalid (r := r) (by rw [hrest, text_of_isInteger ⟨rfl, rfl⟩]) depth
  have hstops := stopsAt_parse_literal minus hds hends
  have hwhole := wp_parse_literal minus hds hends
  have hcalls : ((Tree.integer minus ds).calls (copies s)).map EventTree.events =
      (integerEvent minus ds).map fun sc => [.scalar sc] := by
    rw [Tree.calls]
    cases integerEvent minus ds <;> rfl
  rw [hcalls]
  rw [StopsAt] at hstops
  cases hparse : ParseNumber.parse (literal minus ds) with
  | error f left =>
    rw [hparse, followed, ← hrest] at hstops
    have hevent : integerEvent minus ds = .error f := by rw [integerEvent, hparse]
    have hrun : parseNumber s = _ := bind_of_error (onText_of_error hstops)
    rw [hevent]
    exact ⟨_, hnumber.trans hrun⟩
  | ok n left =>
    rw [hparse, followed] at hstops
    obtain ⟨-, hleft, -⟩ := hwhole.of_ok hstops
    rw [hleft, ← hrest] at hstops
    have hevent : integerEvent minus ds = numberEvent n := by rw [integerEvent, hparse]
    have hrun : parseNumber s = _ := bind_of_ok (onText_of_ok hstops)
    rw [hevent]
    cases hsc : numberEvent n with
    | error f =>
      rw [hsc] at hrun
      exact ⟨_, hnumber.trans hrun⟩
    | ok sc =>
      rw [hsc] at hrun
      exact ⟨_, hnumber.trans hrun, s.is.rest_advance_sub hrest, rfl, rfl, rfl,
        by simp [ReaderState.events]⟩

/-- A string. -/
theorem delivered_string {ts bs : Bytes} (h : Chars ts bs) :
    Delivered .value (quoted ts) (.string bs) := by
  intro s r depth hrest _ hdepth
  obtain ⟨depth, rfl⟩ := Nat.exists_eq_succ_of_ne_zero (by omega : depth ≠ 0)
  obtain ⟨s', hrun, hr, hstep⟩ :=
    parseStringFor_eq (fun str => .scalar (.string str)) h hrest
  refine ⟨s', ?_, hr, hstep⟩
  rw [parseValue, bind_of_ok (peek_apply s), peek_of_rest hrest, if_neg (by decide),
    if_neg (by decide), if_neg (by decide), if_pos rfl]
  exact hrun

/-! ## Arrays -/

/-- An array without elements. -/
theorem delivered_emptyArray {w : Bytes} (hw : Spaces w) :
    Delivered .value (0x5b :: (w ++ [0x5d])) (.array []) := by
  intro s r depth hrest _ hdepth
  obtain ⟨depth, rfl⟩ := Nat.exists_eq_succ_of_ne_zero (by omega : depth ≠ 0)
  rw [List.cons_append, List.append_assoc] at hrest
  obtain ⟨s₁, hr₁, hstep₁, hrun₁⟩ :=
    parseArray_start (parseValue depth) hw (by rintro _ ⟨⟩; decide) hrest
  have hrun : parseValue (depth + 1) s = (call (.endArray 0) : ReadM Unit)
      { s₁ with is := s₁.is.advance 1 } := by
    rw [parseValue_array depth hrest, hrun₁, bind_of_ok (peek_apply s₁), peek_of_rest hr₁,
      if_pos rfl]
    exact bind_of_ok (getChar_apply s₁)
  have hend := delivers_call (.endArray 0) { s₁ with is := s₁.is.advance 1 }
  rw [ReadStream.rest_advance, hr₁] at hend
  exact delivers_of_eq _ hrun ⟨hstep₁.inSitu, hstep₁.copy, hstep₁.beyond, hstep₁.events⟩ hend

/-- An array. -/
theorem delivered_array {w es : Bytes} {js : List Tree} (hw : Spaces w)
    (hes : Denotes .elements es js) (ih : Delivered .elements es js) :
    Delivered .value (0x5b :: (w ++ (es ++ [0x5d]))) (.array js) := by
  intro s r depth hrest _ hdepth
  obtain ⟨depth, rfl⟩ := Nat.exists_eq_succ_of_ne_zero (by omega : depth ≠ 0)
  rw [List.cons_append, List.append_assoc, List.append_assoc] at hrest
  simp only [List.length_cons, List.length_append] at hdepth
  obtain ⟨ns, hderives, -⟩ := hes.derives
  obtain ⟨c, us, rfl, hc, hbracket⟩ := head_elements hderives
  obtain ⟨s₁, hr₁, hstep₁, hrun₁⟩ :=
    parseArray_start (parseValue depth) hw (by rintro _ ⟨⟩; exact hc) hrest
  have helements := ih s₁ r depth (s₁.is.rest.length + 1) 0 hr₁
    (by simp only [List.length_cons] at hdepth ⊢; omega)
    (by rw [hr₁]; simp only [List.length_append, List.length_cons]; omega)
  have hloop := delivers_of_eq [.startArray none] (p := parseValue (depth + 1)) (s := s) (by
    rw [parseValue_array depth hrest, hrun₁, bind_of_ok (peek_apply s₁), peek_of_rest (c := c) hr₁,
      if_neg hbracket, bind_of_ok (get_apply s₁)]) hstep₁ helements
  rw [copies_of_step hstep₁] at hloop
  rw [Tree.calls]
  cases hcalls : Tree.elementsCalls (copies s) js with
  | error f =>
    rw [hcalls] at hloop
    exact hloop
  | ok ts =>
    rw [hcalls] at hloop
    simpa [Except.map, EventTree.events] using hloop

/-- The last element. -/
theorem delivered_lastElement {p w : Bytes} {j : Tree} (hw : Spaces w)
    (ih : Delivered .value p j) : Delivered .elements (p ++ w) [j] := by
  intro s r depth fuel count hrest hdepth hfuel
  obtain ⟨fuel, rfl⟩ := Nat.exists_eq_succ_of_ne_zero (by omega : fuel ≠ 0)
  rw [List.append_assoc] at hrest
  rw [List.length_append] at hdepth
  have hends : EndsNumber (w ++ 0x5d :: r) := endsNumber_separator hw (.inr (.inl rfl))
  have hseq : Delivers (parseElements (parseValue depth) (fuel + 1) count) s r
      ((j.calls (copies s)).bind fun t =>
        (Except.ok [Event.endArray (count + 1)]).map (t.events ++ ·)) := by
    rw [parseElements_succ]
    refine (ih s _ depth hrest hends (by omega)).bind fun t s' hs' _ => ?_
    obtain ⟨s'', hs'', hstep, hrun⟩ := skip_getChar_eq hw (by decide) hs'
    rw [← hs'']
    exact delivers_of_silent (bind_of_ok hrun) hstep (delivers_call _ s'')
  rw [Tree.elementsCalls]
  cases hcalls : j.calls (copies s) with
  | error f =>
    rw [hcalls] at hseq
    exact hseq
  | ok t =>
    rw [hcalls] at hseq
    simpa [Tree.elementsCalls, Except.map, Except.bind, bind, pure, Except.pure,
      EventTree.elementEvents, EventTree.moreElementEvents] using hseq

/-- An element with others behind it. -/
theorem delivered_element {p w w' es : Bytes} {j : Tree} {js : List Tree} (hw : Spaces w)
    (hw' : Spaces w') (hes : Denotes .elements es js) (ih : Delivered .value p j)
    (ih' : Delivered .elements es js) :
    Delivered .elements (p ++ (w ++ 0x2c :: (w' ++ es))) (j :: js) := by
  intro s r depth fuel count hrest hdepth hfuel
  obtain ⟨fuel, rfl⟩ := Nat.exists_eq_succ_of_ne_zero (by omega : fuel ≠ 0)
  simp only [List.append_assoc, List.cons_append] at hrest
  simp only [List.length_append, List.length_cons] at hdepth hfuel
  obtain ⟨ns, hderives, -⟩ := hes.derives
  obtain ⟨c, us, rfl, hc, -⟩ := head_elements hderives
  have hends : EndsNumber (w ++ 0x2c :: (w' ++ ((c :: us) ++ 0x5d :: r))) :=
    endsNumber_separator hw (.inl rfl)
  have hseq : Delivers (parseElements (parseValue depth) (fuel + 1) count) s r
      ((j.calls (copies s)).bind fun t =>
        (((Tree.elementsCalls (copies s) js).map fun ts => EventTree.elementEvents ts ++
          [.endArray (count + 1 + ts.length)]).map ([.arraySeparator] ++ ·)).map (t.events ++ ·)) := by
    rw [parseElements_succ]
    refine (ih s _ depth hrest hends (by omega)).bind fun t s₁ hs₁ hstep₁ => ?_
    obtain ⟨s₂, hs₂, hstep₂, hrun⟩ := skip_getChar_eq hw (by decide) hs₁
    obtain ⟨hspaces, hr⟩ := skipWhiteSpace_eq hw' (by rintro _ ⟨⟩; exact hc) hs₂
    have hrest := ih' { consumed s₂ w'.length with
        calls := s₂.calls ++ [⟨.arraySeparator, (consumed s₂ w'.length).is.tell⟩] } r depth fuel
      (count + 1) hr (by simp only [List.length_cons] at hdepth ⊢; omega)
      (by simp only [List.length_cons] at hfuel ⊢; omega)
    have hstep : Step s₁ { consumed s₂ w'.length with
        calls := s₂.calls ++ [⟨.arraySeparator, (consumed s₂ w'.length).is.tell⟩] }
        [.arraySeparator] :=
      hstep₂.trans ⟨rfl, rfl, rfl, by simp [ReaderState.events]⟩
    rw [copies_of_step hstep, copies_of_step hstep₁] at hrest
    refine delivers_of_eq _ ?_ hstep hrest
    rw [bind_of_ok hrun, if_pos rfl, bind_of_ok hspaces]
    exact bind_of_ok (call_apply _ _)
  rw [Tree.elementsCalls]
  cases hcalls : j.calls (copies s) with
  | error f =>
    rw [hcalls] at hseq
    exact hseq
  | ok t =>
    rw [hcalls] at hseq
    cases hmore : Tree.elementsCalls (copies s) js with
    | error f =>
      rw [hmore] at hseq
      exact hseq
    | ok ts =>
      rw [hmore] at hseq
      have hts : ts ≠ [] := by
        have hlength := Tree.length_elementsCalls hmore
        have hjs := hes.elements_ne_nil
        rintro rfl
        exact hjs (List.length_eq_zero_iff.mp hlength.symm)
      have hcount : count + 1 + ts.length = count + (ts.length + 1) := by omega
      simpa [Except.map, Except.bind, bind, pure, Except.pure, EventTree.elementEvents_cons, hts,
        hcount] using hseq

/-! ## Objects -/

/-- An object without members. -/
theorem delivered_emptyObject {w : Bytes} (hw : Spaces w) :
    Delivered .value (0x7b :: (w ++ [0x7d])) (.object []) := by
  intro s r depth hrest _ hdepth
  obtain ⟨depth, rfl⟩ := Nat.exists_eq_succ_of_ne_zero (by omega : depth ≠ 0)
  rw [List.cons_append, List.append_assoc] at hrest
  obtain ⟨s₁, hr₁, hstep₁, hrun₁⟩ :=
    parseMap_start (parseValue depth) hw (by rintro _ ⟨⟩; decide) hrest
  have hrun : parseValue (depth + 1) s = (call (.endMap 0) : ReadM Unit)
      { s₁ with is := s₁.is.advance 1 } := by
    rw [parseValue_map depth hrest, hrun₁, bind_of_ok (peek_apply s₁), peek_of_rest hr₁,
      if_pos rfl]
    exact bind_of_ok (getChar_apply s₁)
  have hend := delivers_call (.endMap 0) { s₁ with is := s₁.is.advance 1 }
  rw [ReadStream.rest_advance, hr₁] at hend
  exact delivers_of_eq _ hrun ⟨hstep₁.inSitu, hstep₁.copy, hstep₁.beyond, hstep₁.events⟩ hend

/-- An object. -/
theorem delivered_object {w ms : Bytes} {js : List (Bytes × Tree)} (hw : Spaces w)
    (hms : Denotes .members ms js) (ih : Delivered .members ms js) :
    Delivered .value (0x7b :: (w ++ (ms ++ [0x7d]))) (.object js) := by
  intro s r depth hrest _ hdepth
  obtain ⟨depth, rfl⟩ := Nat.exists_eq_succ_of_ne_zero (by omega : depth ≠ 0)
  rw [List.cons_append, List.append_assoc, List.append_assoc] at hrest
  simp only [List.length_cons, List.length_append] at hdepth
  obtain ⟨ns, hderives, -⟩ := hms.derives
  obtain ⟨us, rfl⟩ := head_members hderives
  obtain ⟨s₁, hr₁, hstep₁, hrun₁⟩ :=
    parseMap_start (parseValue depth) hw (by rintro _ ⟨⟩; decide) hrest
  have hmembers := ih s₁ r depth (s₁.is.rest.length + 1) 0 hr₁
    (by simp only [List.length_cons] at hdepth ⊢; omega)
    (by rw [hr₁]; simp only [List.length_append, List.length_cons]; omega)
  have hloop := delivers_of_eq [.startMap none] (p := parseValue (depth + 1)) (s := s) (by
    rw [parseValue_map depth hrest, hrun₁, bind_of_ok (peek_apply s₁), peek_of_rest (c := 0x22) hr₁,
      if_neg (by decide), bind_of_ok (get_apply s₁)]) hstep₁ hmembers
  rw [copies_of_step hstep₁] at hloop
  rw [Tree.calls]
  cases hcalls : Tree.membersCalls (copies s) js with
  | error f =>
    rw [hcalls] at hloop
    exact hloop
  | ok ts =>
    rw [hcalls] at hloop
    simpa [Except.map, EventTree.events] using hloop

/-- The white space behind a value, and the bracket that closes the object. -/
theorem delivered_lastMember {key bs w₁ w₂ p w : Bytes} {j : Tree} (hkey : Chars key bs)
    (hw₁ : Spaces w₁) (hw₂ : Spaces w₂) (hp : Denotes .value p j) (hw : Spaces w)
    (ih : Delivered .value p j) :
    Delivered .members (quoted key ++ (w₁ ++ 0x3a :: (w₂ ++ (p ++ w)))) [(bs, j)] := by
  intro s r depth fuel count hrest hdepth hfuel
  obtain ⟨fuel, rfl⟩ := Nat.exists_eq_succ_of_ne_zero (by omega : fuel ≠ 0)
  simp only [List.append_assoc, List.cons_append] at hrest
  simp only [List.length_append, List.length_cons] at hdepth
  obtain ⟨ns, hderives, -⟩ := hp.derives
  have hends : EndsNumber (w ++ 0x7d :: r) := endsNumber_separator hw (.inr (.inr rfl))
  obtain ⟨s₁, hs₁, hstep₁, hrun₁⟩ := parseMembers_key (parseValue depth) fuel count hkey hw₁ hw₂
    (head_append hderives _) hrest
  have hvalue := (ih s₁ _ depth hs₁ hends (by omega)).bind (f := fun _ => do
      let c ← (do skipWhiteSpace; getChar : ReadM UInt8)
      if c = 0x2c then
        skipWhiteSpace
        call .mapSeparator
        parseMembers (parseValue depth) fuel (count + 1)
      else if c = 0x7d then
        call (.endMap (count + 1))
      else
        anyrpcThrow ErrorCode.objectMissCommaOrCurlyBracket
          (ascii "Missing a comma or '\x7d' after an object member"))
      (u := r) (y := fun _ => .ok [.endMap (count + 1)]) fun t s₂ hs₂ _ => by
    obtain ⟨s₃, hs₃, hstep₃, hrun₃⟩ := skip_getChar_eq hw (by decide) hs₂
    rw [← hs₃]
    exact delivers_of_silent (bind_of_ok hrun₃) hstep₃ (delivers_call _ s₃)
  have hseq := delivers_of_eq _ hrun₁ hstep₁ hvalue
  rw [copies_of_step hstep₁] at hseq
  rw [Tree.membersCalls]
  cases hcalls : j.calls (copies s) with
  | error f =>
    rw [hcalls] at hseq
    exact hseq
  | ok t =>
    rw [hcalls] at hseq
    simpa [Tree.membersCalls, Except.map, Except.bind, bind, pure, Except.pure,
      EventTree.memberEvents, EventTree.moreMemberEvents, EventTree.keyEvents] using hseq

/-- A member with others behind it. -/
theorem delivered_member {key bs w₁ w₂ p w w' ms : Bytes} {j : Tree} {js : List (Bytes × Tree)}
    (hkey : Chars key bs) (hw₁ : Spaces w₁) (hw₂ : Spaces w₂) (hp : Denotes .value p j)
    (hw : Spaces w) (hw' : Spaces w') (hms : Denotes .members ms js) (ih : Delivered .value p j)
    (ih' : Delivered .members ms js) :
    Delivered .members
      (quoted key ++ (w₁ ++ 0x3a :: (w₂ ++ (p ++ (w ++ 0x2c :: (w' ++ ms))))))
      ((bs, j) :: js) := by
  intro s r depth fuel count hrest hdepth hfuel
  obtain ⟨fuel, rfl⟩ := Nat.exists_eq_succ_of_ne_zero (by omega : fuel ≠ 0)
  simp only [List.append_assoc, List.cons_append] at hrest
  simp only [List.length_append, List.length_cons] at hdepth hfuel
  obtain ⟨ns, hderives, -⟩ := hp.derives
  obtain ⟨ns', hderives', -⟩ := hms.derives
  obtain ⟨us, rfl⟩ := head_members hderives'
  have hends : EndsNumber (w ++ 0x2c :: (w' ++ ((0x22 :: us) ++ 0x7d :: r))) :=
    endsNumber_separator hw (.inl rfl)
  obtain ⟨s₁, hs₁, hstep₁, hrun₁⟩ := parseMembers_key (parseValue depth) fuel count hkey hw₁ hw₂
    (head_append hderives _) hrest
  have hvalue := (ih s₁ _ depth hs₁ hends (by omega)).bind (f := fun _ => do
      let c ← (do skipWhiteSpace; getChar : ReadM UInt8)
      if c = 0x2c then
        skipWhiteSpace
        call .mapSeparator
        parseMembers (parseValue depth) fuel (count + 1)
      else if c = 0x7d then
        call (.endMap (count + 1))
      else
        anyrpcThrow ErrorCode.objectMissCommaOrCurlyBracket
          (ascii "Missing a comma or '\x7d' after an object member"))
      (u := r) (y := fun _ => ((Tree.membersCalls (copies s₁) js).map fun ts =>
        EventTree.memberEvents ts ++ [.endMap (count + 1 + ts.length)]).map
          ([.mapSeparator] ++ ·)) fun t s₂ hs₂ hstep₂ => by
    obtain ⟨s₃, hs₃, hstep₃, hrun₃⟩ := skip_getChar_eq hw (by decide) hs₂
    obtain ⟨hspaces, hr⟩ := skipWhiteSpace_eq hw' (by rintro _ ⟨⟩; decide) hs₃
    have hmore := ih' { consumed s₃ w'.length with
        calls := s₃.calls ++ [⟨.mapSeparator, (consumed s₃ w'.length).is.tell⟩] } r depth fuel
      (count + 1) hr (by simp only [List.length_cons] at hdepth ⊢; omega)
      (by simp only [List.length_cons] at hfuel ⊢; omega)
    have hstep : Step s₂ { consumed s₃ w'.length with
        calls := s₃.calls ++ [⟨.mapSeparator, (consumed s₃ w'.length).is.tell⟩] }
        [.mapSeparator] :=
      hstep₃.trans ⟨rfl, rfl, rfl, by simp [ReaderState.events]⟩
    rw [copies_of_step hstep, copies_of_step hstep₂] at hmore
    refine delivers_of_eq _ ?_ hstep hmore
    rw [bind_of_ok hrun₃, if_pos rfl, bind_of_ok hspaces]
    exact bind_of_ok (call_apply _ _)
  have hseq := delivers_of_eq _ hrun₁ hstep₁ hvalue
  rw [copies_of_step hstep₁] at hseq
  rw [Tree.membersCalls]
  cases hcalls : j.calls (copies s) with
  | error f =>
    rw [hcalls] at hseq
    exact hseq
  | ok t =>
    rw [hcalls] at hseq
    cases hmore : Tree.membersCalls (copies s) js with
    | error f =>
      rw [hmore] at hseq
      exact hseq
    | ok ts =>
      rw [hmore] at hseq
      have hts : ts ≠ [] := by
        have hlength := Tree.length_membersCalls hmore
        have hjs := hms.members_ne_nil
        rintro rfl
        exact hjs (List.length_eq_zero_iff.mp hlength.symm)
      have hcount : count + 1 + ts.length = count + (ts.length + 1) := by omega
      simpa [Except.map, Except.bind, bind, pure, Except.pure, EventTree.memberEvents_cons, hts,
        hcount, EventTree.keyEvents] using hseq

/-! ## The whole text -/

/-- Every text that says something is delivered as what it says. -/
theorem delivered {sym : Symbol} {p : Bytes} {m : sym.Meaning} (h : Denotes sym p m) :
    Delivered sym p m := by
  induction h with
  | null =>
    refine delivered_literal 0x6e (ascii "ull") rfl .null (fun _ => rfl) fun s hpeek depth => ?_
    rw [parseValue, bind_of_ok (peek_apply s), hpeek, if_pos rfl]
    rfl
  | true =>
    refine delivered_literal 0x74 (ascii "rue") rfl .boolTrue (fun _ => rfl)
      fun s hpeek depth => ?_
    rw [parseValue, bind_of_ok (peek_apply s), hpeek, if_neg (by decide), if_pos rfl]
    rfl
  | false =>
    refine delivered_literal 0x66 (ascii "alse") rfl .boolFalse (fun _ => rfl)
      fun s hpeek depth => ?_
    rw [parseValue, bind_of_ok (peek_apply s), hpeek, if_neg (by decide), if_neg (by decide),
      if_pos rfl]
    rfl
  | integer hds => exact delivered_integer _ hds
  | string hts => exact delivered_string hts
  | emptyArray hw => exact delivered_emptyArray hw
  | array hw hes ih => exact delivered_array hw hes ih
  | emptyObject hw => exact delivered_emptyObject hw
  | object hw hms ih => exact delivered_object hw hms ih
  | lastElement _ hw ih => exact delivered_lastElement hw ih
  | element _ hw hw' hes ih ih' => exact delivered_element hw hw' hes ih ih'
  | lastMember hkey hw₁ hw₂ hp hw ih => exact delivered_lastMember hkey hw₁ hw₂ hp hw ih
  | member hkey hw₁ hw₂ hp hw hw' hms ih ih' =>
    exact delivered_member hkey hw₁ hw₂ hp hw hw' hms ih ih'

/-- A JSON text, with white space around its value, is delivered as what the value says. -/
theorem parse_delivers {w₁ p w₂ : Bytes} {j : Tree} (hw₁ : Spaces w₁) (hw₂ : Spaces w₂)
    (hp : Denotes .value p j) {s : State} (hrest : s.is.rest = w₁ ++ (p ++ w₂)) :
    Delivers parse s w₂ ((j.calls (copies s)).map EventTree.events) := by
  obtain ⟨ns, hderives, -⟩ := hp.derives
  obtain ⟨hspaces, hr⟩ := skipWhiteSpace_eq hw₁ (head_append hderives w₂) hrest
  have hends : EndsNumber w₂ := by
    rw [← List.append_nil w₂]
    exact endsNumber_append hw₂ (by rintro _ ⟨⟩)
  have heof : (consumed s w₁.length).is.eof = false := by
    obtain ⟨c, us, rfl, -⟩ := head_value hderives
    rw [ReadStream.eof, hr]
    rfl
  have hvalue := delivered hp (consumed s w₁.length) w₂ _ hr hends (Nat.lt_succ_of_le (by
    rw [hr, List.length_append]
    omega : p.length ≤ (consumed s w₁.length).is.rest.length))
  have hstep : Step s (consumed s w₁.length) [] := ⟨rfl, rfl, rfl, (List.append_nil _).symm⟩
  refine delivers_of_silent ?_ hstep hvalue
  rw [parse, bind_of_ok hspaces, bind_of_ok (eof_apply _), heof]
  exact bind_of_ok (get_apply _)

end AnyRpc.JsonReader
