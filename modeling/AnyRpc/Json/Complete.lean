import AnyRpc.Json.Strings
import AnyRpc.Reader.NumberRange

/-! # What the JSON reader accepts

On a text that starts with a value of the grammar, the reader consumes exactly the value, unless one
of its numbers ends the parsing: it is too big, or it runs into what is undefined. -/

namespace AnyRpc.JsonReader

open Library Reader Json NumberText ParseNumber

variable [Platform]

/-! ## Numbers -/

/-- All of the numbers are read. -/
def NumbersRead (ns : List NumberText) : Prop := ∀ t ∈ ns, t.InRange ∧ ¬ t.TooBig

/-- The first of the numbers that is not read ends the parsing with a fault. -/
def NumbersThrow : List NumberText → Fault → Prop
  | [], _ => False
  | t :: ns, f =>
    (¬ t.InRange ∧ f = .undefined) ∨ (t.InRange ∧ t.TooBig ∧ f = tooBig) ∨
      (t.InRange ∧ ¬ t.TooBig ∧ NumbersThrow ns f)

/-- The numbers are in range, up to the first one that is too big. -/
def NumbersInRange : List NumberText → Prop
  | [] => True
  | t :: ns => t.InRange ∧ (t.TooBig ∨ NumbersInRange ns)

theorem NumbersRead.append {ns ns' : List NumberText} (h : NumbersRead ns) (h' : NumbersRead ns') :
    NumbersRead (ns ++ ns') := fun t ht => (List.mem_append.mp ht).elim (h t) (h' t)

/-- The numbers are left out that follow the one which ends the parsing. -/
theorem NumbersThrow.append {ns : List NumberText} {f : Fault} (h : NumbersThrow ns f)
    (ns' : List NumberText) : NumbersThrow (ns ++ ns') f := by
  induction ns with
  | nil => exact h.elim
  | cons t ns ih =>
    rcases h with h | h | ⟨hrange, hbig, h⟩
    · exact .inl h
    · exact .inr (.inl h)
    · exact .inr (.inr ⟨hrange, hbig, ih h⟩)

/-- Numbers that are read come before the one which ends the parsing. -/
theorem NumbersThrow.of_read {ns ns' : List NumberText} {f : Fault} (h : NumbersRead ns)
    (h' : NumbersThrow ns' f) : NumbersThrow (ns ++ ns') f := by
  induction ns with
  | nil => exact h'
  | cons t ns ih =>
    obtain ⟨⟨hrange, hbig⟩, hns⟩ := List.forall_mem_cons.mp h
    exact .inr (.inr ⟨hrange, hbig, ih hns⟩)

theorem NumbersRead.inRange {ns : List NumberText} (h : NumbersRead ns) : NumbersInRange ns := by
  induction ns with
  | nil => trivial
  | cons t ns ih =>
    obtain ⟨⟨hrange, -⟩, hns⟩ := List.forall_mem_cons.mp h
    exact ⟨hrange, .inr (ih hns)⟩

/-- Numbers end the parsing with what is undefined exactly when one of them is out of range. -/
theorem NumbersThrow.fault {ns : List NumberText} {f : Fault} (h : NumbersThrow ns f) :
    (f = tooBig ∧ NumbersInRange ns) ∨ (f = .undefined ∧ ¬ NumbersInRange ns) := by
  induction ns with
  | nil => exact h.elim
  | cons t ns ih =>
    rcases h with ⟨hrange, rfl⟩ | ⟨hrange, hbig, rfl⟩ | ⟨hrange, hbig, h⟩
    · exact .inr ⟨rfl, fun hall => hrange hall.1⟩
    · exact .inl ⟨rfl, hrange, .inl hbig⟩
    · rcases ih h with ⟨rfl, hns⟩ | ⟨rfl, hns⟩
      · exact .inl ⟨rfl, hrange, .inr hns⟩
      · exact .inr ⟨rfl, fun hall => hns (hall.2.resolve_left hbig)⟩

/-- A number is read, or it ends the parsing. -/
theorem wp_parseNumber (hnonzero : Platform.DigitsNonzero) (s : State) :
    wp parseNumber
      (fun _ s' => s'.is.rest = (split s.is.rest).2 ∧ (split s.is.rest).1.Complete ∧
        (split s.is.rest).1.InRange ∧ ¬ (split s.is.rest).1.TooBig)
      (fun f _ => NumberThrows (split s.is.rest).1 f) s := by
  have hparse := ParseNumber.wp_parse hnonzero s.is.rest
  have htext : wp (onText ParseNumber.parse : ReadM ParseNumber)
      (fun n s' => s'.is.rest = (split s.is.rest).2 ∧ NumberRead (split s.is.rest).1 n)
      (fun f _ => NumberThrows (split s.is.rest).1 f) s := by
    refine wp_onText_of_append (Q := fun n r => r = (split s.is.rest).2 ∧
      NumberRead (split s.is.rest).1 n) (wp_mono hparse ?_ fun _ _ h => h)
    rintro n r ⟨rfl, hn⟩
    exact ⟨⟨_, (split_text hn.complete).2⟩, rfl, hn⟩
  refine wp_seq htext ?_
  rintro n s' ⟨hrest, hn⟩
  cases hdouble : n.useDouble with
  | false =>
    have hrange := inRange_of_useDouble hn hdouble
    have hevent : ∃ sc, numberEvent n = .ok sc := by
      rw [numberEvent, hdouble]
      cases n.use64bit with
      | false => exact ⟨_, rfl⟩
      | true => exact ⟨_, rfl⟩
    obtain ⟨sc, hsc⟩ := hevent
    simp only [hsc]
    exact ⟨hrest, hn.complete, hrange, hn.notTooBig⟩
  | true =>
    rcases double_eq hn with ⟨d, hd, hrange⟩ | ⟨hd, hrange⟩
    · have hsc : numberEvent n = .ok (.double (if n.minus then Platform.neg d else d)) := by
        rw [numberEvent, if_pos hdouble, hd]
        rfl
      simp only [hsc]
      exact ⟨hrest, hn.complete, hrange, hn.notTooBig⟩
    · have hsc : numberEvent n = .error .undefined := by
        rw [numberEvent, if_pos hdouble, hd]
        rfl
      simp only [hsc]
      exact .inl ⟨rfl, hrange⟩

/-! ## White space and literals -/

omit [Platform] in
/-- White space is skipped up to something else. -/
theorem skipWhiteSpace_eq {s : State} {w r : Bytes} (hw : Spaces w)
    (hr : ∀ c ∈ r.head?, isSpace c = false) (hrest : s.is.rest = w ++ r) :
    (skipWhiteSpace : ReadM Unit) s = .ok () (consumed s w.length) ∧
      (consumed s w.length).is.rest = r := by
  refine ⟨?_, s.is.rest_advance_of_append hrest⟩
  rw [skipWhiteSpace_apply, hrest, takeWhile_isSpace hw hr]
  rfl

omit [Platform] in
/-- The bytes of a literal. -/
theorem expect_append (text r : Bytes) : expect text (text ++ r) = .ok () r := by
  induction text with
  | nil => rfl
  | cons c text ih =>
    rw [expect, List.cons_append, bind_of_ok (Text.get_apply _)]
    simpa using ih

omit [Platform] in
/-- The next byte. -/
theorem peek_of_rest {s : State} {c : UInt8} {r : Bytes} (h : s.is.rest = c :: r) :
    s.is.peek = c := by
  rw [ReadStream.peek, h]
  rfl

omit [Platform] in
/-- A literal and its call. -/
theorem literal_eq {s : State} {text r : Bytes} (hrest : s.is.rest = text ++ r) (e : Event) :
    ∃ s', (do onText (expect text); call e : ReadM Unit) s = .ok () s' ∧ Step s s' [e] ∧
      s'.is.rest = r := by
  have hrun : onText (expect text) s = .ok () (consumed s text.length) := by
    have hexpect := onText_of_ok (s := s) (hrest ▸ expect_append text r)
    rw [hexpect, hrest, List.length_append, Nat.add_sub_cancel, consumed]
  refine ⟨_, bind_of_ok hrun, ⟨rfl, rfl, rfl, ?_⟩, ?_⟩
  · simp [ReaderState.events, consumed]
  · exact s.is.rest_advance_of_append hrest

/-! ## Values -/

/-- The part of the reader for a symbol consumes a text, or ends with one of its numbers. -/
def Consumes (p : ReadM Unit) (s : State) (r : Bytes) (ns : List NumberText) : Prop :=
  wp p (fun _ s' => s'.is.rest = r ∧ NumbersRead ns) (fun f _ => NumbersThrow ns f) s

theorem consumes_of_ok {p : ReadM Unit} {s s' : State} {r : Bytes} (hp : p s = .ok () s')
    (hr : s'.is.rest = r) : Consumes p s r [] := by
  rw [Consumes, wp, hp]
  exact ⟨hr, nofun⟩

/-- Numbers that are read do not end the parsing. -/
theorem NumbersRead.not_throw {ns : List NumberText} {f : Fault} (h : NumbersRead ns) :
    ¬ NumbersThrow ns f := by
  induction ns with
  | nil => exact id
  | cons t ns ih =>
    obtain ⟨⟨hrange, hbig⟩, hns⟩ := List.forall_mem_cons.mp h
    rintro (⟨hout, -⟩ | ⟨-, hbig', -⟩ | ⟨-, -, hthrow⟩)
    · exact hout hrange
    · exact hbig hbig'
    · exact ih hns hthrow

/-- A text is consumed where its numbers are read. -/
theorem Consumes.exists_ok {p : ReadM Unit} {s : State} {r : Bytes} {ns : List NumberText}
    (h : Consumes p s r ns) (hread : NumbersRead ns) : ∃ s', p s = .ok () s' ∧ s'.is.rest = r := by
  rw [Consumes, wp] at h
  cases hp : p s with
  | ok a s' =>
    rw [hp] at h
    exact ⟨s', rfl, h.1⟩
  | error f s' =>
    rw [hp] at h
    exact absurd h hread.not_throw

/-- A first part without numbers. -/
theorem consumes_bind_of_ok {α : Type} {p : ReadM α} {f : α → ReadM Unit} {s s' : State} {a : α}
    {r : Bytes} {ns : List NumberText} (hp : p s = .ok a s') (hf : Consumes (f a) s' r ns) :
    Consumes (p >>= f) s r ns :=
  (wp_bind_of_ok hp).mpr hf

/-- A first part with numbers, and a second one with none. -/
theorem Consumes.bind {p : ReadM Unit} {f : Unit → ReadM Unit} {s : State} {r r' : Bytes}
    {ns ns' : List NumberText} (hp : Consumes p s r ns)
    (hf : ∀ s', s'.is.rest = r → Consumes (f ()) s' r' ns') :
    Consumes (p >>= f) s r' (ns ++ ns') := by
  refine wp_seq (wp_mono hp (fun _ _ h => h) fun f _ h => h.append ns') ?_
  rintro ⟨⟩ s' ⟨hr, hread⟩
  exact wp_mono (hf s' hr) (fun _ _ h => ⟨h.1, hread.append h.2⟩) fun f _ h =>
    NumbersThrow.of_read hread h

/-- What each symbol of the grammar is for the reader: a value for `ParseValue`, elements and members
for the loops of `ParseArray` and `ParseMap`, which go on to the closing bracket. -/
def Recognized : Symbol → Bytes → List NumberText → Prop
  | .value, p, ns => ∀ s r depth, s.is.rest = p ++ r → (IsNumber p → EndsNumber r) →
      p.length < depth → Consumes (parseValue depth) s r ns
  | .elements, es, ns => ∀ s r depth fuel count, s.is.rest = es ++ 0x5d :: r →
      es.length < depth → es.length < fuel →
      Consumes (parseElements (parseValue depth) fuel count) s r ns
  | .members, ms, ns => ∀ s r depth fuel count, s.is.rest = ms ++ 0x7d :: r →
      ms.length < depth → ms.length < fuel →
      Consumes (parseMembers (parseValue depth) fuel count) s r ns

theorem recognized_literal {text : Bytes} (c : UInt8) (us : Bytes) (htext : text = c :: us)
    {e : Event} (hvalue : ∀ s : State, s.is.peek = c → ∀ depth,
      parseValue (depth + 1) s = (do onText (expect text); call e : ReadM Unit) s) :
    Recognized .value text [] := by
  intro s r depth hrest _ hdepth
  obtain ⟨depth, rfl⟩ := Nat.exists_eq_succ_of_ne_zero (by omega : depth ≠ 0)
  obtain ⟨s', hrun, -, hr⟩ := literal_eq hrest e
  have hpeek : s.is.peek = c := peek_of_rest (hrest.trans (by rw [htext, List.cons_append]))
  exact consumes_of_ok ((hvalue s hpeek depth).trans hrun) hr

/-- The byte at the start of a number is that of no other value. -/
theorem parseValue_number {t : NumberText} (ht : t.Valid) {s : State} {r : Bytes}
    (hrest : s.is.rest = t.text ++ r) (depth : ℕ) : parseValue (depth + 1) s = parseNumber s := by
  obtain ⟨c, us, htext, hc⟩ := head_number ht
  have hpeek : s.is.peek = c := peek_of_rest (hrest.trans (by rw [htext, List.cons_append]))
  have hne {d : UInt8} (hd : isDigit d = false ∧ d ≠ 0x2d) : c ≠ d := by
    rintro rfl
    rcases hc with hc | hc
    · exact Bool.noConfusion (hd.1.symm.trans hc)
    · exact hd.2 hc
  rw [parseValue, bind_of_ok (peek_apply s), hpeek, if_neg (hne (by decide)),
    if_neg (hne (by decide)), if_neg (hne (by decide)), if_neg (hne (by decide)),
    if_neg (hne (by decide)), if_neg (hne (by decide))]

/-- A number that is split off the text. -/
theorem consumes_number (hnonzero : Platform.DigitsNonzero) {t : NumberText} (ht : t.Valid)
    {s : State} {r : Bytes} (hsplit : split s.is.rest = (t, r)) (depth : ℕ) :
    Consumes (parseValue (depth + 1)) s r [t] := by
  have hcomplete : (split s.is.rest).1.Complete := by
    rw [hsplit]
    exact ht.complete
  have hrest := (split_text hcomplete).2
  rw [hsplit] at hrest
  have hnumber := wp_parseNumber hnonzero s
  rw [hsplit] at hnumber
  rw [Consumes, wp, parseValue_number ht hrest]
  refine wp_mono hnumber ?_ ?_
  · rintro ⟨⟩ s' ⟨hr, -, hrange, hbig⟩
    exact ⟨hr, List.forall_mem_singleton.mpr ⟨hrange, hbig⟩⟩
  · rintro f s' (⟨rfl, hrange⟩ | ⟨hrange, ⟨rfl, hbig⟩ | ⟨-, hincomplete⟩⟩)
    · exact .inl ⟨hrange, rfl⟩
    · exact .inr (.inl ⟨hrange, hbig, rfl⟩)
    · exact absurd ht.complete hincomplete

theorem recognized_number (hnonzero : Platform.DigitsNonzero) {t : NumberText} (ht : t.Valid) :
    Recognized .value t.text [t] := by
  intro s r depth hrest hends hdepth
  obtain ⟨depth, rfl⟩ := Nat.exists_eq_succ_of_ne_zero (by omega : depth ≠ 0)
  exact consumes_number hnonzero ht (by rw [hrest, split_append ht (hends ⟨t, ht, rfl⟩)]) depth

theorem recognized_string {ts bs : Bytes} (h : Chars ts bs) :
    Recognized .value (quoted ts) [] := by
  intro s r depth hrest _ hdepth
  obtain ⟨depth, rfl⟩ := Nat.exists_eq_succ_of_ne_zero (by omega : depth ≠ 0)
  obtain ⟨arg, s', hrun, -, hr, -⟩ :=
    parseStringFor_of_chars (fun str => .scalar (.string str)) h hrest
  refine consumes_of_ok ?_ hr
  rw [parseValue, bind_of_ok (peek_apply s), peek_of_rest hrest, if_neg (by decide),
    if_neg (by decide), if_neg (by decide), if_pos rfl]
  exact hrun

/-! ## Containers -/

omit [Platform] in
/-- The start of an array, with the white space behind the bracket. -/
theorem parseArray_start (parseValue : ReadM Unit) {s : State} {w r : Bytes} (hw : Spaces w)
    (hr : ∀ c ∈ r.head?, isSpace c = false) (hrest : s.is.rest = 0x5b :: (w ++ r)) :
    ∃ s', s'.is.rest = r ∧ Step s s' [.startArray none] ∧ parseArray parseValue s = (do
      if (← peek) = 0x5d then
        let _ ← getChar
        call (.endArray 0)
      else
        parseElements parseValue ((← get).is.rest.length + 1) 0 : ReadM Unit) s' := by
  have hspaces := skipWhiteSpace_eq (s := { s with
    is := s.is.advance 1, calls := s.calls ++ [⟨.startArray none, (s.is.advance 1).tell⟩] }) hw hr
    (by rw [ReadStream.rest_advance, hrest]; rfl)
  refine ⟨_, hspaces.2, ⟨rfl, rfl, rfl, by simp [ReaderState.events, consumed]⟩, ?_⟩
  rw [parseArray, bind_of_ok (assertPeek_eq (peek_of_rest hrest)), bind_of_ok (getChar_apply s),
    bind_of_ok (call_apply _ _), bind_of_ok hspaces.1]

omit [Platform] in
/-- The start of a map, with the white space behind the bracket. -/
theorem parseMap_start (parseValue : ReadM Unit) {s : State} {w r : Bytes} (hw : Spaces w)
    (hr : ∀ c ∈ r.head?, isSpace c = false) (hrest : s.is.rest = 0x7b :: (w ++ r)) :
    ∃ s', s'.is.rest = r ∧ Step s s' [.startMap none] ∧ parseMap parseValue s = (do
      if (← peek) = 0x7d then
        let _ ← getChar
        call (.endMap 0)
      else
        parseMembers parseValue ((← get).is.rest.length + 1) 0 : ReadM Unit) s' := by
  have hspaces := skipWhiteSpace_eq (s := { s with
    is := s.is.advance 1, calls := s.calls ++ [⟨.startMap none, (s.is.advance 1).tell⟩] }) hw hr
    (by rw [ReadStream.rest_advance, hrest]; rfl)
  refine ⟨_, hspaces.2, ⟨rfl, rfl, rfl, by simp [ReaderState.events, consumed]⟩, ?_⟩
  rw [parseMap, bind_of_ok (assertPeek_eq (peek_of_rest hrest)), bind_of_ok (getChar_apply s),
    bind_of_ok (call_apply _ _), bind_of_ok hspaces.1]

omit [Platform] in
/-- A byte that is taken, and is not white space. -/
theorem skip_getChar_eq {s : State} {w r : Bytes} {c : UInt8} (hw : Spaces w)
    (hc : isSpace c = false) (hrest : s.is.rest = w ++ c :: r) :
    ∃ s', s'.is.rest = r ∧ Step s s' [] ∧
      (do skipWhiteSpace; getChar : ReadM UInt8) s = .ok c s' := by
  obtain ⟨hspaces, hrest'⟩ := skipWhiteSpace_eq (r := c :: r) hw (by rintro _ ⟨⟩; exact hc) hrest
  refine ⟨consumed (consumed s w.length) 1, ?_, ⟨rfl, rfl, rfl, (List.append_nil _).symm⟩, ?_⟩
  · show ((consumed s w.length).is.advance 1).rest = r
    rw [ReadStream.rest_advance, hrest']
    rfl
  · rw [bind_of_ok hspaces, getChar_apply, peek_of_rest hrest']
    rfl

omit [Platform] in
/-- What follows a value in a container. -/
theorem endsNumber_separator {w r : Bytes} {c : UInt8} (hw : Spaces w)
    (hc : c = 0x2c ∨ c = 0x5d ∨ c = 0x7d) : EndsNumber (w ++ c :: r) := by
  refine endsNumber_append hw (endsNumber_cons ?_)
  rcases hc with rfl | rfl | rfl <;> decide

omit [Platform] in
/-- The loop over the elements, behind one of them. -/
theorem parseElements_succ (parseValue : ReadM Unit) (fuel count : ℕ) :
    parseElements parseValue (fuel + 1) count = (do
      parseValue
      let c ← (do skipWhiteSpace; getChar : ReadM UInt8)
      if c = 0x2c then
        skipWhiteSpace
        call .arraySeparator
        parseElements parseValue fuel (count + 1)
      else if c = 0x5d then
        call (.endArray (count + 1))
      else
        anyrpcThrow ErrorCode.arrayMissCommaOrSquareBracket
          (ascii "Missing a comma or ']' after an array element")) := by
  rw [parseElements]
  simp only [bind_assoc]

omit [Platform] in
/-- The loop over the members, behind the key of one of them. -/
theorem parseMembers_succ (parseValue : ReadM Unit) (fuel count : ℕ) :
    parseMembers parseValue (fuel + 1) count = (do
      if (← peek) ≠ 0x22 then
        anyrpcThrow ErrorCode.objectMissName (ascii "Missing a name for object member")
      parseKey
      if (← (do skipWhiteSpace; getChar : ReadM UInt8)) ≠ 0x3a then
        anyrpcThrow ErrorCode.objectMissColon
          (ascii "Missing a colon after a name of object member")
      skipWhiteSpace
      parseValue
      let c ← (do skipWhiteSpace; getChar : ReadM UInt8)
      if c = 0x2c then
        skipWhiteSpace
        call .mapSeparator
        parseMembers parseValue fuel (count + 1)
      else if c = 0x7d then
        call (.endMap (count + 1))
      else
        anyrpcThrow ErrorCode.objectMissCommaOrCurlyBracket
          (ascii "Missing a comma or '\x7d' after an object member")) := by
  rw [parseMembers]
  simp only [bind_assoc]

section

variable {s : State} {r : Bytes} (depth : ℕ)

theorem parseValue_array (hrest : s.is.rest = 0x5b :: r) :
    parseValue (depth + 1) s = parseArray (parseValue depth) s := by
  rw [parseValue, bind_of_ok (peek_apply s), peek_of_rest hrest, if_neg (by decide),
    if_neg (by decide), if_neg (by decide), if_neg (by decide), if_neg (by decide), if_pos rfl]

theorem parseValue_map (hrest : s.is.rest = 0x7b :: r) :
    parseValue (depth + 1) s = parseMap (parseValue depth) s := by
  rw [parseValue, bind_of_ok (peek_apply s), peek_of_rest hrest, if_neg (by decide),
    if_neg (by decide), if_neg (by decide), if_neg (by decide), if_pos rfl]

end

theorem recognized_emptyArray {w : Bytes} (hw : Spaces w) :
    Recognized .value (0x5b :: (w ++ [0x5d])) [] := by
  intro s r depth hrest _ hdepth
  obtain ⟨depth, rfl⟩ := Nat.exists_eq_succ_of_ne_zero (by omega : depth ≠ 0)
  rw [List.cons_append, List.append_assoc] at hrest
  obtain ⟨s', hr, -, hrun⟩ := parseArray_start (parseValue depth) hw (by rintro _ ⟨⟩; decide) hrest
  rw [Consumes, wp, parseValue_array depth hrest, hrun]
  refine consumes_bind_of_ok (peek_apply s') ?_
  rw [peek_of_rest hr, if_pos rfl]
  refine consumes_bind_of_ok (getChar_apply s') (consumes_of_ok (call_apply _ _) ?_)
  exact s'.is.rest_advance_of_append (show s'.is.rest = [0x5d] ++ r from hr)

theorem recognized_array {w es : Bytes} {ns : List NumberText} (hw : Spaces w)
    (hes : Derives .elements es ns) (ih : Recognized .elements es ns) :
    Recognized .value (0x5b :: (w ++ (es ++ [0x5d]))) ns := by
  intro s r depth hrest _ hdepth
  obtain ⟨depth, rfl⟩ := Nat.exists_eq_succ_of_ne_zero (by omega : depth ≠ 0)
  rw [List.cons_append, List.append_assoc, List.append_assoc] at hrest
  simp only [List.length_cons, List.length_append] at hdepth
  obtain ⟨c, us, rfl, hc, hbracket⟩ := head_elements hes
  obtain ⟨s', hr, -, hrun⟩ := parseArray_start (parseValue depth) hw (by rintro _ ⟨⟩; exact hc) hrest
  rw [Consumes, wp, parseValue_array depth hrest, hrun]
  refine consumes_bind_of_ok (peek_apply s') ?_
  rw [peek_of_rest (c := c) hr, if_neg hbracket]
  refine consumes_bind_of_ok (get_apply s') (ih s' r depth _ 0 hr ?_ ?_)
  · simp only [List.length_cons] at hdepth ⊢
    omega
  · rw [hr]
    simp only [List.length_append, List.length_cons]
    omega

theorem recognized_lastElement {p w : Bytes} {ns : List NumberText} (hw : Spaces w)
    (ih : Recognized .value p ns) : Recognized .elements (p ++ w) ns := by
  intro s r depth fuel count hrest hdepth hfuel
  obtain ⟨fuel, rfl⟩ := Nat.exists_eq_succ_of_ne_zero (by omega : fuel ≠ 0)
  rw [List.append_assoc] at hrest
  rw [List.length_append] at hdepth
  have hends : EndsNumber (w ++ 0x5d :: r) := endsNumber_separator hw (.inr (.inl rfl))
  rw [parseElements_succ, ← List.append_nil ns]
  refine Consumes.bind (ih s _ depth hrest (fun _ => hends) (by omega)) fun s' hs' => ?_
  obtain ⟨s'', hs'', -, hrun⟩ := skip_getChar_eq hw (by decide) hs'
  refine consumes_bind_of_ok hrun ?_
  rw [if_neg (by decide), if_pos rfl]
  exact consumes_of_ok (call_apply _ _) hs''

theorem recognized_element {p w w' es : Bytes} {ns ns' : List NumberText} (hw : Spaces w)
    (hw' : Spaces w') (hes : Derives .elements es ns') (ih : Recognized .value p ns)
    (ih' : Recognized .elements es ns') :
    Recognized .elements (p ++ (w ++ 0x2c :: (w' ++ es))) (ns ++ ns') := by
  intro s r depth fuel count hrest hdepth hfuel
  obtain ⟨fuel, rfl⟩ := Nat.exists_eq_succ_of_ne_zero (by omega : fuel ≠ 0)
  simp only [List.append_assoc, List.cons_append] at hrest
  simp only [List.length_append, List.length_cons] at hdepth hfuel
  obtain ⟨c, us, rfl, hc, -⟩ := head_elements hes
  have hends : EndsNumber (w ++ 0x2c :: (w' ++ ((c :: us) ++ 0x5d :: r))) :=
    endsNumber_separator hw (.inl rfl)
  rw [parseElements_succ]
  refine Consumes.bind (ih s _ depth hrest (fun _ => hends) (by omega)) fun s' hs' => ?_
  obtain ⟨s'', hs'', -, hrun⟩ := skip_getChar_eq hw (by decide) hs'
  obtain ⟨hspaces, hr⟩ := skipWhiteSpace_eq hw' (by rintro _ ⟨⟩; exact hc) hs''
  refine consumes_bind_of_ok hrun ?_
  rw [if_pos rfl]
  refine consumes_bind_of_ok hspaces (consumes_bind_of_ok (call_apply _ _) ?_)
  exact ih' _ r depth fuel _ hr (by simp only [List.length_cons] at hdepth ⊢; omega)
    (by simp only [List.length_cons] at hfuel ⊢; omega)

omit [Platform] in
/-- The loop over the members, up to the value of one of them. -/
theorem parseMembers_key (parseValue : ReadM Unit) (fuel count : ℕ) {s : State}
    {key bs w₁ w₂ r : Bytes} (hkey : Chars key bs) (hw₁ : Spaces w₁) (hw₂ : Spaces w₂)
    (hr : ∀ c ∈ r.head?, isSpace c = false)
    (hrest : s.is.rest = quoted key ++ (w₁ ++ 0x3a :: (w₂ ++ r))) :
    ∃ s', s'.is.rest = r ∧ Step s s' [.key { bytes := bs, copy := copies s }] ∧
      parseMembers parseValue (fuel + 1) count s = (do
        parseValue
        let c ← (do skipWhiteSpace; getChar : ReadM UInt8)
        if c = 0x2c then
          skipWhiteSpace
          call .mapSeparator
          parseMembers parseValue fuel (count + 1)
        else if c = 0x7d then
          call (.endMap (count + 1))
        else
          anyrpcThrow ErrorCode.objectMissCommaOrCurlyBracket
            (ascii "Missing a comma or '\x7d' after an object member") : ReadM Unit) s' := by
  obtain ⟨s₁, hrun, hs₁, hstep⟩ := parseStringFor_eq .key hkey hrest
  obtain ⟨s₂, hs₂, hstep', hrun'⟩ := skip_getChar_eq hw₁ (by decide) hs₁
  obtain ⟨hspaces, hs₃⟩ := skipWhiteSpace_eq hw₂ hr hs₂
  have hparse : parseKey s = .ok () s₁ := hrun
  refine ⟨_, hs₃, (hstep.trans hstep').trans ⟨rfl, rfl, rfl, (List.append_nil _).symm⟩, ?_⟩
  rw [parseMembers_succ, bind_of_ok (peek_apply s), peek_of_rest hrest,
    if_neg (by decide : ¬ (0x22 : UInt8) ≠ 0x22)]
  beta_reduce
  rw [bind_of_ok hparse, bind_of_ok hrun', if_neg (by decide : ¬ (0x3a : UInt8) ≠ 0x3a)]
  exact bind_of_ok hspaces

theorem recognized_emptyObject {w : Bytes} (hw : Spaces w) :
    Recognized .value (0x7b :: (w ++ [0x7d])) [] := by
  intro s r depth hrest _ hdepth
  obtain ⟨depth, rfl⟩ := Nat.exists_eq_succ_of_ne_zero (by omega : depth ≠ 0)
  rw [List.cons_append, List.append_assoc] at hrest
  obtain ⟨s', hr, -, hrun⟩ := parseMap_start (parseValue depth) hw (by rintro _ ⟨⟩; decide) hrest
  rw [Consumes, wp, parseValue_map depth hrest, hrun]
  refine consumes_bind_of_ok (peek_apply s') ?_
  rw [peek_of_rest hr, if_pos rfl]
  refine consumes_bind_of_ok (getChar_apply s') (consumes_of_ok (call_apply _ _) ?_)
  exact s'.is.rest_advance_of_append (show s'.is.rest = [0x7d] ++ r from hr)

theorem recognized_object {w ms : Bytes} {ns : List NumberText} (hw : Spaces w)
    (hms : Derives .members ms ns) (ih : Recognized .members ms ns) :
    Recognized .value (0x7b :: (w ++ (ms ++ [0x7d]))) ns := by
  intro s r depth hrest _ hdepth
  obtain ⟨depth, rfl⟩ := Nat.exists_eq_succ_of_ne_zero (by omega : depth ≠ 0)
  rw [List.cons_append, List.append_assoc, List.append_assoc] at hrest
  simp only [List.length_cons, List.length_append] at hdepth
  obtain ⟨us, rfl⟩ := head_members hms
  obtain ⟨s', hr, -, hrun⟩ := parseMap_start (parseValue depth) hw (by rintro _ ⟨⟩; decide) hrest
  rw [Consumes, wp, parseValue_map depth hrest, hrun]
  refine consumes_bind_of_ok (peek_apply s') ?_
  rw [peek_of_rest (c := 0x22) hr, if_neg (by decide)]
  refine consumes_bind_of_ok (get_apply s') (ih s' r depth _ 0 hr ?_ ?_)
  · simp only [List.length_cons] at hdepth ⊢
    omega
  · rw [hr]
    simp only [List.length_append, List.length_cons]
    omega

omit [Platform] in
/-- A value starts with something else than white space. -/
theorem head_append {p : Bytes} {ns : List NumberText} (hp : Derives .value p ns) (r : Bytes) :
    ∀ c ∈ (p ++ r).head?, isSpace c = false := by
  obtain ⟨c, us, rfl, hc, -⟩ := head_value hp
  rintro _ ⟨⟩
  exact hc

theorem recognized_lastMember {key bs w₁ w₂ p w : Bytes} {ns : List NumberText}
    (hkey : Chars key bs) (hw₁ : Spaces w₁) (hw₂ : Spaces w₂) (hp : Derives .value p ns)
    (hw : Spaces w) (ih : Recognized .value p ns) :
    Recognized .members (quoted key ++ (w₁ ++ 0x3a :: (w₂ ++ (p ++ w)))) ns := by
  intro s r depth fuel count hrest hdepth hfuel
  obtain ⟨fuel, rfl⟩ := Nat.exists_eq_succ_of_ne_zero (by omega : fuel ≠ 0)
  simp only [List.append_assoc, List.cons_append] at hrest
  simp only [List.length_append, List.length_cons] at hdepth
  have hends : EndsNumber (w ++ 0x7d :: r) := endsNumber_separator hw (.inr (.inr rfl))
  obtain ⟨s', hs', -, hrun⟩ := parseMembers_key (parseValue depth) fuel count hkey hw₁ hw₂
    (head_append hp _) hrest
  rw [Consumes, wp, hrun, ← List.append_nil ns]
  refine Consumes.bind (ih s' _ depth hs' (fun _ => hends) (by omega)) fun s'' hs'' => ?_
  obtain ⟨s₃, hs₃, -, hrun'⟩ := skip_getChar_eq hw (by decide) hs''
  refine consumes_bind_of_ok hrun' ?_
  rw [if_neg (by decide), if_pos rfl]
  exact consumes_of_ok (call_apply _ _) hs₃

theorem recognized_member {key bs w₁ w₂ p w w' ms : Bytes} {ns ns' : List NumberText}
    (hkey : Chars key bs) (hw₁ : Spaces w₁) (hw₂ : Spaces w₂) (hp : Derives .value p ns)
    (hw : Spaces w) (hw' : Spaces w') (hms : Derives .members ms ns')
    (ih : Recognized .value p ns) (ih' : Recognized .members ms ns') :
    Recognized .members
      (quoted key ++ (w₁ ++ 0x3a :: (w₂ ++ (p ++ (w ++ 0x2c :: (w' ++ ms)))))) (ns ++ ns') := by
  intro s r depth fuel count hrest hdepth hfuel
  obtain ⟨fuel, rfl⟩ := Nat.exists_eq_succ_of_ne_zero (by omega : fuel ≠ 0)
  simp only [List.append_assoc, List.cons_append] at hrest
  simp only [List.length_append, List.length_cons] at hdepth hfuel
  obtain ⟨us, rfl⟩ := head_members hms
  have hends : EndsNumber (w ++ 0x2c :: (w' ++ ((0x22 :: us) ++ 0x7d :: r))) :=
    endsNumber_separator hw (.inl rfl)
  obtain ⟨s', hs', -, hrun⟩ := parseMembers_key (parseValue depth) fuel count hkey hw₁ hw₂
    (head_append hp _) hrest
  rw [Consumes, wp, hrun]
  refine Consumes.bind (ih s' _ depth hs' (fun _ => hends) (by omega)) fun s'' hs'' => ?_
  obtain ⟨s₃, hs₃, -, hrun'⟩ := skip_getChar_eq hw (by decide) hs''
  obtain ⟨hspaces, hr⟩ := skipWhiteSpace_eq hw' (by rintro _ ⟨⟩; decide) hs₃
  refine consumes_bind_of_ok hrun' ?_
  rw [if_pos rfl]
  refine consumes_bind_of_ok hspaces (consumes_bind_of_ok (call_apply _ _) ?_)
  exact ih' _ r depth fuel _ hr (by simp only [List.length_cons] at hdepth ⊢; omega)
    (by simp only [List.length_cons] at hfuel ⊢; omega)

/-- Every text of the grammar is consumed, or ends the parsing with one of its numbers. -/
theorem recognized (hnonzero : Platform.DigitsNonzero) {sym : Symbol} {p : Bytes}
    {ns : List NumberText} (h : Derives sym p ns) : Recognized sym p ns := by
  induction h with
  | null =>
    refine recognized_literal 0x6e (ascii "ull") rfl (e := .scalar .null) fun s hpeek depth => ?_
    rw [parseValue, bind_of_ok (peek_apply s), hpeek, if_pos rfl]
    rfl
  | true =>
    refine recognized_literal 0x74 (ascii "rue") rfl (e := .scalar .boolTrue) fun s hpeek depth => ?_
    rw [parseValue, bind_of_ok (peek_apply s), hpeek, if_neg (by decide), if_pos rfl]
    rfl
  | false =>
    refine recognized_literal 0x66 (ascii "alse") rfl (e := .scalar .boolFalse) fun s hpeek depth => ?_
    rw [parseValue, bind_of_ok (peek_apply s), hpeek, if_neg (by decide), if_neg (by decide),
      if_pos rfl]
    rfl
  | number ht => exact recognized_number hnonzero ht
  | string hts => exact recognized_string hts
  | emptyArray hw => exact recognized_emptyArray hw
  | array hw hes ih => exact recognized_array hw hes ih
  | emptyObject hw => exact recognized_emptyObject hw
  | object hw hms ih => exact recognized_object hw hms ih
  | lastElement _ hw ih => exact recognized_lastElement hw ih
  | element _ hw hw' hes ih ih' => exact recognized_element hw hw' hes ih ih'
  | lastMember hkey hw₁ hw₂ hp hw ih => exact recognized_lastMember hkey hw₁ hw₂ hp hw ih
  | member hkey hw₁ hw₂ hp hw hw' hms ih ih' =>
    exact recognized_member hkey hw₁ hw₂ hp hw hw' hms ih ih'

end AnyRpc.JsonReader
