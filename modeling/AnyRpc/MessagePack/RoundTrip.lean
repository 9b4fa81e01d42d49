import AnyRpc.Document.Growth
import AnyRpc.Document.Limits
import AnyRpc.MessagePack.Forms

/-! # Reading back what the MessagePack writer wrote

A value that is written and read again is left in the document as it was, unless one of its keys is
not accepted (`MessagePackReader.KeyReadable`) or one of its arrays is larger than an array can grow
to. Both conditions hold of every value that the reader can leave in a document, so that the round
trip fails for all other values. -/

namespace AnyRpc

open Library Handler

/-! ## The values of the round trip -/

namespace Value

/-- The nodes of values without floats and points in time, whose sizes are within the format and the
nominal limits of the containers. -/
def IsPlain : Value → Prop
  | number n => (∃ z, Number.InRange z ∧ n = .ofInteger z) ∨ ∃ d, n = .ofDouble d
  | string s => s.length < 2 ^ 32
  | binary s => s.length < 2 ^ 32
  | array es _ => es.length < maxArrayCapacity
  | map ms _ => ms.length ≤ maxMapCapacity
  | null => True
  | bool _ => True
  | invalid => False
  | dateTime _ => False

/-- The nodes that the reader can leave in a document. -/
def IsReadable (inSitu : Bool) : Value → Prop
  | map ms _ => ∀ m ∈ ms, MessagePackReader.KeyReadable inSitu m.1
  | array es _ => es.length ≤ maxPushedElements
  | _ => True

section

variable (inSitu : Bool)

mutual

/-- Whether the reader has read the token after the value when it returns: in place, it does so
after a string. -/
def readsAhead : Value → Bool
  | string _ => inSitu
  | array es _ => readsAheadElements false es
  | map ms _ => readsAheadMembers false ms
  | _ => false

/-- `readsAhead` after the elements of an array. -/
def readsAheadElements (ahead : Bool) : List Value → Bool
  | [] => ahead
  | v :: vs => readsAheadElements (readsAhead v) vs

/-- `readsAhead` after the members of a map. -/
def readsAheadMembers (ahead : Bool) : List (Bytes × Value) → Bool
  | [] => ahead
  | (_, v) :: ms => readsAheadMembers (readsAhead v) ms

end

end

end Value

namespace MessagePackReader

open Reader MessagePack

variable [Platform]

/-! ## Containers -/

/-- Reading a value that was written. -/
def ReadsBack (inSitu : Bool) (parse : ReadM Unit) (v : Value) : Prop :=
  ∀ (s : State) (ahead : Bool) (r : Bytes), s.is.inSitu = inSitu →
    Left ahead s (v.messagePack ++ r) →
    ∃ t, EventTree.Builds false t v ∧ Returns parse s t.events (v.readsAhead inSitu) r

section

variable {inSitu : Bool} {parse : ReadM Unit}

/-- The loop over the elements that were written. -/
theorem parseElements_messagePack {es : List Value} (hes : ∀ e ∈ es, ReadsBack inSitu parse e)
    {s : State} {ahead : Bool} {r : Bytes} (hmode : s.is.inSitu = inSitu)
    (h : Left ahead s (Value.messagePackElements es ++ r)) :
    ∃ ts, List.Forall₂ (EventTree.Builds false) ts es ∧
      Returns (parseElements parse es.length) s (EventTree.elementEvents ts)
        (Value.readsAheadElements inSitu ahead es) r := by
  induction es generalizing s ahead with
  | nil => exact ⟨[], .nil, s, rfl, Step.refl s, h⟩
  | cons e es ih =>
    rw [Value.messagePackElements, List.append_assoc] at h
    obtain ⟨t, ht, s', hrun, hstep, hleft⟩ := hes e List.mem_cons_self s ahead _ hmode h
    obtain ⟨s'', hrun', hstep', hleft'⟩ := returns_separator es.length .arraySeparator hleft
    obtain ⟨ts, hts, s''', hrun'', hstep'', hleft''⟩ :=
      ih (fun e' he' => hes e' (List.mem_cons_of_mem _ he'))
        (hstep'.inSitu.trans (hstep.inSitu.trans hmode)) hleft'
    refine ⟨t :: ts, .cons ht hts, s''', ?_, ?_, hleft''⟩
    · rw [List.length_cons, parseElements_succ, bind_of_ok hrun, bind_of_ok hrun', hrun'']
    · rw [EventTree.elementEvents_cons, hts.length_eq]
      exact hstep.trans (hstep'.trans hstep'')

/-- The loop over the members that were written. -/
theorem parseMembers_messagePack {ms : List (Bytes × Value)}
    (hms : ∀ m ∈ ms, KeyReadable inSitu m.1 ∧ m.2.messagePack ≠ [] ∧ ReadsBack inSitu parse m.2)
    {s : State} {ahead : Bool} {r : Bytes} (hmode : s.is.inSitu = inSitu)
    (h : Left ahead s (Value.messagePackMembers ms ++ r)) :
    ∃ ts, List.Forall₂ (EventTree.BuildsMember false) ts ms ∧
      Returns (parseMembers parse ms.length) s (EventTree.memberEvents ts)
        (Value.readsAheadMembers inSitu ahead ms) r := by
  induction ms generalizing s ahead with
  | nil => exact ⟨[], .nil, s, rfl, Step.refl s, h⟩
  | cons m ms ih =>
    obtain ⟨k, v⟩ := m
    obtain ⟨hk, hne, hv⟩ := hms (k, v) List.mem_cons_self
    rw [Value.messagePackMembers, List.append_assoc, List.append_assoc] at h
    obtain ⟨arg, hbytes, hterminated, s₁, hrun₁, hstep₁, hleft₁⟩ :=
      parseKey_string (by rw [hmode]; exact hk) (by simp [hne]) h
    obtain ⟨t, ht, s₂, hrun₂, hstep₂, hleft₂⟩ :=
      hv s₁ _ _ (hstep₁.inSitu.trans hmode) hleft₁
    obtain ⟨s₃, hrun₃, hstep₃, hleft₃⟩ := returns_separator ms.length .mapSeparator hleft₂
    obtain ⟨ts, hts, s₄, hrun₄, hstep₄, hleft₄⟩ :=
      ih (fun m' hm' => hms m' (List.mem_cons_of_mem _ hm'))
        (hstep₃.inSitu.trans (hstep₂.inSitu.trans (hstep₁.inSitu.trans hmode))) hleft₃
    refine ⟨(some arg, t) :: ts, .cons ⟨arg, rfl, hterminated, hbytes, ht⟩ hts, s₄, ?_, ?_, hleft₄⟩
    · rw [List.length_cons, parseMembers_succ, bind_of_ok hrun₁, bind_of_ok hrun₂,
        bind_of_ok hrun₃, hrun₄]
    · rw [EventTree.memberEvents_cons, hts.length_eq]
      exact hstep₁.trans (hstep₂.trans (hstep₃.trans hstep₄))

end

/-! ## Values -/

omit [Platform] in
/-- An integer is written in at least one byte. -/
theorem integerBytes_ne_nil (z : ℤ) : integerBytes z ≠ [] := by
  rw [integerBytes]
  split_ifs <;> exact List.cons_ne_nil _ _

omit [Platform] in
theorem startArray_ne_nil (n : ℕ) : MessagePackWriter.startArray n ≠ [] := by
  rw [MessagePackWriter.startArray]
  split_ifs <;> exact List.cons_ne_nil _ _

omit [Platform] in
theorem startMap_ne_nil (n : ℕ) : MessagePackWriter.startMap n ≠ [] := by
  rw [MessagePackWriter.startMap]
  split_ifs <;> exact List.cons_ne_nil _ _

/-- A number is written as an integer or as a double. -/
theorem messagePack_number (n : Number) (hn : (Value.number n).IsPlain) :
    (∃ z, Number.InRange z ∧ n = .ofInteger z ∧ (Value.number n).messagePack = integerBytes z) ∨
      ∃ d, n = .ofDouble d ∧ (Value.number n).messagePack = MessagePackWriter.double d := by
  rcases hn with ⟨z, hz, rfl⟩ | ⟨d, rfl⟩
  · exact .inl ⟨z, hz, rfl, MessagePackWriter.scalar_numberScalar hz⟩
  · refine .inr ⟨d, rfl, ?_⟩
    obtain ⟨hint, huint, hint64, huint64, hdouble⟩ := Number.flags_ofDouble d
    show MessagePackWriter.scalar (Value.numberScalar _) = _
    rw [Value.numberScalar, hint, huint, hint64, huint64, hdouble]
    rfl

/-- Every value is written with at least its token. -/
theorem messagePack_ne_nil {v : Value} (hv : v.IsPlain) : v.messagePack ≠ [] := by
  cases v with
  | invalid => exact hv.elim
  | dateTime dt => exact hv.elim
  | null => exact List.cons_ne_nil _ _
  | bool b => cases b <;> exact List.cons_ne_nil _ _
  | number n =>
    rcases messagePack_number n hv with ⟨z, -, -, h⟩ | ⟨d, -, h⟩
    · rw [h]
      exact integerBytes_ne_nil z
    · rw [h]
      exact List.cons_ne_nil _ _
  | string str =>
    show MessagePackWriter.strHeader _ ++ _ ≠ []
    rw [MessagePackWriter.strHeader]
    split_ifs <;> exact List.cons_ne_nil _ _
  | binary str =>
    show MessagePackWriter.binHeader _ ++ _ ≠ []
    rw [MessagePackWriter.binHeader]
    split_ifs <;> exact List.cons_ne_nil _ _
  | array es c => exact List.append_ne_nil_of_left_ne_nil (startArray_ne_nil _) _
  | map ms c => exact List.append_ne_nil_of_left_ne_nil (startMap_ne_nil _) _

/-- An element is no longer than all of them. -/
theorem length_messagePack_le_elements {es : List Value} {e : Value} (he : e ∈ es) :
    e.messagePack.length ≤ (Value.messagePackElements es).length := by
  obtain ⟨fs, gs, rfl⟩ := List.append_of_mem he
  simp only [Value.messagePackElements_append, Value.messagePackElements, List.length_append]
  omega

/-- A member's value is no longer than all members. -/
theorem length_messagePack_le_members {ms : List (Bytes × Value)} {m : Bytes × Value}
    (hm : m ∈ ms) : m.2.messagePack.length ≤ (Value.messagePackMembers ms).length := by
  obtain ⟨fs, gs, rfl⟩ := List.append_of_mem hm
  simp only [Value.messagePackMembers_append, Value.messagePackMembers, List.length_append]
  omega

/-- Reading a scalar that was written. -/
theorem parse_scalar {inSitu : Bool} {v : Value} (hplain : v.IsPlain) (hmap : v.isMap = false)
    (harray : v.isArray = false) (depth : ℕ) : ReadsBack inSitu (parse (depth + 1)) v := by
  intro s ahead r hmode h
  cases v with
  | invalid => exact hplain.elim
  | dateTime dt => exact hplain.elim
  | map ms c => cases hmap
  | array es c => cases harray
  | null => exact ⟨_, EventTree.builds_leaf rfl, parse_token .null (fun _ => rfl) h⟩
  | bool b =>
    cases b with
    | false => exact ⟨_, EventTree.builds_leaf rfl, parse_token .boolFalse (fun _ => rfl) h⟩
    | true => exact ⟨_, EventTree.builds_leaf rfl, parse_token .boolTrue (fun _ => rfl) h⟩
  | number n =>
    rcases messagePack_number n hplain with ⟨z, hz, rfl, hbytes⟩ | ⟨d, rfl, hbytes⟩
    · rw [hbytes] at h
      exact ⟨_, EventTree.builds_leaf (value_integerScalar hz), parse_integer hz h⟩
    · rw [hbytes] at h
      exact ⟨_, EventTree.builds_leaf rfl, parse_double h⟩
  | string str =>
    obtain ⟨arg, hbytes, hterminated, hreturns⟩ := parse_string hplain h depth
    refine ⟨.leaf (.string arg), EventTree.builds_leaf ?_, ?_⟩
    · rw [Scalar.build, if_pos hterminated, hbytes]
    · rw [hmode] at hreturns
      exact hreturns
  | binary str =>
    obtain ⟨arg, hbytes, hreturns⟩ := parse_binary hplain h depth
    refine ⟨.leaf (.binary arg), EventTree.builds_leaf ?_, hreturns⟩
    show Except.ok (Value.binary arg.bytes) = _
    rw [hbytes]

/-- Reading a value that was written, to a depth that suffices. -/
theorem parse_messagePack {inSitu : Bool} {v : Value} (hplain : v.All Value.IsPlain)
    (hread : v.All (Value.IsReadable inSitu)) {depth : ℕ} (hdepth : v.messagePack.length ≤ depth) :
    ReadsBack inSitu (parse depth) v := by
  have hpos := List.length_pos_iff.mpr (messagePack_ne_nil hplain.root)
  obtain ⟨depth, rfl⟩ := Nat.exists_eq_add_one_of_ne_zero (show depth ≠ 0 by omega)
  induction v using Value.induction generalizing depth with
  | array es c ih =>
    obtain ⟨hsize, hes⟩ := Value.all_array.mp hplain
    obtain ⟨hlen, hread⟩ := Value.all_array.mp hread
    rw [Value.messagePack, List.length_append] at hdepth
    have hheader := List.length_pos_iff.mpr (startArray_ne_nil es.length)
    intro s ahead r hmode h
    rw [Value.messagePack, List.append_assoc] at h
    have hn : es.length < 2 ^ 32 := lt_trans hsize (by decide)
    obtain ⟨s₁, hrun₁, hstep₁, hregion, hrest⟩ := parse_startArray depth hn h
    obtain ⟨s₂, hrun₂, hstep₂, hleft₂⟩ :=
      returns_start (.startArray (some es.length)) hregion hrest
    have hback : ∀ e ∈ es, ReadsBack inSitu (parse depth) e := by
      intro e he
      have hpos := List.length_pos_iff.mpr (messagePack_ne_nil (hes e he).root)
      have hle := length_messagePack_le_elements he
      obtain ⟨depth, rfl⟩ := Nat.exists_eq_add_one_of_ne_zero (show depth ≠ 0 by omega)
      exact ih e he (hes e he) (hread e he) hpos depth (by omega)
    obtain ⟨ts, hts, s₃, hrun₃, hstep₃, hleft₃⟩ := parseElements_messagePack hback
      (hstep₂.inSitu.trans (hstep₁.inSitu.trans hmode)) hleft₂
    obtain ⟨s₄, hrun₄, hstep₄, hleft₄⟩ := returns_call (.endArray es.length) hleft₃
    refine ⟨.array (some es.length) ts, EventTree.builds_array hts (by rw [hts.length_eq]; exact hlen)
      (by simp) _ c, s₄, ?_, ?_, hleft₄⟩
    · rw [hrun₁, parseArray_eq, bind_of_ok hrun₂, bind_of_ok hrun₃, hrun₄]
    · rw [EventTree.events, hts.length_eq]
      exact hstep₁.trans (hstep₂.trans (hstep₃.trans hstep₄))
  | map ms c ih =>
    obtain ⟨hsize, hms⟩ := Value.all_map.mp hplain
    obtain ⟨hkeys, hread⟩ := Value.all_map.mp hread
    rw [Value.messagePack, List.length_append] at hdepth
    have hheader := List.length_pos_iff.mpr (startMap_ne_nil ms.length)
    intro s ahead r hmode h
    rw [Value.messagePack, List.append_assoc] at h
    have hn : ms.length < 2 ^ 32 := lt_of_le_of_lt hsize (by decide)
    obtain ⟨s₁, hrun₁, hstep₁, hregion, hrest⟩ := parse_startMap depth hn h
    obtain ⟨s₂, hrun₂, hstep₂, hleft₂⟩ := returns_start (.startMap (some ms.length)) hregion hrest
    have hback : ∀ m ∈ ms, KeyReadable inSitu m.1 ∧ m.2.messagePack ≠ [] ∧
        ReadsBack inSitu (parse depth) m.2 := by
      intro m hm
      have hne := messagePack_ne_nil (hms m hm).root
      have hpos := List.length_pos_iff.mpr hne
      have hle := length_messagePack_le_members hm
      obtain ⟨depth, rfl⟩ := Nat.exists_eq_add_one_of_ne_zero (show depth ≠ 0 by omega)
      exact ⟨hkeys m hm, hne, ih m hm (hms m hm) (hread m hm) hpos depth (by omega)⟩
    obtain ⟨ts, hts, s₃, hrun₃, hstep₃, hleft₃⟩ := parseMembers_messagePack hback
      (hstep₂.inSitu.trans (hstep₁.inSitu.trans hmode)) hleft₂
    obtain ⟨s₄, hrun₄, hstep₄, hleft₄⟩ := returns_call (.endMap ms.length) hleft₃
    refine ⟨.map (some ms.length) ts, EventTree.builds_map hts (by rw [hts.length_eq]; exact hsize)
      _ c, s₄, ?_, ?_, hleft₄⟩
    · rw [hrun₁, parseMap_eq, bind_of_ok hrun₂, bind_of_ok hrun₃, hrun₄]
    · rw [EventTree.events, hts.length_eq]
      exact hstep₁.trans (hstep₂.trans (hstep₃.trans hstep₄))
  | _ => exact parse_scalar hplain.root rfl rfl depth

/-! ## What the reader can leave in a document -/

omit [Platform] in
/-- Whether a value is readable is a matter of its contents. -/
theorem all_isReadable_contents {inSitu : Bool} (v : Value) :
    v.contents.All (Value.IsReadable inSitu) ↔ v.All (Value.IsReadable inSitu) := by
  induction v using Value.induction with
  | array es c ih =>
    rw [Value.contents_array, Value.all_array, Value.all_array]
    simp only [Value.IsReadable, List.length_map, List.forall_mem_map]
    exact and_congr_right fun _ => forall₂_congr ih
  | map ms c ih =>
    rw [Value.contents_map, Value.all_map, Value.all_map]
    simp only [Value.IsReadable, List.forall_mem_map]
    exact and_congr_right fun _ => forall₂_congr ih
  | _ => rfl

/-- What is built from a tree whose keys are accepted is readable. -/
theorem isReadable_of_build {inSitu convert : Bool} {t : EventTree} {v : Value}
    (ht : keysReadable inSitu t) (h : t.build convert = .ok v) :
    v.All (Value.IsReadable inSitu) := by
  induction t using EventTree.induction generalizing v with
  | leaf s =>
    cases s with
    | string str =>
      rw [EventTree.build, Scalar.build] at h
      split_ifs at h
      cases h
      trivial
    | _ =>
      cases h
      trivial
  | array c ts ih =>
    have hts := EventTree.allKeys_array.mp ht
    have hlen : ts.length ≤ maxPushedElements := by
      by_contra hlt
      obtain ⟨f, hf⟩ := EventTree.build_array_of_gt convert (not_le.mp hlt) c
      rw [h] at hf
      cases hf
    cases ts with
    | nil =>
      cases h
      exact Value.all_array.mpr ⟨Nat.zero_le _, by simp⟩
    | cons t ts =>
      rw [EventTree.build_array_cons] at h
      cases hes : EventTree.buildArray convert t ts with
      | error f => rw [hes] at h; cases h
      | ok r =>
        obtain ⟨es, c'⟩ := r
        have hbuilt := EventTree.buildArray_eq_ok hes
        rw [hes] at h
        rcases EventTree.finish_eq_ok h with rfl | ⟨dt, rfl⟩ | ⟨str, rfl⟩
        · refine Value.all_array.mpr
            ⟨show es.length ≤ _ from hbuilt.length_eq ▸ hlen, fun e he => ?_⟩
          obtain ⟨t', ht', hbuild⟩ := EventTree.exists_of_forall₂ hbuilt he
          exact ih t' ht' (hts t' ht') hbuild
        · trivial
        · trivial
  | map c ms ih =>
    have hms := EventTree.allKeys_map.mp ht
    rw [EventTree.build] at h
    cases hvs : EventTree.buildMembers convert ms [] 0 with
    | error f => rw [hvs] at h; cases h
    | ok r =>
      obtain ⟨vs, c'⟩ := r
      rw [hvs] at h
      cases h
      obtain ⟨_, rfl, hbuilt⟩ := EventTree.buildMembers_eq_ok hvs
      refine Value.all_map.mpr ⟨fun m hm => ?_, fun m hm => ?_⟩
      · obtain ⟨m', hm', hkey, -⟩ := EventTree.exists_of_forall₂ hbuilt hm
        obtain ⟨k, hk, hbytes⟩ := Option.map_eq_some_iff.mp hkey
        rw [← hbytes]
        exact (hms m' hm').1 k hk
      · obtain ⟨m', hm', -, hbuild⟩ := EventTree.exists_of_forall₂ hbuilt hm
        exact ih m' hm' (hms m' hm').2 hbuild

/-! ## The round trip -/

/-- The value is written and read again, from a buffer, without an error and with the same
contents. -/
def RoundTrips (v : Value) (inSitu copy : Bool) (beyond : UInt8) (d : Document) : Prop :=
  ∃ (w : MessagePackWriter) (r : Parsed Document MessagePackReader),
    outcome (Value.traverse v) {} = .ok w ∧
      parseStream (.inSituString w.os inSitu copy beyond) d = .ok r ∧
      r.hasParseError = false ∧ r.handler.value.contents = v.contents

/-- A plain value is written as its encoding. -/
theorem traverse_eq_of_isPlain {v : Value} (hplain : v.All Value.IsPlain) :
    outcome (Value.traverse v) ({} : MessagePackWriter) = .ok ⟨v.messagePack⟩ :=
  MessagePackWriter.traverse_eq (hplain.mono fun v hv => by rintro rfl; exact hv) {}

section

variable {v : Value} (hplain : v.All Value.IsPlain) {inSitu : Bool} (copy : Bool) (beyond : UInt8)
variable {d : Document} (hd : d.convertExtensions = false)

include hplain

include hd in
/-- A readable value is read back. -/
theorem roundTrips_of_isReadable (hread : v.All (Value.IsReadable inSitu)) :
    RoundTrips v inSitu copy beyond d := by
  have hleft : Left false { new (.inSituString v.messagePack inSitu copy beyond) with calls := [] }
      (v.messagePack ++ []) := ⟨rfl, rfl, (List.append_nil _).symm⟩
  obtain ⟨t, ⟨w, hbuild, hcontents⟩, s', hrun, hstep, -⟩ :=
    parse_messagePack hplain hread (Nat.le_succ _) _ _ _ rfl hleft
  rw [← hd] at hbuild
  exact ⟨_, _, traverse_eq_of_isPlain hplain,
    parseStream_of_build hrun (by rw [hstep.events]; rfl) hbuild, rfl, hcontents⟩

/-- A value that is read back is readable. -/
theorem isReadable_of_roundTrips (h : RoundTrips v inSitu copy beyond d) :
    v.All (Value.IsReadable inSitu) := by
  obtain ⟨w, r, hw, hr, hok, hcontents⟩ := h
  rw [traverse_eq_of_isPlain hplain] at hw
  cases hw
  obtain ⟨r', hr', herr | ⟨-, t, u, ht, hbuild, hhandler⟩⟩ :=
    parseStream_cases (.inSituString v.messagePack inSitu copy beyond) rfl d
  · rw [hr] at hr'
    cases hr'
    rw [hok] at herr
    cases herr
  · rw [hr] at hr'
    cases hr'
    rw [hhandler] at hcontents
    rw [← all_isReadable_contents, ← hcontents, all_isReadable_contents]
    exact isReadable_of_build ht hbuild

include hd in
/-- A value that is written is read back exactly if every key is shorter than 256 bytes, and not
empty where it is copied, and every array has at most `maxPushedElements` elements. -/
theorem roundTrips_iff :
    RoundTrips v inSitu copy beyond d ↔ v.All (Value.IsReadable inSitu) :=
  ⟨isReadable_of_roundTrips hplain copy beyond, roundTrips_of_isReadable hplain copy beyond hd⟩

end

/-- A map of an array with a binary and a number, and of an empty map. -/
def nestedValue : Value :=
  .map [(ascii "list", .array [.binary [0x00, 0xff], .number (.ofInteger (-70000)), .null] 16),
    (ascii "map", .map [] 0)] 16

omit [Platform] in
/-- Its parts are within the format and the limits of the containers. -/
theorem isPlain_nestedValue : nestedValue.All Value.IsPlain := by
  refine Value.all_map.mpr ⟨show 2 ≤ Value.maxMapCapacity by decide, ?_⟩
  simp only [List.forall_mem_cons]
  refine ⟨Value.all_array.mpr ⟨show 3 < Value.maxArrayCapacity by decide, ?_⟩,
    Value.all_map.mpr ⟨Nat.zero_le _, List.forall_mem_nil _⟩, List.forall_mem_nil _⟩
  simp only [List.forall_mem_cons]
  exact ⟨show 2 < 2 ^ 32 by decide, .inl ⟨-70000, ⟨by decide, by decide⟩, rfl⟩, trivial,
    List.forall_mem_nil _⟩

omit [Platform] in
/-- Its keys are short and not empty. -/
theorem isReadable_nestedValue (inSitu : Bool) : nestedValue.All (Value.IsReadable inSitu) := by
  refine Value.all_map.mpr ⟨?_, ?_⟩
  · show ∀ m ∈ [(ascii "list", _), (ascii "map", _)], KeyReadable inSitu m.1
    simp only [List.forall_mem_cons]
    exact ⟨⟨by decide, .inr (by decide)⟩, ⟨by decide, .inr (by decide)⟩, List.forall_mem_nil _⟩
  · simp only [List.forall_mem_cons]
    refine ⟨Value.all_array.mpr ⟨show 3 ≤ maxPushedElements by decide, ?_⟩,
      Value.all_map.mpr ⟨List.forall_mem_nil _, List.forall_mem_nil _⟩, List.forall_mem_nil _⟩
    simp only [List.forall_mem_cons]
    exact ⟨trivial, trivial, trivial, List.forall_mem_nil _⟩

omit [Platform] in
/-- In place, in place with copies of the strings, and where everything is copied. -/
theorem roundTrips_iff_nested :
    letI := Platform.blank
    let d : Document := { convertExtensions := false }
    RoundTrips nestedValue true false 0 d ∧ RoundTrips nestedValue true true 0 d ∧
      RoundTrips nestedValue false false 0 d :=
  let _ := Platform.blank
  ⟨(roundTrips_iff isPlain_nestedValue false 0 rfl).mpr (isReadable_nestedValue true),
    (roundTrips_iff isPlain_nestedValue true 0 rfl).mpr (isReadable_nestedValue true),
    (roundTrips_iff isPlain_nestedValue false 0 rfl).mpr (isReadable_nestedValue false)⟩

omit [Platform] in
/-- A map of one member whose key has 256 bytes is not read back, in place or not. -/
theorem not_roundTrips_long_key :
    letI := Platform.blank
    Value.All Value.IsPlain (.map [(List.replicate 256 0x61, .null)] 16) ∧
      ∀ inSitu : Bool, ¬ RoundTrips (.map [(List.replicate 256 0x61, .null)] 16) inSitu false 0
        { convertExtensions := false } := by
  have hplain : Value.All Value.IsPlain (.map [(List.replicate 256 0x61, .null)] 16) := by
    refine Value.all_map.mpr ⟨show 1 ≤ Value.maxMapCapacity by decide, fun m hm => ?_⟩
    rw [List.mem_singleton.mp hm]
    trivial
  refine ⟨hplain, fun inSitu h => ?_⟩
  let _ := Platform.blank
  have hkeys := (Value.all_map.mp (isReadable_of_roundTrips hplain false 0 h)).1
  have hkey := (hkeys _ List.mem_cons_self).1
  rw [List.length_replicate] at hkey
  omega

/-- Any bytes are read to an end: with a parse error, or into one complete value all of whose parts
are valid, got their elements one by one and have keys that are accepted. -/
theorem parseStream_wellFormed (bytes : Bytes) (inSitu copy : Bool) (beyond : UInt8) (d : Document) :
    ∃ r, parseStream (.inSituString bytes inSitu copy beyond) d = .ok r ∧
      (r.hasParseError = false → r.handler.stack = [] ∧ r.handler.value.FullyValid ∧
        r.handler.value.Grown ∧ r.handler.value.All (Value.IsReadable inSitu)) := by
  obtain ⟨r, hread, hcases⟩ := parseStream_cases (.inSituString bytes inSitu copy beyond) rfl d
  refine ⟨r, hread, fun hok => ?_⟩
  obtain herror | ⟨-, t, v, hkeys, hbuild, hhandler⟩ := hcases
  · cases hok.symm.trans herror
  · rw [hhandler]
    exact ⟨rfl, EventTree.fullyValid_of_build hbuild, EventTree.grown_of_build hbuild,
      isReadable_of_build hkeys hbuild⟩

end MessagePackReader

end AnyRpc
