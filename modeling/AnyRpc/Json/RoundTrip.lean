import AnyRpc.Document.Conversion
import AnyRpc.Json.WriteValue

/-! # The JSON round trip

What a traversal to a JSON writer leaves is read back, in every layout. With ASCII encoding that is
what becomes of the values whose strings and keys are UTF-8, and every other value is refused. A binary
comes back when it is neither empty nor too long for a line of its text. -/

namespace AnyRpc

open Handler Library Json NumberText

variable [Platform]

namespace JsonWriter

/-- What the writer makes of a value is read as it. -/
def RoundTrips (w : JsonWriter) (v : Value) (convert : Bool) : Prop :=
  ∃ text, Value.traverse v w = .ok () (w.wrote text) ∧
    (w.encoding = .ascii → ∀ c ∈ text, c < 0x80) ∧
    ∀ (is : ReadStream) (d : Document), is.rest = text → d.convertExtensions = convert →
      ∃ r, JsonReader.parseStream is d = .ok r ∧ r.hasParseError = false ∧
        r.handler.value.contents = v.contents

/-- A value that the writer can decode is written and read back. -/
theorem roundTrips_of_isUtf8 {v : Value} {convert : Bool} (hv : v.All (Value.IsJson convert))
    {w : JsonWriter} (hlevel : 0 ≤ w.level) (hutf8 : w.encoding = .ascii → v.All Value.IsUtf8) :
    w.RoundTrips v convert := by
  have hvalid : v.FullyValid := hv.mono fun v hv => by rintro rfl; exact hv
  rw [RoundTrips, Value.traverse_eq_run hvalid]
  rcases written hv w hlevel with ⟨-, text, hrun, s, p, j, rfl, hs, hp, hj, ha⟩ | ⟨hnot, -⟩
  · refine ⟨_, hrun, ha, fun is d hrest hconvert => ?_⟩
    subst hconvert
    exact JsonReader.parseStream_of_means hs spaces_nil hp (by rw [List.append_nil]; exact hrest) hj
  · exact absurd hutf8 hnot

/-- A value is written and read back, or it is refused because the writer can not decode it. -/
theorem roundTrips_or_throws {v : Value} {convert : Bool} (hv : v.All (Value.IsJson convert))
    {w : JsonWriter} (hlevel : 0 ≤ w.level) :
    ((w.encoding = .ascii → v.All Value.IsUtf8) ∧ w.RoundTrips v convert) ∨
      (¬ (w.encoding = .ascii → v.All Value.IsUtf8) ∧ Throws (Value.traverse v) w) := by
  have hvalid : v.FullyValid := hv.mono fun v hv => by rintro rfl; exact hv
  rcases written hv w hlevel with ⟨hutf8, -⟩ | ⟨hnot, hthrows⟩
  · exact .inl ⟨hutf8, roundTrips_of_isUtf8 hv hlevel hutf8⟩
  · refine .inr ⟨hnot, ?_⟩
    rw [Value.traverse_eq_run hvalid]
    exact hthrows

omit [Platform] in
/-- A map with an empty array and a byte that is not UTF-8, on more than one line. -/
theorem roundTrips_or_throws_pretty :
    letI := Platform.blank
    let w : JsonWriter := { encoding := .ascii, pretty := true }
    let v : Value := .map [(ascii "a", .array [] 0), (ascii "b", .string [0xff])] 2
    ((w.encoding = .ascii → v.All Value.IsUtf8) ∧ w.RoundTrips v true) ∨
      (¬ (w.encoding = .ascii → v.All Value.IsUtf8) ∧ Throws (Value.traverse v) w) := by
  let _ := Platform.blank
  have hempty : (Value.array [] 0).All (Value.IsJson true) :=
    Value.all_array.mpr ⟨⟨Nat.zero_le _, fun _ => rfl⟩, nofun⟩
  refine roundTrips_or_throws (Value.all_map.mpr ⟨?_, ?_⟩) le_rfl
  · exact (by decide : 2 ≤ Value.maxMapCapacity)
  · simp only [List.forall_mem_cons]
    exact ⟨hempty, trivial, nofun⟩

end JsonWriter

/-! ## Binaries -/

namespace JsonReader

open Reader

/-- The elements behind the first one are refused where a string should start, but none does. -/
theorem parseElements_throws {s : State} {m bs r : Bytes} (hm : Chars m bs)
    (hrest : s.is.rest = quoted m ++ 0x2c :: 0x22 :: r)
    (hr : ∀ ts bs r', Chars ts bs → r ≠ ts ++ 0x22 :: r') (depth fuel count : ℕ)
    (hdepth : (quoted m).length < depth) :
    ∃ f s', parseElements (parseValue depth) (fuel + 2) count s = .error f s' ∧ f.IsError ∧
      s'.events = s.events ++
        [.scalar (.string { bytes := bs, copy := copies s }), .arraySeparator] := by
  have hends : EndsNumber (0x2c :: 0x22 :: r) := endsNumber_separator spaces_nil (.inl rfl)
  obtain ⟨s₁, hfirst, hr₁, hstep₁⟩ := delivered_string hm s _ depth hrest hends hdepth
  obtain ⟨s₂, hr₂, hstep₂, hcomma⟩ := skip_getChar_eq spaces_nil (by decide) hr₁
  obtain ⟨hspaces, hr₃⟩ := skipWhiteSpace_eq spaces_nil (by rintro _ ⟨⟩; decide) hr₂
  obtain ⟨depth, rfl⟩ := Nat.exists_eq_succ_of_ne_zero (by omega : depth ≠ 0)
  set s₃ : State := { consumed s₂ ([] : Bytes).length with
    calls := s₂.calls ++ [⟨.arraySeparator, (consumed s₂ ([] : Bytes).length).is.tell⟩] } with hs₃
  have hstep : Step s s₃ [.scalar (.string { bytes := bs, copy := copies s }), .arraySeparator] :=
    (hstep₁.trans hstep₂).trans ⟨rfl, rfl, rfl, by simp [ReaderState.events, hs₃]⟩
  have hr₃ : s₃.is.rest = 0x22 :: r := hr₃
  have hvalue : parseValue (depth + 1) s₃ =
      (parseStringFor (fun str => .scalar (.string str)) : ReadM Unit) s₃ := by
    rw [parseValue, bind_of_ok (peek_apply s₃), peek_of_rest hr₃, if_neg (by decide),
      if_neg (by decide), if_neg (by decide), if_pos rfl]
    rfl
  rcases parseStringFor_cases (fun str => .scalar (.string str)) s₃ with
    ⟨ts, bs', r', hts, htext⟩ | ⟨f, s', hthrows, hf, hevents⟩
  · rw [hr₃] at htext
    have htail := (List.cons.inj htext).2.trans (List.append_assoc ts [0x22] r')
    exact absurd htail (hr ts bs' r' hts)
  · refine ⟨f, s', ?_, hf, hevents.trans hstep.events⟩
    rw [parseElements_succ, bind_of_ok hfirst, bind_of_ok hcomma, if_pos rfl, bind_of_ok hspaces,
      bind_of_ok (call_apply _ _), parseElements_succ]
    exact bind_of_error (hvalue.trans hthrows)

/-- An array whose second element starts like a string, but is none, is refused there. -/
theorem parse_throws_of_second {s : State} {m bs r : Bytes} (hm : Chars m bs)
    (hrest : s.is.rest = 0x5b :: (quoted m ++ 0x2c :: 0x22 :: r))
    (hr : ∀ ts bs r', Chars ts bs → r ≠ ts ++ 0x22 :: r') :
    ∃ f s', parse s = .error f s' ∧ f.IsError ∧ s'.events = s.events ++
      [.startArray none, .scalar (.string { bytes := bs, copy := copies s }), .arraySeparator] := by
  obtain ⟨hspaces, hr₀⟩ := skipWhiteSpace_eq spaces_nil (by rw [hrest]; rintro _ ⟨⟩; decide)
    (List.nil_append s.is.rest).symm
  have heof : (consumed s ([] : Bytes).length).is.eof = false := by
    rw [ReadStream.eof, hr₀, hrest]
    rfl
  have hrest₀ := hr₀.trans hrest
  obtain ⟨s₁, hr₁, hstep₁, hrun₁⟩ := parseArray_start (parseValue s.is.rest.length) spaces_nil
    (by rintro _ ⟨⟩; decide) hrest₀
  have hlength : s.is.rest.length = (quoted m).length + r.length + 3 := by
    rw [hrest, List.length_cons, List.length_append, List.length_cons, List.length_cons]
    omega
  obtain ⟨fuel, hfuel⟩ : ∃ fuel, s₁.is.rest.length + 1 = fuel + 2 := by
    refine ⟨s₁.is.rest.length - 1, ?_⟩
    rw [hr₁, List.length_cons]
    omega
  obtain ⟨f, s', helements, hf, hevents⟩ := parseElements_throws hm hr₁ hr s.is.rest.length fuel 0
    (by omega)
  refine ⟨f, s', ?_, hf, ?_⟩
  · rw [parse, bind_of_ok hspaces, bind_of_ok (eof_apply _), heof, if_pos (by decide),
      bind_of_ok (get_apply _), hr₀, parseValue_array _ hrest₀, hrun₁, bind_of_ok (peek_apply s₁),
      peek_of_rest hr₁, if_neg (by decide), bind_of_ok (get_apply s₁), hfuel]
    exact helements
  · rw [hevents, hstep₁.events, copies_of_step hstep₁]
    simp [ReaderState.events, consumed, copies]

end JsonReader

namespace JsonWriter

omit [Platform] in
/-- The end of a line is no hexadecimal digit. -/
theorem newline_notMem_hex {h : Bytes} {v w : ℕ} (hw : hexFrom v h = some w) : (0x0a : UInt8) ∉ h := by
  induction h generalizing v with
  | nil => exact List.not_mem_nil
  | cons c h ih =>
    rw [hexFrom] at hw
    obtain ⟨d, hd, hrest⟩ := Option.bind_eq_some_iff.mp hw
    refine fun hmem => (List.mem_cons.mp hmem).elim (fun h => ?_) (ih hrest)
    subst h
    cases hd

omit [Platform] in
/-- The characters of a string do not include the end of a line. -/
theorem newline_notMem_chars {ts bs : Bytes} (h : Chars ts bs) : (0x0a : UInt8) ∉ ts := by
  induction h with
  | nil => exact List.not_mem_nil
  | cons ht _ ih =>
    refine fun hmem => (List.mem_append.mp hmem).elim (fun hmem => ?_) ih
    cases ht with
    | unescaped hc _ _ =>
      rw [← List.mem_singleton.mp hmem] at hc
      exact absurd hc (by decide)
    | escape he =>
      have hescapes : ∀ e ∈ escapes, e.1 ≠ 0x0a := by simp [escapes]
      rcases List.mem_cons.mp hmem with hslash | hmem
      · cases hslash
      · exact hescapes _ he (List.mem_singleton.mp hmem).symm
    | unicode hcode =>
      have hdigits := (List.mem_cons.mp hmem).resolve_left (by decide)
      have hdigits := (List.mem_cons.mp hdigits).resolve_left (by decide)
      cases hcode with
      | single hh _ => exact newline_notMem_hex hh.2 hdigits
      | pair hh _ hl _ =>
        rcases List.mem_append.mp hdigits with hmem | hmem
        · exact newline_notMem_hex hh.2 hmem
        · have hmem := (List.mem_cons.mp hmem).resolve_left (by decide)
          have hmem := (List.mem_cons.mp hmem).resolve_left (by decide)
          exact newline_notMem_hex hl.2 hmem

omit [Platform] in
/-- A text of more than one line does not begin like a string. -/
theorem base64Encode_ne_chars {b : Bytes} (hlen : 48 < b.length) (ts bs r : Bytes)
    (hts : Chars ts bs) : Internal.base64Encode b ++ [0x22, 0x5d] ≠ ts ++ 0x22 :: r := by
  obtain ⟨hlines, hnewline⟩ := base64Lines_encode b
  have hmem := hnewline.mpr hlen
  have hnot := newline_notMem_chars hts
  intro h
  rcases List.append_eq_append_iff.mp h with ⟨us, rfl, -⟩ | ⟨us, htext, hrest⟩
  · exact hnot (List.mem_append_left us hmem)
  · cases us with
    | nil =>
      rw [htext, List.append_nil] at hmem
      exact hnot hmem
    | cons c us =>
      obtain ⟨rfl, -⟩ := List.cons.inj hrest
      have hquote := hlines 0x22 (by rw [htext]; exact List.mem_append_right ts List.mem_cons_self)
      rcases hquote with ⟨-, hne, -⟩ | hne
      · exact hne rfl
      · exact absurd hne (by decide)

/-- A binary is written as a text that is read back as it when it has from 1 to 48 bytes. For every
other binary the reader refuses the text: an empty one is taken for one that can not be decoded, and a
longer one has the end of a line in the text of a string. -/
theorem binary_read_iff (b : Bytes) (w : JsonWriter) :
    ∃ text, Value.traverse (.binary b) w = .ok () (w.wrote text) ∧
      ∀ (is : ReadStream) (d : Document), is.rest = text → d.convertExtensions = true →
        ∃ r, JsonReader.parseStream is d = .ok r ∧
          (r.hasParseError = false ↔ b ≠ [] ∧ b.length ≤ 48) ∧
          (r.hasParseError = false → r.handler.value = .binary b) := by
  refine ⟨binaryText b, binary_apply b w, fun is d hrest hconvert => ?_⟩
  have hrefused (hnot : ¬ (b ≠ [] ∧ b.length ≤ 48))
      (h : ∃ r, JsonReader.parseStream is d = .ok r ∧ r.hasParseError = true) :
      ∃ r, JsonReader.parseStream is d = .ok r ∧
        (r.hasParseError = false ↔ b ≠ [] ∧ b.length ≤ 48) ∧
        (r.hasParseError = false → r.handler.value = .binary b) := by
    obtain ⟨r, hr, herror⟩ := h
    rw [← Bool.not_eq_false] at herror
    exact ⟨r, hr, iff_of_false herror hnot, fun h => absurd h herror⟩
  by_cases hb : b = []
  · refine hrefused (fun h => h.1 hb) ?_
    subst hb
    have hdenotes := Denotes.array spaces_nil (.element (.string chars_base64String) spaces_nil
      spaces_nil (.lastElement (.string .nil) spaces_nil))
    have hdelivers := JsonReader.parse_delivers spaces_nil spaces_nil hdenotes
      (s := { JsonReader.new is with calls := [] }) (hrest.trans (by
        simp [binaryText, Internal.base64Encode, Internal.base64EncodeFrom]))
    obtain ⟨s', hparse, -, hstep⟩ := hdelivers
    generalize JsonReader.copies _ = copy at hstep
    obtain ⟨f, hbuild⟩ : ∃ f, EventTree.build d.convertExtensions (.array none
        [.leaf (.string { bytes := Document.base64String, copy }),
          .leaf (.string { bytes := [], copy })]) = .error f := by
      rw [hconvert]
      cases copy <;> exact ⟨_, rfl⟩
    exact Reader.parseStream_of_build_error hparse (by rw [hstep.events]; rfl) hbuild
  by_cases hlen : b.length ≤ 48
  · obtain ⟨s, p, j, htext, hs, hp, hj, -⟩ := valueText_binary (a := True) hb hlen
    rw [← hconvert] at hj
    obtain ⟨r, hr, hok, hcontents⟩ := JsonReader.parseStream_of_means hs spaces_nil hp
      (by rw [List.append_nil, ← htext]; exact hrest) hj
    exact ⟨r, hr, iff_of_true hok ⟨hb, hlen⟩, fun _ => Value.eq_of_contents hcontents rfl rfl⟩
  · refine hrefused (fun h => hlen h.2) ?_
    have hchars := base64Encode_ne_chars (not_le.mp hlen)
    obtain ⟨f, s', hparse, hf, hevents⟩ := JsonReader.parse_throws_of_second
      (s := { JsonReader.new is with calls := [] }) chars_base64String (hrest.trans (by
        simp [binaryText, quoted])) hchars
    generalize JsonReader.copies _ = copy at hevents
    exact Reader.parseStream_of_prefix (t := .array none
      [.leaf (.string { bytes := Document.base64String, copy }), .leaf .null]) d hparse hf
      (by rw [hevents]; exact ⟨_, rfl⟩)

end JsonWriter

end AnyRpc
