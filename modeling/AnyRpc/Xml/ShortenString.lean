import AnyRpc.Xml.Reference
import AnyRpc.Xml.Shorten

/-! # The strings of a document and its short form

Both runs put the same bytes. Their texts are the same up to the empty values in the names of
references, and these stand behind the part of a name that the reader compares. -/

namespace AnyRpc.XmlReader

open Library Reader XmlTag

/-! ## The names of references -/

/-- The names of a reference in both texts. -/
inductive NameShort : Bytes → Bytes → Prop
  | same (name : Bytes) : NameShort name name
  | value (p : Bytes) {q q' : Bytes} : 14 ≤ q.length → q'.length ≤ q.length →
    NameShort (p ++ 0x3c :: q) (p ++ 0x3c :: q')

namespace NameShort

variable {name name' : Bytes}

/-- The name of the second text is no longer. -/
theorem length_le (h : NameShort name name') : name'.length ≤ name.length := by
  cases h with
  | same => exact le_rfl
  | value p _ hle =>
    rw [List.length_append, List.length_append, List.length_cons, List.length_cons]
    exact Nat.add_le_add_left (Nat.succ_le_succ hle) _

/-- A byte of both texts. -/
theorem concat (h : NameShort name name') (c : UInt8) : NameShort (name ++ [c]) (name' ++ [c]) := by
  cases h with
  | same => exact .same _
  | value p hlong hle =>
    rw [List.append_assoc, List.append_assoc, List.cons_append, List.cons_append]
    refine .value p ?_ ?_
    · rw [List.length_append]
      exact Nat.le_add_right_of_le hlong
    · rw [List.length_append, List.length_append]
      exact Nat.add_le_add_right hle _

/-- An empty value. -/
theorem append_value (h : NameShort name name') :
    NameShort (name ++ ascii "<value></value>") (name' ++ ascii "<value/>") := by
  have hlength : (ascii "<value></value>").length = 15 := rfl
  have hlength' : (ascii "<value/>").length = 8 := rfl
  cases h with
  | same => exact .value name (by decide) (by decide)
  | value p hlong hle =>
    rw [List.append_assoc, List.append_assoc, List.cons_append, List.cons_append]
    refine .value p ?_ ?_
    · rw [List.length_append]
      exact Nat.le_add_right_of_le hlong
    · rw [List.length_append, List.length_append, hlength, hlength']
      omega

end NameShort

/-- A name that has no `<` is not compared any further. -/
theorem strncmpEq_append_lt (p q q' : Bytes) {name : Bytes} (hname : (0x3c : UInt8) ∉ name) :
    Document.strncmpEq (p ++ 0x3c :: q) name = Document.strncmpEq (p ++ 0x3c :: q') name := by
  induction p generalizing name with
  | nil =>
    cases name with
    | nil => rfl
    | cons d name =>
      have hd : (0x3c : UInt8) ≠ d := fun h => hname (List.mem_cons.mpr (.inl h))
      simp [Document.strncmpEq, hd]
  | cons c p ih =>
    cases name with
    | nil => rfl
    | cons d name =>
      have hrest := ih fun h => hname (List.mem_cons_of_mem d h)
      simp [Document.strncmpEq, hrest]

/-- A reference by name. -/
theorem decodeReference_of_ne {c : UInt8} (str : Bytes) (hc : c ≠ 0x23) :
    decodeReference (c :: str) =
      match xmlEntity.find? fun e => Document.strncmpEq (c :: str) e.2 with
      | some e => .ok [e.1]
      | none => .error escapeInvalid := by
  unfold decodeReference
  split
  · next h => cases h
  · next h => exact absurd (List.cons.inj h).1 hc
  · rfl

/-- A number has at most eight characters. -/
theorem decodeReference_of_long {str : Bytes} (hlong : 8 ≤ str.length) :
    decodeReference (0x23 :: str) = .error unicodeEscapeInvalid := by
  have hhex : parseHexEscapeCode str.tail = .error unicodeEscapeInvalid := by
    rw [parseHexEscapeCode, if_pos]
    rw [List.length_tail]
    omega
  have hdecimal : parseDecimalEscapeCode str = .error unicodeEscapeInvalid := by
    rw [parseDecimalEscapeCode, if_pos]
    omega
  simp only [decodeReference, hhex, hdecimal]
  split_ifs <;> rfl

/-- A reference that the first run decodes is decoded by the second one. -/
theorem NameShort.decodeReference {name name' str : Bytes} (h : NameShort name name')
    (hstr : XmlReader.decodeReference name = .ok str) :
    XmlReader.decodeReference name' = .ok str := by
  cases h with
  | same => exact hstr
  | @value p q q' hlong _ =>
    have hfind : (xmlEntity.find? fun e => Document.strncmpEq (p ++ 0x3c :: q) e.2) =
        xmlEntity.find? fun e => Document.strncmpEq (p ++ 0x3c :: q') e.2 := by
      have hnames : ∀ e ∈ xmlEntity, (0x3c : UInt8) ∉ e.2 := by decide
      rw [← List.head?_filter, ← List.head?_filter]
      exact congrArg List.head? (List.filter_congr fun e he => strncmpEq_append_lt p q q' (hnames e he))
    cases p with
    | nil =>
      rw [List.nil_append] at hstr hfind
      rw [List.nil_append, decodeReference_of_ne _ (by decide)]
      rw [decodeReference_of_ne _ (by decide), hfind] at hstr
      exact hstr
    | cons c p =>
      rw [List.cons_append] at hstr hfind
      rw [List.cons_append]
      by_cases hc : c = 0x23
      · subst hc
        have hlength : 8 ≤ (p ++ 0x3c :: q).length := by
          rw [List.length_append, List.length_cons]
          omega
        rw [decodeReference_of_long hlength] at hstr
        cases hstr
      · rw [decodeReference_of_ne _ hc]
        rw [decodeReference_of_ne _ hc, hfind] at hstr
        exact hstr

/-- A reference is no shorter than what it puts. -/
theorem decodeReference_length_le {name str : Bytes} (h : decodeReference name = .ok str) :
    str.length ≤ name.length + 2 := by
  cases name with
  | nil => cases h
  | cons c name =>
    by_cases hc : c = 0x23
    · subst hc
      cases name with
      | nil =>
        have hnull : decodeReference [0x23] = .ok [0] := by decide +kernel
        cases hnull.symm.trans h
        decide
      | cons d name =>
        have hmap {x : Except Fault ℕ} (hx : x.map encodeUtf8 = .ok str) : str.length ≤ 4 := by
          cases x with
          | error f => cases hx
          | ok v =>
            cases hx
            exact encodeUtf8_length_le v
        have hfour : str.length ≤ 4 := by
          simp only [decodeReference] at h
          split_ifs at h
          · exact hmap h
          · exact hmap h
        rw [List.length_cons, List.length_cons]
        omega
    · rw [decodeReference_of_ne _ hc] at h
      cases hfind : xmlEntity.find? fun e => Document.strncmpEq (c :: name) e.2 with
      | none =>
        rw [hfind] at h
        cases h
      | some e =>
        rw [hfind] at h
        cases h
        exact Nat.succ_le_succ (Nat.zero_le _)

/-- The bytes that are read of a reference. -/
theorem readEncoded_eq_ok {t encoded r : Bytes} {x : Option Bytes}
    (h : readEncoded encoded t = .ok x r) :
    ∃ a, t = a ++ r ∧ (x = none → r = []) ∧
      ∀ name, x = some name → name.length + 1 = encoded.length + a.length := by
  induction t generalizing encoded with
  | nil =>
    cases h
    refine ⟨[], rfl, fun _ => rfl, ?_⟩
    intro name hname
    cases hname
  | cons c t ih =>
    rw [readEncoded] at h
    split_ifs at h
    · cases h
      refine ⟨[c], rfl, ?_, ?_⟩
      · intro hx
        cases hx
      · intro name hname
        cases hname
        rfl
    · obtain ⟨a, rfl, hnone, hsome⟩ := ih h
      refine ⟨c :: a, rfl, hnone, fun name hname => ?_⟩
      have hlength := hsome name hname
      rw [List.length_append, List.length_singleton] at hlength
      rw [List.length_cons]
      omega

/-- Characters of a name, where they are not too many. -/
theorem readEncoded_append {a encoded : Bytes} (t : Bytes) (ha : (0x3b : UInt8) ∉ a)
    (hlength : encoded.length + a.length < maxLength) :
    readEncoded encoded (a ++ t) = readEncoded (encoded ++ a) t := by
  induction a generalizing encoded with
  | nil => rw [List.nil_append, List.append_nil]
  | cons c a ih =>
    rw [List.mem_cons, not_or] at ha
    rw [List.length_cons] at hlength
    rw [List.cons_append, readEncoded, if_neg (Ne.symm ha.1), if_neg (by omega), ih ha.2,
      List.append_assoc, List.singleton_append]
    rw [List.length_append, List.length_singleton]
    omega

/-- They are not, where the name is read. -/
theorem length_lt_of_readEncoded {a encoded t r : Bytes} {x : Option Bytes} (hne : a ≠ [])
    (ha : (0x3b : UInt8) ∉ a) (h : readEncoded encoded (a ++ t) = .ok x r) :
    encoded.length + a.length < maxLength := by
  induction a generalizing encoded with
  | nil => exact absurd rfl hne
  | cons c a ih =>
    rw [List.mem_cons, not_or] at ha
    rw [List.cons_append, readEncoded, if_neg (Ne.symm ha.1)] at h
    by_cases hlong : maxLength ≤ encoded.length + 1
    · rw [if_pos hlong] at h
      cases h
    · rw [if_neg hlong] at h
      rw [List.length_cons]
      by_cases hnil : a = []
      · subst hnil
        rw [List.length_nil]
        omega
      · have hlength := ih hnil ha.2 h
        rw [List.length_append, List.length_singleton] at hlength
        omega

/-- Both texts of a reference are read. -/
theorem readEncoded_shortened {root : XmlTagName} {k : Context} {l : Lex} {ls : List Lex}
    {t t' encoded encoded' r : Bytes} {x : Option Bytes} (h : Shortened root l t t' ls)
    (hl : l = .reference k) (hname : NameShort encoded encoded')
    (hrun : readEncoded encoded t = .ok x r) :
    ∃ ls₁ ls₂ x' r', ls = ls₁ ++ ls₂ ∧ (∀ l ∈ ls₁, l.Harmless) ∧
      readEncoded encoded' t' = .ok x' r' ∧ Shortened root (.text k) r r' ls₂ ∧
      Option.Rel NameShort x x' := by
  induction h generalizing encoded encoded' with
  | nil =>
    cases hrun
    exact ⟨[], [], none, [], rfl, List.forall_mem_nil _, rfl, .nil _, .none⟩
  | @copy l c t t' ls h ih =>
    subst hl
    rw [Lex.step] at h ih
    rw [readEncoded] at hrun
    rw [readEncoded]
    by_cases hc : c = 0x3b
    · rw [if_pos hc] at h hrun
      cases hrun
      rw [if_pos hc]
      exact ⟨[], ls, some encoded', t', rfl, List.forall_mem_nil _, rfl, h, .some hname⟩
    · rw [if_neg hc] at h ih hrun
      by_cases hlong : maxLength ≤ encoded.length + 1
      · rw [if_pos hlong] at hrun
        cases hrun
      · rw [if_neg hlong] at hrun
        have hle := hname.length_le
        rw [if_neg hc, if_neg (by omega)]
        exact ih rfl (hname.concat c) hrun
  | @value l t t' ls h ih =>
    subst hl
    -- Neither form ends the name.
    have hvalue : (0x3b : UInt8) ∉ ascii "<value></value>" := by decide
    have hempty : (0x3b : UInt8) ∉ ascii "<value/>" := by decide
    have hlength := length_lt_of_readEncoded (by decide) hvalue hrun
    have hlength' : encoded'.length + (ascii "<value/>").length < maxLength :=
      (Nat.add_le_add hname.length_le (by decide)).trans_lt hlength
    rw [readEncoded_append t hvalue hlength] at hrun
    obtain ⟨ls₁, ls₂, x', r', rfl, hls₁, hrun', hr, hx⟩ :=
      ih (foldl_value_reference root k) hname.append_value hrun
    refine ⟨.reference k :: ls₁, ls₂, x', r', rfl, ?_, ?_, hr, hx⟩
    · exact List.forall_mem_cons.mpr ⟨trivial, hls₁⟩
    · rw [readEncoded_append t' hempty hlength', hrun']

/-! ## Taking bytes -/

/-- Both runs have put the same bytes, and the second one has room for `m` more of them. -/
def SameString (inPlace : Bool) (m : ℕ) (s s' : ReaderState XmlReader) : Prop :=
  ∃ out, Holds inPlace 0 out s ∧ Holds inPlace m out s'

section

variable {root : XmlTagName} {P : Prop} {l : Lex} {k : Context} {inPlace skip : Bool} {m n : ℕ}
  {s s' : ReaderState XmlReader}

/-- The next byte is the same. -/
theorem Linked.head?_eq (h : Linked root P l false n s s') :
    s'.is.rest.head? = s.is.rest.head? := by
  obtain ⟨ls, hls, -⟩ := h.texts
  exact hls.head?_eq

/-- Both runs see the same byte. -/
theorem Linked.peek_eq (h : Linked root P l false n s s') : s'.is.peek = s.is.peek := by
  rw [ReadStream.peek, ReadStream.peek, List.headD_eq_head?_getD, List.headD_eq_head?_getD,
    h.head?_eq]

/-- Both texts end at the same place. -/
theorem Linked.eof_eq (h : Linked root P l false n s s') : s'.is.eof = s.is.eof := by
  have hhead := h.head?_eq
  rw [ReadStream.eof, ReadStream.eof]
  cases hs : s.is.rest with
  | nil =>
    rw [hs, List.head?_nil, List.head?_eq_none_iff] at hhead
    rw [hhead]
  | cons c t =>
    rw [hs, List.head?_cons, List.head?_eq_some_iff] at hhead
    obtain ⟨t', hs'⟩ := hhead
    rw [hs']
    rfl

/-- Both runs take the texts up to where they are described again. -/
theorem Linked.advance {l' : Lex} {ls : List Lex} {a a' r r' : Bytes}
    (h : Linked root P l false n s s') (ha : s.is.rest = a ++ r) (ha' : s'.is.rest = a' ++ r')
    (hleft : r'.length < m) (hr : Shortened root l' r r' ls)
    (hagree : Agree P ls s.events s'.events) :
    Linked root P l' false m { s with is := s.is.advance a.length }
      { s' with is := s'.is.advance a'.length } := by
  have hrest := s.is.rest_advance_of_append ha
  have hrest' := s'.is.rest_advance_of_append ha'
  exact { skip_left := h.skip_left, skip_right := h.skip_right, inSitu := h.inSitu, copy := h.copy
          left := by rw [hrest']; exact hleft
          texts := ⟨ls, by rw [hrest, hrest']; exact hr, hagree⟩ }

/-- Both runs take a byte that does not begin a tag. -/
theorem Linked.getChar {c : UInt8} {t : Bytes} (h : Linked root P l false (n + 1) s s')
    (hs : s.is.rest = c :: t) (hc : c ≠ 0x3c) :
    ∃ t', s'.is.rest = c :: t' ∧ Linked root P (l.step root c) false n
      { s with is := s.is.advance 1 } { s' with is := s'.is.advance 1 } := by
  obtain ⟨ls, hls, hagree⟩ := h.texts
  have hleft := h.left
  have hls' : Shortened root l (c :: t) s'.is.rest ls := hs ▸ hls
  obtain ⟨t', ht', hstep⟩ := hls'.of_cons hc
  rw [ht', List.length_cons] at hleft
  have ha : s.is.rest = [c] ++ t := hs
  have ha' : s'.is.rest = [c] ++ t' := ht'
  exact ⟨t', ht', h.advance ha ha' (Nat.lt_of_succ_lt_succ hleft) hstep hagree⟩

/-- A computation over the text takes what it does not leave. -/
theorem onText_of_append {α : Type} {p : Exec Bytes α} {x : α} {a r : Bytes}
    (ha : s.is.rest = a ++ r) (hp : p s.is.rest = .ok x r) :
    onText p s = .ok x { s with is := s.is.advance a.length } := by
  rw [onText_of_ok hp]
  have htaken : s.is.rest.length - r.length = a.length := by
    rw [ha, List.length_append, Nat.add_sub_cancel]
  rw [htaken]

/-- There is room for fewer bytes. -/
theorem SameString.mono (h : SameString inPlace n s s') (hmn : m ≤ n) :
    SameString inPlace m s s' := by
  obtain ⟨out, hout, hout'⟩ := h
  exact ⟨out, hout, hout'.mono hmn⟩

/-- Bytes that are taken make room. -/
theorem SameString.advance {a a' r r' : Bytes} (h : SameString inPlace m s s')
    (ha : s.is.rest = a ++ r) (ha' : s'.is.rest = a' ++ r') :
    SameString inPlace (m + a'.length) { s with is := s.is.advance a.length }
      { s' with is := s'.is.advance a'.length } := by
  obtain ⟨out, hout, hout'⟩ := h
  exact ⟨out, (hout.advance ha).mono (Nat.zero_le _), hout'.advance ha'⟩

/-- A byte that is taken makes room for one. -/
theorem SameString.getChar {c : UInt8} {t t' : Bytes} (h : SameString inPlace m s s')
    (hs : s.is.rest = c :: t) (hs' : s'.is.rest = c :: t') :
    SameString inPlace (m + 1) { s with is := s.is.advance 1 } { s' with is := s'.is.advance 1 } :=
  have ha : s.is.rest = [c] ++ t := hs
  have ha' : s'.is.rest = [c] ++ t' := hs'
  h.advance ha ha'

/-! ## Putting bytes -/

/-- The same byte is put. -/
theorem mirrors_osPut (h : Linked root P l false n s s') (ho : SameString inPlace (m + 1) s s')
    (c : UInt8) :
    Mirrors (¬ P) (fun _ s _ s' => Linked root P l false n s s' ∧ SameString inPlace m s s')
      (osPut inPlace c s) (osPut inPlace c s') := by
  obtain ⟨out, hout, hout'⟩ := ho
  cases inPlace with
  | true =>
    obtain ⟨r, hregion, hwritten, -⟩ := hout
    obtain ⟨r', hregion', hwritten', hroom⟩ := hout'
    obtain ⟨d', gap', hgap'⟩ := List.exists_cons_of_length_pos ((Nat.succ_pos m).trans_le hroom)
    rw [hgap', List.length_cons] at hroom
    cases hgap : r.gap with
    | nil =>
      simp only [osPut, if_true, putChar, onStream, ReadStream.put, hregion, hgap]
      exact mirrors_error _ _ _
    | cons d gap =>
      simp only [osPut, if_true, putChar, onStream, ReadStream.put, hregion, hregion', hgap, hgap']
      refine mirrors_ok ⟨⟨h.skip_left, h.skip_right, h.inSitu, h.copy, h.left, h.texts⟩, ?_⟩
      exact ⟨out ++ [c], ⟨_, rfl, congrArg (· ++ [c]) hwritten, Nat.zero_le _⟩, _, rfl,
        congrArg (· ++ [c]) hwritten', Nat.le_of_succ_le_succ hroom⟩
  | false =>
    refine mirrors_ok ⟨⟨h.skip_left, h.skip_right, h.inSitu, h.copy, h.left, h.texts⟩, ?_⟩
    exact ⟨out ++ [c], congrArg (· ++ [c]) hout, congrArg (· ++ [c]) hout'⟩

/-- The same bytes are put, where there is room for all of them. -/
theorem mirrors_osPutAll (h : Linked root P l false n s s') (str : Bytes)
    (ho : SameString inPlace (m + str.length) s s') :
    Mirrors (¬ P) (fun _ s _ s' => Linked root P l false n s s' ∧ SameString inPlace m s s')
      (osPutAll inPlace str s) (osPutAll inPlace str s') := by
  induction str generalizing s s' with
  | nil => exact mirrors_ok ⟨h, ho⟩
  | cons c str ih =>
    refine (mirrors_osPut h ho c).bind ?_
    rintro _ s₁ _ s₁' ⟨h₁, ho₁⟩
    exact ih h₁ ho₁

/-! ## Strings -/

/-- Both runs read a reference, and there is room for what it puts. -/
theorem mirrors_readEncoded (h : Linked root P (.reference k) false n s s')
    (ho : SameString inPlace 1 s s') :
    Mirrors (¬ P) (fun x s x' s' => Linked root P (.text k) false n s s' ∧
        Option.Rel NameShort x x' ∧ (x = none → s.is.rest = []) ∧ SameString inPlace 1 s s' ∧
        ∀ name ∈ x', SameString inPlace (name.length + 2) s s')
      (onText (readEncoded []) s) (onText (readEncoded []) s') := by
  obtain ⟨ls, hls, hagree⟩ := h.texts
  cases hrun : readEncoded [] s.is.rest with
  | error f r =>
    rw [onText_of_error hrun]
    exact mirrors_error _ _ _
  | ok x r =>
    obtain ⟨ls₁, ls₂, x', r', rfl, hharmless, hrun', hr, hx⟩ :=
      readEncoded_shortened hls rfl (.same []) hrun
    rw [unread, if_neg Bool.false_ne_true] at hrun'
    obtain ⟨a, ha, hnone, -⟩ := readEncoded_eq_ok hrun
    obtain ⟨a', ha', -, hlength⟩ := readEncoded_eq_ok hrun'
    have hleft := h.left
    rw [ha', List.length_append] at hleft
    have hroom := ho.advance ha ha'
    rw [onText_of_append ha hrun, onText_of_append ha' hrun']
    refine mirrors_ok ⟨?_, hx, fun hx => ?_, hroom.mono (Nat.le_add_right 1 _), ?_⟩
    · exact h.advance ha ha' (by omega) hr (hagree.drop hharmless)
    · exact (s.is.rest_advance_of_append ha).trans (hnone hx)
    · intro name hname
      have hname' := hlength name hname
      rw [List.length_nil] at hname'
      exact hroom.mono (by omega)

/-- Behind a string there is a tag, or the end of the text where a reference lacks its `;`. There is
always room for the terminator. -/
def StringEnds (inPlace : Bool) (s s' : ReaderState XmlReader) : Prop :=
  s.is.rest.head? = some 0x3c ∧ SameString inPlace 0 s s' ∨
    s.is.rest = [] ∧ SameString inPlace 1 s s'

/-- A byte behind a string begins a tag. -/
theorem StringEnds.head? (h : StringEnds inPlace s s') : ∀ c ∈ s.is.rest.head?, c = 0x3c := by
  obtain ⟨hhead, -⟩ | ⟨hnil, -⟩ := h
  · intro c hc
    rw [hhead] at hc
    exact (Option.some.inj hc).symm
  · rw [hnil]
    intro c hc
    cases hc

/-- Both runs read the same string up to a tag. -/
theorem mirrors_parseStringToStream (hk : k.HasReferences)
    (h : Linked root P (.text k) false n s s') (ho : SameString inPlace 0 s s') (fuel : ℕ)
    (w : Bool) :
    Mirrors (¬ P) (fun x s x' s' => x' = x ∧ Linked root P (.text k) false n s s' ∧
        StringEnds inPlace s s')
      (parseStringToStream inPlace fuel w s) (parseStringToStream inPlace n w s') := by
  -- The induction is on what the second run has left, which is its fuel.
  induction n generalizing s s' fuel w with
  | zero => exact absurd h.left (Nat.not_lt_zero _)
  | succ n ih =>
    cases fuel with
    | zero => exact mirrors_error _ _ _
    | succ fuel =>
      cases hs : s.is.rest with
      | nil =>
        have hnil : ∃ f, parseStringToStream inPlace (fuel + 1) w s = .error f s :=
          parseStringToStream_of_nil hs
        obtain ⟨f, hrun⟩ := hnil
        rw [hrun]
        exact mirrors_error _ _ _
      | cons c t =>
        by_cases hlt : c = 0x3c
        · subst hlt
          have hhead := h.head?_eq
          rw [hs, List.head?_cons, List.head?_eq_some_iff] at hhead
          obtain ⟨t', hs'⟩ := hhead
          rw [parseStringToStream_of_lt hs, parseStringToStream_of_lt hs']
          exact mirrors_ok ⟨rfl, h, .inl ⟨by rw [hs, List.head?_cons], ho⟩⟩
        · obtain ⟨t', hs', hstep⟩ := h.getChar hs hlt
          have hout := ho.getChar hs hs'
          by_cases hamp : c = 0x26
          · subst hamp
            rw [parseStringToStream_of_amp hs, parseStringToStream_of_amp hs']
            rw [Lex.step, if_neg hlt, if_pos ⟨rfl, hk⟩] at hstep
            refine (mirrors_readEncoded hstep hout).bind ?_
            rintro x s₁ x' s₁' ⟨h₁, hx, hnone, hend, hroom⟩
            cases hx with
            -- Without its `;` the reference goes on to the end of both texts.
            | none => exact mirrors_ok ⟨rfl, h₁.mono (Nat.le_succ n), .inr ⟨hnone rfl, hend⟩⟩
            | @some name name' hname =>
              cases hdecode : decodeReference name with
              | error f =>
                simp only [hdecode]
                exact mirrors_error _ _ _
              | ok str =>
                -- Other names may be the same to the reader, and they are no shorter than what they put.
                have hdecode' := hname.decodeReference hdecode
                have hlength := decodeReference_length_le hdecode'
                simp only [hdecode, hdecode']
                refine (mirrors_osPutAll h₁ str ((hroom name' rfl).mono (m := 0 + str.length)
                  (by omega))).bind ?_
                rintro _ s₂ _ s₂' ⟨h₂, ho₂⟩
                refine (ih h₂ ho₂ _ _).mono ?_
                rintro x s₃ x' s₃' ⟨hx, h₃, hends⟩
                exact ⟨hx, h₃.mono (Nat.le_succ n), hends⟩
          · rw [parseStringToStream_of_cons hs hlt hamp, parseStringToStream_of_cons hs' hlt hamp]
            rw [Lex.step, if_neg hlt, if_neg fun h => hamp h.1] at hstep
            refine (mirrors_osPut hstep hout c).bind ?_
            rintro _ s₁ _ s₁' ⟨h₁, ho₁⟩
            refine (ih h₁ ho₁ _ _).mono ?_
            rintro x s₂ x' s₂' ⟨hx, h₂, hends⟩
            exact ⟨hx, h₂.mono (Nat.le_succ n), hends⟩

/-- Both runs read the same string into a stream of their own. -/
theorem mirrors_parseStringToLocal (hk : k.HasReferences)
    (h : Linked root P (.text k) false n s s') :
    Mirrors (¬ P) (fun x s x' s' => x' = x ∧ Linked root P (.text k) false n s s' ∧
        ∀ c ∈ s.is.rest.head?, c = 0x3c)
      (parseStringToLocal s) (parseStringToLocal s') := by
  let s₁ : ReaderState XmlReader := { s with sub := { s.sub with wsstream := [] } }
  let s₁' : ReaderState XmlReader := { s' with sub := { s'.sub with wsstream := [] } }
  have h₁ : Linked root P (.text k) false (s'.is.rest.length + 1) s₁ s₁' :=
    ⟨h.skip_left, h.skip_right, h.inSitu, h.copy, Nat.lt_succ_self _, h.texts⟩
  have ho : SameString false 0 s₁ s₁' := ⟨[], rfl, rfl⟩
  show Mirrors _ _
    ((do
      let onlyWhiteSpace ← parseStringToStream false (s.is.rest.length + 1) true
      return ((← get).sub.wsstream, onlyWhiteSpace) : ReadM (Bytes × Bool)) s₁)
    ((do
      let onlyWhiteSpace ← parseStringToStream false (s'.is.rest.length + 1) true
      return ((← get).sub.wsstream, onlyWhiteSpace) : ReadM (Bytes × Bool)) s₁')
  refine (mirrors_parseStringToStream hk h₁ ho _ _).bind ?_
  rintro x s₂ x' s₂' ⟨rfl, h₂, hends⟩
  have hws : s₂'.sub.wsstream = s₂.sub.wsstream := by
    obtain ⟨-, out, hout, hout'⟩ | ⟨-, out, hout, hout'⟩ := hends
    · exact hout'.trans hout.symm
    · exact hout'.trans hout.symm
  exact mirrors_ok ⟨Prod.ext hws rfl, h₂.mono h.left, hends.head?⟩

/-- Both runs take the `<` behind a string. -/
theorem Linked.takeLt (h : Linked root P (.text k) false n s s')
    (hhead : ∀ c ∈ s.is.rest.head?, c = 0x3c) :
    ∃ ks, Shortened root (.text k) (0x3c :: s.is.rest.drop 1) (0x3c :: s'.is.rest.drop 1) ks ∧
      Agree P ks s.events s'.events := by
  obtain ⟨ks, hks, hagree⟩ := h.texts
  refine ⟨ks, ?_, hagree⟩
  have heq := h.head?_eq
  cases hs : s.is.rest with
  | nil =>
    rw [hs] at hks
    obtain ⟨hs', rfl⟩ := hks.of_nil
    rw [show s'.is.rest = [] from hs']
    exact .copy (.nil _)
  | cons c t =>
    cases hs' : s'.is.rest with
    | nil =>
      rw [hs, hs'] at heq
      cases heq
    | cons d t' =>
      rw [hs, hs'] at heq
      cases heq
      obtain rfl : c = 0x3c := hhead c (by rw [hs]; rfl)
      rw [hs, hs'] at hks
      exact hks

/-- Its place is the one of the terminator. -/
theorem StringEnds.getChar (hends : StringEnds inPlace s s') (h : Linked root P l false n s s') :
    SameString inPlace 1 { s with is := s.is.advance 1 } { s' with is := s'.is.advance 1 } := by
  obtain ⟨hhead, ho⟩ | ⟨-, out, hout, hout'⟩ := hends
  · have hhead' := h.head?_eq.trans hhead
    obtain ⟨t, hs⟩ := List.head?_eq_some_iff.mp hhead
    obtain ⟨t', hs'⟩ := List.head?_eq_some_iff.mp hhead'
    exact ho.getChar hs hs'
  · exact ⟨out, hout.get, hout'.get⟩

/-- What `ParseString` does behind the string, where it is decoded in place. -/
def terminate (onlyWhiteSpace : Bool) : ReadM (StrArg × Bool) := do
  let _ ← getChar
  putChar 0
  let is := (← get).is
  let length := (← putEnd) - 1
  modify fun s => { s with sub := { s.sub with tagSkipFirstChar := true } }
  return (is.strArg length, onlyWhiteSpace)

/-- The terminator stands behind the string, so nothing else of the buffer shows. -/
theorem terminate_eq {r : Region} {d : UInt8} {gap : Bytes} (hr : (s.is.advance 1).region = some r)
    (hgap : r.gap = d :: gap) (w : Bool) :
    terminate w s = .ok ({ bytes := r.written, copy := s.is.copy }, w)
      { s with is := { s.is.advance 1 with region := none }
               sub := { s.sub with tagSkipFirstChar := true } } := by
  simp [terminate, putChar, onStream, ReadStream.put, hr, hgap, putEnd, ReadStream.putEnd,
    ReadStream.strArg, ReadStream.memory]

/-- Both runs terminate the same string. -/
theorem mirrors_terminate (h : Linked root P (.text k) false n s s') (hends : StringEnds true s s')
    (w : Bool) :
    Mirrors (¬ P) (fun x s x' s' => x' = x ∧ Linked root P (.text k) true n s s')
      (terminate w s) (terminate w s') := by
  have htexts := h.takeLt hends.head?
  have hleft : (s'.is.advance 1).rest.length < n := by
    rw [ReadStream.rest_advance, List.length_drop]
    exact (Nat.sub_le _ _).trans_lt h.left
  obtain ⟨out, ⟨r, hregion, hout, -⟩, r', hregion', hout', hroom⟩ := hends.getChar h
  have hadvance : (s.is.advance 1).region = some r := hregion
  cases hgap : r.gap with
  | nil =>
    have hrun : ∃ f t, terminate w s = .error f t := by
      simp [terminate, putChar, onStream, ReadStream.put, hadvance, hgap]
    obtain ⟨f, t, hrun⟩ := hrun
    rw [hrun]
    exact mirrors_error _ _ _
  | cons d gap =>
    obtain ⟨d', gap', hgap'⟩ := List.exists_cons_of_length_pos (Nat.one_pos.trans_le hroom)
    rw [terminate_eq hregion hgap, terminate_eq hregion' hgap', h.copy, hout, hout']
    exact mirrors_ok ⟨rfl, rfl, rfl, h.inSitu, h.copy, hleft, htexts⟩

/-- A string that is decoded in place. -/
theorem parseStringText_of_inSitu (hinSitu : s.is.inSitu = true) :
    parseStringText s = (do
      let w ← parseStringToStream true (s.is.rest.length + 1) true
      terminate w) { s with is := s.is.putBegin } := by
  simp [parseStringText, terminate, hinSitu, putBegin, ReadStream.putBegin]

/-- A string that is decoded into a stream of its own. -/
theorem parseStringText_of_not_inSitu (hinSitu : s.is.inSitu = false) :
    parseStringText s = (do
      let (str, w) ← parseStringToLocal
      let _ ← getChar
      modify fun s => { s with sub := { s.sub with tagSkipFirstChar := true } }
      return ({ bytes := str, copy := (← get).is.copy }, w) : ReadM (StrArg × Bool)) s := by
  simp [parseStringText, hinSitu]

/-- An empty string of the local stream. -/
theorem parseStringToLocal_empty {t : Bytes} (hrest : s.is.rest = 0x3c :: t) :
    parseStringToLocal s = .ok ([], true) { s with sub := { s.sub with wsstream := [] } } := by
  let s₀ : ReaderState XmlReader := { s with sub := { s.sub with wsstream := [] } }
  have hs₀ : s₀.is.rest = 0x3c :: t := hrest
  show ((do
    let onlyWhiteSpace ← parseStringToStream false (s.is.rest.length + 1) true
    return ((← get).sub.wsstream, onlyWhiteSpace) : ReadM (Bytes × Bool)) s₀) = _
  rw [bind_of_ok (parseStringToStream_of_lt hs₀)]
  rfl

/-- An empty string. -/
theorem parseStringText_empty {t : Bytes} (hrest : s.is.rest = 0x3c :: t) :
    ∃ s₁, parseStringText s = .ok ({ bytes := [], copy := s.is.copy }, true) s₁ ∧
      s₁.is.rest = t ∧ s₁.sub.tagSkipFirstChar = true ∧ s₁.is.inSitu = s.is.inSitu ∧
      s₁.is.copy = s.is.copy ∧ s₁.calls = s.calls := by
  have hadvance : (s.is.advance 1).rest = t := by rw [ReadStream.rest_advance, hrest]; rfl
  cases hinSitu : s.is.inSitu with
  | true =>
    let s₀ : ReaderState XmlReader := { s with is := s.is.putBegin }
    have hs₀ : s₀.is.rest = 0x3c :: t := hrest
    have hregion : (s₀.is.advance 1).region = some { gap := [0x3c] } := by
      simp [s₀, ReadStream.putBegin, ReadStream.advance, hrest]
    refine ⟨{ s₀ with is := { s₀.is.advance 1 with region := none }
                      sub := { s₀.sub with tagSkipFirstChar := true } }, ?_, hadvance, rfl, hinSitu,
      rfl, rfl⟩
    rw [parseStringText_of_inSitu hinSitu, bind_of_ok (parseStringToStream_of_lt hs₀),
      terminate_eq hregion rfl]
    rfl
  | false =>
    let s₀ : ReaderState XmlReader := { s with sub := { s.sub with wsstream := [] } }
    refine ⟨{ s₀ with is := s₀.is.advance 1, sub := { s₀.sub with tagSkipFirstChar := true } }, ?_,
      hadvance, rfl, hinSitu, rfl, rfl⟩
    rw [parseStringText_of_not_inSitu hinSitu, bind_of_ok (parseStringToLocal_empty hrest)]
    rfl

/-- In front of the end of a value a string is empty, and the end comes next. -/
theorem refuses_parseStringText {α : Type} {f : StrArg × Bool → ReadM α}
    (hf : ∀ x s t, unread s.sub.tagSkipFirstChar s.is.rest = ascii "</value>" ++ t →
      ∃ e s₁, f x s = .error e s₁) : Refuses (parseStringText >>= f) := by
  rintro s ⟨-, t, hrest⟩
  have hsplit : s.is.rest = 0x3c :: (ascii "/value>" ++ t) := hrest
  obtain ⟨s₁, htext, hrest₁, hskip₁, -⟩ := parseStringText_empty hsplit
  rw [bind_of_ok htext]
  exact hf _ s₁ t (by rw [hskip₁, hrest₁, unread, if_pos rfl]; rfl)

/-- Such a string does not take the tag. -/
theorem refuses_parseStringToLocal {α : Type} {f : Bytes × Bool → ReadM α} (hf : ∀ x, Refuses (f x)) :
    Refuses (parseStringToLocal >>= f) := by
  rintro s ⟨hskip, t, hrest⟩
  have hsplit : s.is.rest = 0x3c :: (ascii "/value>" ++ t) := hrest
  rw [bind_of_ok (parseStringToLocal_empty hsplit)]
  exact hf _ _ ⟨hskip, t, hrest⟩

/-- Both runs read the same string, with the `<` behind it. -/
theorem mirrors_parseStringText (hk : k.HasReferences) (h : Linked root P (.text k) false n s s') :
    Mirrors (¬ P) (fun x s x' s' => x' = x ∧ Linked root P (.text k) true n s s')
      (parseStringText s) (parseStringText s') := by
  cases hinSitu : s.is.inSitu with
  | true =>
    have hinSitu' : s'.is.inSitu = true := h.inSitu.trans hinSitu
    have h₁ : Linked root P (.text k) false (s'.is.rest.length + 1)
        { s with is := s.is.putBegin } { s' with is := s'.is.putBegin } :=
      ⟨h.skip_left, h.skip_right, h.inSitu, h.copy, Nat.lt_succ_self _, h.texts⟩
    rw [parseStringText_of_inSitu hinSitu, parseStringText_of_inSitu hinSitu']
    have ho : SameString true 0 { s with is := s.is.putBegin } { s' with is := s'.is.putBegin } :=
      ⟨[], ⟨_, rfl, rfl, le_rfl⟩, _, rfl, rfl, le_rfl⟩
    refine (mirrors_parseStringToStream hk h₁ ho _ _).bind ?_
    rintro w s₂ w' s₂' ⟨rfl, h₂, hends⟩
    exact mirrors_terminate (h₂.mono h.left) hends w'
  | false =>
    have hinSitu' : s'.is.inSitu = false := h.inSitu.trans hinSitu
    rw [parseStringText_of_not_inSitu hinSitu, parseStringText_of_not_inSitu hinSitu']
    refine (mirrors_parseStringToLocal hk h).bind ?_
    rintro ⟨str, w⟩ s₂ _ s₂' ⟨rfl, h₂, hhead⟩
    have hleft : (s₂'.is.advance 1).rest.length < n := by
      rw [ReadStream.rest_advance, List.length_drop]
      exact (Nat.sub_le _ _).trans_lt h₂.left
    have hcopy : (s₂'.is.advance 1).copy = (s₂.is.advance 1).copy := h₂.copy
    refine mirrors_ok ⟨?_, rfl, rfl, h₂.inSitu, h₂.copy, hleft, h₂.takeLt hhead⟩
    simp only [hcopy]

/-- Both runs make the call for an empty string. -/
theorem mirrors_parseEmptyString (h : Linked root P l skip n s s') :
    Mirrors (¬ P) (fun _ s _ s' => Linked root P l skip n s s') (parseEmptyString s)
      (parseEmptyString s') := by
  have hrun (t : ReaderState XmlReader) :
      parseEmptyString t = call (.scalar (.string { bytes := [], copy := t.is.copy })) t := rfl
  rw [hrun, hrun, h.copy]
  exact mirrors_call h _

/-- Both runs make the call for an empty piece of binary data. -/
theorem mirrors_parseEmptyBase64 (h : Linked root P l skip n s s') :
    Mirrors (¬ P) (fun _ s _ s' => Linked root P l skip n s s') (parseEmptyBase64 s)
      (parseEmptyBase64 s') := by
  have hrun (t : ReaderState XmlReader) :
      parseEmptyBase64 t = call (.scalar (.binary { bytes := [], copy := t.is.copy })) t := rfl
  rw [hrun, hrun, h.copy]
  exact mirrors_call h _

/-- A string has an end tag of its own. -/
theorem refuses_parseString : Refuses parseString :=
  refuses_parseStringText fun _ _ _ hrest => expectTag_bind_close _ hrest (fun h => nomatch h)

/-- A key begins with a tag of its own. -/
theorem refuses_parseKey : Refuses parseKey :=
  have hne : XmlTag.start .name ≠ .close .value := by decide
  Refuses.expectTag hne _

/-- A method name has an end tag of its own. -/
theorem refuses_parseMethodName : Refuses parseMethodName :=
  have hne : XmlTag.close .methodName ≠ .close .value := by decide
  refuses_parseStringToLocal fun _ => Refuses.expectTag hne _

section

variable {depth : ℕ}

/-- Both runs read the same string value. -/
theorem mirrors_parseString
    (h : Linked root P (.text (.body (depth + 2) .other)) false n s s') :
    Mirrors (¬ P) (fun _ s _ s' => Inside root P (depth + 1) n s s') (parseString s)
      (parseString s') := by
  refine (mirrors_parseStringText (Context.hasReferences_other _) h).bind ?_
  rintro ⟨str, w⟩ s₁ _ s₁' ⟨rfl, h₁⟩
  refine (mirrors_close h₁ .string).bind ?_
  rintro _ s₂ _ s₂' h₂
  exact h₂.call _

/-- Both runs read the same key. -/
theorem mirrors_parseKey (h : Linked root P (.text (.body (depth + 1) .other)) false n s s') :
    Mirrors (¬ P) (fun _ s _ s' => Linked root P (.text (.body (depth + 1) .other)) false n s s')
      (parseKey s) (parseKey s') := by
  refine mirrors_expectTag_bind h Context.body_ne_done (fun element _ => refuses_parseStringText ?_) ?_
  · exact fun str s t hrest => expectTag_bind_close _ hrest (fun h => nomatch h)
  · intro s₁ s₁' h₁
    refine (mirrors_parseStringText (Context.hasReferences_other _) h₁).bind ?_
    rintro ⟨str, w⟩ s₂ _ s₂' ⟨rfl, h₂⟩
    refine (mirrors_expectTag h₂ Context.body_ne_done .name).bind ?_
    rintro _ s₃ _ s₃' h₃
    exact mirrors_call h₃ _

/-- The method name, behind which there may be anything. -/
theorem mirrors_parseMethodName
    (h : Linked root P (.text (.body (depth + 2) .other)) false n s s') :
    Mirrors (¬ P) (fun x s x' s' => x' = x ∧ Inside root P (depth + 1) n s s') (parseMethodName s)
      (parseMethodName s') := by
  refine (mirrors_parseStringToLocal (Context.hasReferences_other _) h).bind ?_
  rintro ⟨str, w⟩ s₁ _ s₁' ⟨rfl, h₁, -⟩
  refine (mirrors_close h₁ .methodName).bind ?_
  rintro _ s₂ _ s₂' h₂
  by_cases hstr : str = []
  · simp only [hstr, if_true]
    exact mirrors_error _ _ _
  · simp only [hstr, if_false]
    exact mirrors_ok ⟨rfl, h₂⟩

end

end

end AnyRpc.XmlReader
