import AnyRpc.Internal.Http

/-! # The length of the content

What `GetContentLength` returns for a header that is complete, against the `Content-Length` fields that
the text of the header holds. -/

namespace AnyRpc

namespace HttpHeader

/-! ## The fields of a header -/

/-- The lines of a text, as far as they have come to an end. -/
def endedLines (text : Bytes) : List Bytes := (text.splitOn 0x0a).dropLast.map lineText

/-- The key of a line, in lower case, and its trimmed value. -/
def lineField (line : Bytes) : Option (Bytes × Bytes) :=
  match splitAtChar (line.dropWhile isBlank) 0x3a with
  | none => none
  | some (key, rest) =>
    let value := rest.dropWhile isBlank
    if value = [] then none else some (key.map toLower, value.rdropWhile isBlank)

/-- The value of a line that is a `Content-Length` field. -/
def lineLength (line : Bytes) : Option Bytes :=
  (lineField line).bind fun (key, value) =>
    if key = ascii "content-length" then some value else none

/-- The values of the `Content-Length` fields in the lines up to the first one that is empty. -/
def lineLengths (lines : List Bytes) : List Bytes :=
  (lines.takeWhile (· ≠ [])).filterMap lineLength

/-- The values of the `Content-Length` fields of a header, which are behind the first line. -/
def contentLengths (text : Bytes) : List Bytes := lineLengths ((endedLines text).drop 1)

theorem endedLines_of_none {text : Bytes} (h : findChar text 0x0a = none) : endedLines text = [] := by
  have hmem : (0x0a : UInt8) ∉ text := by
    intro hmem
    have hne := List.findIdx?_eq_none_iff.mp h _ hmem
    simp at hne
  rw [endedLines, List.splitOn_eq_singleton hmem]
  rfl

theorem endedLines_of_some {text : Bytes} {n : ℕ} (h : findChar text 0x0a = some n) :
    endedLines text = lineText (text.take n) :: endedLines (text.drop (n + 1)) := by
  obtain ⟨hlt, hget, hbefore⟩ := List.findIdx?_eq_some_iff_getElem.mp h
  rw [decide_eq_true_eq] at hget
  have hmem : (0x0a : UInt8) ∉ text.take n := by
    intro hmem
    obtain ⟨i, hi, hget⟩ := List.mem_take_iff_getElem.mp hmem
    have hne := hbefore i (by omega)
    rw [hget] at hne
    simp at hne
  have hsplit : text = text.take n ++ 0x0a :: text.drop (n + 1) := by
    rw [← hget, List.getElem_cons_drop, List.take_append_drop]
  have hlines : text.splitOn 0x0a = text.take n :: (text.drop (n + 1)).splitOn 0x0a := by
    conv_lhs => rw [hsplit]
    exact List.splitOn_append_cons_self_of_not_mem hmem _
  rw [endedLines, hlines, List.dropLast_cons_of_ne_nil (List.splitOn_ne_nil _ _)]
  rfl

/-- The lines in front of a line feed, and those behind it. -/
theorem endedLines_append (text rest : Bytes) :
    endedLines (text ++ 0x0a :: rest) = (text.splitOn 0x0a).map lineText ++ endedLines rest := by
  rw [endedLines, List.splitOn_append_cons_self,
    List.dropLast_append_of_ne_nil (List.splitOn_ne_nil _ _), List.map_append]
  rfl

/-- One line, and those behind it. -/
theorem endedLines_cons {line : Bytes} (hline : (0x0a : UInt8) ∉ line) (rest : Bytes) :
    endedLines (line ++ 0x0a :: rest) = lineText line :: endedLines rest := by
  rw [endedLines_append, List.splitOn_eq_singleton hline, List.map_singleton, List.singleton_append]

/-- A line that has not come to an end. -/
theorem endedLines_of_notMem {text : Bytes} (h : (0x0a : UInt8) ∉ text) : endedLines text = [] := by
  rw [endedLines, List.splitOn_eq_singleton h]
  rfl

/-- What follows a text goes on with the line that it ends in. -/
theorem exists_openLine (text : Bytes) : ∃ line, (0x0a : UInt8) ∉ line ∧
    ∀ rest, endedLines (text ++ rest) = endedLines text ++ endedLines (line ++ rest) := by
  induction hn : text.length using Nat.strong_induction_on generalizing text with
  | _ n ih =>
    by_cases hmem : (0x0a : UInt8) ∈ text
    · obtain ⟨first, later, rfl, hfirst⟩ := List.eq_append_cons_of_mem hmem
      have hlt : later.length < n := by
        rw [← hn, List.length_append, List.length_cons]
        omega
      obtain ⟨line, hline, hrest⟩ := ih _ hlt later rfl
      refine ⟨line, hline, fun rest => ?_⟩
      rw [List.append_assoc, List.cons_append, endedLines_cons hfirst, endedLines_cons hfirst, hrest,
        List.cons_append]
    · exact ⟨text, hmem, fun rest => by rw [endedLines_of_notMem hmem, List.nil_append]⟩

/-- The lines of a text are lines of a longer one. -/
theorem mem_endedLines_append {line text : Bytes} (h : line ∈ endedLines text) (rest : Bytes) :
    line ∈ endedLines (text ++ rest) := by
  obtain ⟨last, -, happend⟩ := exists_openLine text
  rw [happend]
  exact List.mem_append_left _ h

theorem lineLengths_nil_cons (lines : List Bytes) : lineLengths ([] :: lines) = [] := rfl

theorem lineLengths_cons {line : Bytes} (hne : line ≠ []) (lines : List Bytes) :
    lineLengths (line :: lines) = (lineLength line).toList ++ lineLengths lines := by
  rw [lineLengths, List.takeWhile_cons, if_pos (by simpa using hne), List.filterMap_cons]
  cases lineLength line <;> rfl

/-- A text that consists of decimal digits. -/
def IsNumeral (value : Bytes) : Prop := value ≠ [] ∧ ∀ c ∈ value, isDigit c = true

theorem isNumeral_decimal (n : ℕ) : IsNumeral (decimal n) :=
  ⟨decimal_ne_nil n, fun _ => isDigit_of_mem_decimal⟩

/-- Every `Content-Length` field of a header is a numeral for an `int`. -/
def NumeralsOnly (buffer : Bytes) : Prop :=
  ∀ value ∈ contentLengths buffer, IsNumeral value ∧ digitsValue value < 2 ^ 31

/-- The length of the content is what the only `Content-Length` field of the header says in digits, and
any other value of such a field is refused. -/
def LengthExact {κ : Type} (buffer : Bytes) (h : HttpHeader κ) : Prop :=
  (h.headerResult = .complete → 0 ≤ h.contentLength →
    ∃ value, contentLengths buffer = [value] ∧ IsNumeral value ∧
      (digitsValue value : ℤ) = h.contentLength) ∧
  ∀ value ∈ contentLengths buffer, ¬ (IsNumeral value ∧ digitsValue value < 2 ^ 31) →
    h.headerResult = .fault

theorem lengthExact_of_fault {κ : Type} {buffer : Bytes} {h : HttpHeader κ} (hfault : h.headerResult = .fault) :
    LengthExact buffer h := by
  refine ⟨fun hcomplete => ?_, fun _ _ _ => hfault⟩
  rw [hfault] at hcomplete
  cases hcomplete

variable {κ : Type} [HttpMessage κ]

/-- A line is processed as a field, unless it is empty. -/
theorem processLine_of_ne {line : Bytes} (hne : line ≠ []) (h : HttpHeader κ) :
    processLine line h = match lineField line with
      | none => (.fault, h)
      | some (key, value) => HttpMessage.processKeyValue key value h := by
  rw [processLine, if_neg hne, lineField]
  cases splitAtChar (line.dropWhile isBlank) 0x3a with
  | none => rfl
  | some split =>
    simp only
    by_cases hvalue : split.2.dropWhile isBlank = []
    · rw [if_pos hvalue, if_pos hvalue]
    · rw [if_neg hvalue, if_neg hvalue]

/-! ## The length that is read -/

theorem processVersion_contentLength {κ : Type} (text : Bytes) (h : HttpHeader κ) :
    (processVersion text h).1 ≠ .complete ∧
      (processVersion text h).2.contentLength = h.contentLength := by
  unfold processVersion
  split
  · exact ⟨HeaderResult.noConfusion, rfl⟩
  · simp only
    split
    · exact ⟨HeaderResult.noConfusion, rfl⟩
    · exact ⟨HeaderResult.noConfusion, rfl⟩

variable [IntOverflow]

/-- The `Content-Length` fields that have been seen, and the length that is kept of them. -/
def LengthRead (seen : List Bytes) (contentLength : ℤ) : Prop :=
  (seen = [] ∧ contentLength = -1) ∨
    ∃ value, seen = [value] ∧ contentLength = atoi (cString value) ∧ 0 ≤ contentLength

/-- What a kind of header has to do with the length of the content: the field is the one that all
headers have, nothing else touches the length, and only an empty line completes the header. -/
structure ReadsLength (κ : Type) [HttpMessage κ] : Prop where
  processFirstLine (first second third : Bytes) (h : HttpHeader κ) :
    (HttpMessage.processFirstLine first second third h).1 ≠ .complete ∧
      (HttpMessage.processFirstLine first second third h).2.contentLength = h.contentLength
  processKeyValue (key value : Bytes) (h : HttpHeader κ) : key ≠ ascii "content-length" →
    (HttpMessage.processKeyValue key value h).1 ≠ .complete ∧
      (HttpMessage.processKeyValue key value h).2.contentLength = h.contentLength
  processContentLength (value : Bytes) (h : HttpHeader κ) :
    HttpMessage.processKeyValue (ascii "content-length") value h =
      processField (ascii "content-length") value h
  verify (h : HttpHeader κ) : HttpMessage.verify h ≠ .incomplete

omit [HttpMessage κ] in
theorem processField_of_ne {key : Bytes} (hkey : key ≠ ascii "content-length") (value : Bytes)
    (h : HttpHeader κ) :
    (processField key value h).1 ≠ .complete ∧
      (processField key value h).2.contentLength = h.contentLength := by
  rw [processField, if_neg hkey]
  by_cases htype : key = ascii "content-type"
  · rw [if_pos htype]
    split
    · exact ⟨HeaderResult.noConfusion, rfl⟩
    · exact ⟨HeaderResult.noConfusion, rfl⟩
  · rw [if_neg htype]
    by_cases hconnection : key = ascii "connection"
    · rw [if_pos hconnection]
      simp only
      split
      · exact ⟨HeaderResult.noConfusion, rfl⟩
      · split
        · exact ⟨HeaderResult.noConfusion, rfl⟩
        · exact ⟨HeaderResult.noConfusion, rfl⟩
    · rw [if_neg hconnection]
      exact ⟨HeaderResult.noConfusion, rfl⟩

theorem readsLength_request : ReadsLength RequestFields where
  processFirstLine first second third h := processVersion_contentLength _ _
  processKeyValue key value h hkey := by
    show (HttpRequest.processKeyValue key value h).1 ≠ .complete ∧
      (HttpRequest.processKeyValue key value h).2.contentLength = h.contentLength
    unfold HttpRequest.processKeyValue
    split
    · exact ⟨HeaderResult.noConfusion, rfl⟩
    · exact processField_of_ne hkey value h
  processContentLength value h := rfl
  verify h := by
    show HttpRequest.verify h ≠ .incomplete
    unfold HttpRequest.verify
    split
    · exact HeaderResult.noConfusion
    · split
      · exact HeaderResult.noConfusion
      · exact HeaderResult.noConfusion

theorem readsLength_response : ReadsLength ResponseFields where
  processFirstLine first second third h := by
    show (HttpResponse.processFirstLine first second third h).1 ≠ .complete ∧
      (HttpResponse.processFirstLine first second third h).2.contentLength = h.contentLength
    have hversion := processVersion_contentLength first h
    unfold HttpResponse.processFirstLine
    split
    · rename_i h' heq
      rw [heq] at hversion
      exact ⟨HeaderResult.noConfusion, hversion.2⟩
    · rename_i heq
      rw [heq] at hversion
      exact hversion
  processKeyValue key value h hkey := processField_of_ne hkey value h
  processContentLength value h := rfl
  verify h := by
    show HttpResponse.verify h ≠ .incomplete
    unfold HttpResponse.verify
    split
    · exact HeaderResult.noConfusion
    · exact HeaderResult.noConfusion

section

variable {seen : List Bytes}

omit [HttpMessage κ] in
/-- A `Content-Length` field is the first one, if it is accepted. -/
theorem LengthRead.processField {h : HttpHeader κ} (hread : LengthRead seen h.contentLength)
    {value : Bytes}
    (hresult : (h.processField (ascii "content-length") value).1 ≠ .fault) :
    (h.processField (ascii "content-length") value).1 = .incomplete ∧
      LengthRead (seen ++ [value])
        (h.processField (ascii "content-length") value).2.contentLength := by
  unfold HttpHeader.processField at hresult ⊢
  rw [if_pos rfl] at hresult ⊢
  by_cases hfirst : h.contentLength = -1
  · rw [if_neg (not_not.mpr hfirst)] at hresult ⊢
    simp only at hresult ⊢
    by_cases hneg : atoi (cString value) < 0
    · rw [if_pos hneg] at hresult
      exact absurd rfl hresult
    · rw [if_neg hneg]
      refine ⟨rfl, .inr ⟨value, ?_, rfl, not_lt.mp hneg⟩⟩
      rcases hread with ⟨rfl, -⟩ | ⟨_, -, -, hpos⟩
      · rfl
      · omega
  · rw [if_pos hfirst] at hresult
    exact absurd rfl hresult

/-- What a line that is accepted does to the length. -/
theorem LengthRead.processLine (hκ : ReadsLength κ) {h : HttpHeader κ}
    (hread : LengthRead seen h.contentLength) {line : Bytes} (hne : line ≠ [])
    (hresult : (h.processLine line).1 ≠ .fault) :
    (h.processLine line).1 = .incomplete ∧
      LengthRead (seen ++ (lineLength line).toList) (h.processLine line).2.contentLength := by
  rw [processLine_of_ne hne] at hresult ⊢
  rw [lineLength]
  cases hfield : lineField line with
  | none =>
    rw [hfield] at hresult
    exact absurd rfl hresult
  | some field =>
    obtain ⟨key, value⟩ := field
    rw [hfield] at hresult
    simp only [Option.bind_some] at hresult ⊢
    by_cases hkey : key = ascii "content-length"
    · rw [if_pos hkey]
      rw [hkey, hκ.processContentLength] at hresult ⊢
      exact hread.processField hresult
    · obtain ⟨hcomplete, hsame⟩ := hκ.processKeyValue key value h hkey
      rw [if_neg hkey, hsame, Option.toList_none, List.append_nil]
      refine ⟨?_, hread⟩
      generalize (HttpMessage.processKeyValue key value h).1 = result at hresult hcomplete
      cases result with
      | complete => exact absurd rfl hcomplete
      | incomplete => rfl
      | fault => exact absurd rfl hresult

variable {buffer : Bytes} {eof : Bool}

omit [IntOverflow] in
/-- The loop stops at a result. -/
theorem processLines_of_ne {fuel : ℕ} {h : HttpHeader κ} (hresult : h.headerResult ≠ .incomplete) :
    h.processLines buffer eof fuel = h := by
  cases fuel with
  | zero => rfl
  | succ fuel => rw [HttpHeader.processLines, if_neg hresult]

/-- The lines of a header that is not refused have at most one `Content-Length` field, and its value is
what is kept as the length. The induction is on the lines that the loop takes. -/
theorem LengthRead.processLines (hκ : ReadsLength κ) (fuel : ℕ) {h : HttpHeader κ}
    (hread : LengthRead seen h.contentLength) (hincomplete : h.headerResult = .incomplete)
    (hpos : 0 < h.startIndex) (hle : h.startIndex ≤ buffer.length)
    (hfuel : buffer.length - h.startIndex < fuel)
    (hresult : (h.processLines buffer eof fuel).headerResult ≠ .fault) :
    LengthRead (seen ++ lineLengths (endedLines (buffer.drop h.startIndex)))
      (h.processLines buffer eof fuel).contentLength := by
  induction fuel generalizing seen h with
  | zero => exact absurd hfuel (Nat.not_lt_zero _)
  | succ fuel ih =>
    rw [HttpHeader.processLines, if_pos hincomplete] at hresult ⊢
    cases hfind : findChar (buffer.drop h.startIndex) 0x0a with
    | none =>
      rw [hfind] at hresult
      simp only at hresult ⊢
      rw [endedLines_of_none hfind]
      cases eof with
      | true => exact absurd rfl hresult
      | false => simpa [lineLengths] using hread
    | some n =>
      rw [hfind] at hresult
      simp only at hresult ⊢
      rw [endedLines_of_some hfind, List.drop_drop]
      have hnext : nextLine buffer n h =
          { (h.processLine (lineText ((buffer.drop h.startIndex).take n))).2 with
            headerResult := (h.processLine (lineText ((buffer.drop h.startIndex).take n))).1
            startIndex := h.startIndex + n + 1 } := by
        rw [nextLine]
        simp only
        rw [if_neg (by omega)]
      have hend := startIndex_nextLine_le hfind
      rw [startIndex_nextLine] at hend
      generalize lineText ((buffer.drop h.startIndex).take n) = line at hnext
      by_cases hne : line = []
      · -- The empty line completes the header.
        subst hne
        have hcomplete : (nextLine buffer n h).headerResult ≠ .incomplete := by
          rw [hnext]
          exact hκ.verify h
        have hlength : (nextLine buffer n h).contentLength = h.contentLength := by
          rw [hnext]
          rfl
        rw [lineLengths_nil_cons, List.append_nil]
        rw [processLines_of_ne hcomplete, hlength]
        exact hread
      · rw [lineLengths_cons hne, ← List.append_assoc]
        have hfault : (h.processLine line).1 ≠ .fault := by
          intro hfault
          have hnextFault : (nextLine buffer n h).headerResult = .fault := by
            rw [hnext]
            exact hfault
          rw [processLines_of_ne (by rw [hnextFault]; exact HeaderResult.noConfusion)] at hresult
          exact hresult hnextFault
        obtain ⟨hincomplete', hread'⟩ := hread.processLine hκ hne hfault
        have hread'' : LengthRead (seen ++ (lineLength line).toList)
            (nextLine buffer n h).contentLength := by
          rw [hnext]
          exact hread'
        have hnextIncomplete : (nextLine buffer n h).headerResult = .incomplete := by
          rw [hnext]
          exact hincomplete'
        refine ih hread'' hnextIncomplete (Nat.succ_pos _) hend ?_ hresult
        rw [startIndex_nextLine]
        omega

end

theorem processFirstLine_contentLength (hκ : ReadsLength κ) (line : Bytes) (h : HttpHeader κ) :
    (h.processFirstLine line).1 ≠ .complete ∧
      (h.processFirstLine line).2.contentLength = h.contentLength := by
  unfold processFirstLine
  split
  · exact ⟨HeaderResult.noConfusion, rfl⟩
  · split
    · exact ⟨HeaderResult.noConfusion, rfl⟩
    · exact hκ.processFirstLine _ _ _ h

/-- A header that is not refused has at most one `Content-Length` field. -/
theorem lengthRead_processHeaderData (hκ : ReadsLength κ) (buffer : Bytes) (eof : Bool)
    (hresult : ((initial : HttpHeader κ).processHeaderData buffer eof).headerResult ≠ .fault) :
    LengthRead (contentLengths buffer)
      ((initial : HttpHeader κ).processHeaderData buffer eof).contentLength := by
  have hstart : (initial : HttpHeader κ).startIndex = 0 := rfl
  have hincomplete : (initial : HttpHeader κ).headerResult = .incomplete := rfl
  rw [processHeaderData, if_neg (by omega), processLines, if_pos hincomplete, hstart,
    List.drop_zero] at hresult ⊢
  rw [contentLengths]
  cases hfind : findChar buffer 0x0a with
  | none =>
    rw [hfind] at hresult
    simp only at hresult ⊢
    rw [endedLines_of_none hfind]
    cases eof with
    | true => exact absurd rfl hresult
    | false => exact .inl ⟨rfl, rfl⟩
  | some n =>
    rw [hfind] at hresult
    simp only at hresult ⊢
    rw [endedLines_of_some hfind, List.drop_succ_cons, List.drop_zero]
    have hnext : nextLine buffer n (initial : HttpHeader κ) =
        { (processFirstLine (lineText (buffer.take n)) (initial : HttpHeader κ)).2 with
          headerResult :=
            (processFirstLine (lineText (buffer.take n)) (initial : HttpHeader κ)).1
          startIndex := n + 1 } := by
      rw [nextLine]
      simp only
      rw [if_pos hstart, hstart, List.drop_zero, Nat.zero_add]
    obtain ⟨hcomplete, hlength⟩ := processFirstLine_contentLength hκ (lineText (buffer.take n))
      (initial : HttpHeader κ)
    have hn := (findChar_eq_some hfind).1
    -- The first line does not end the header, and is not a field.
    have hnextIncomplete : (nextLine buffer n (initial : HttpHeader κ)).headerResult =
        .incomplete := by
      cases hnextResult : (nextLine buffer n (initial : HttpHeader κ)).headerResult with
      | incomplete => rfl
      | complete =>
        rw [hnext] at hnextResult
        exact absurd hnextResult hcomplete
      | fault =>
        rw [processLines_of_ne (by rw [hnextResult]; exact HeaderResult.noConfusion)] at hresult
        exact absurd hnextResult hresult
    have hread : LengthRead [] (nextLine buffer n (initial : HttpHeader κ)).contentLength := by
      rw [hnext]
      exact .inl ⟨rfl, hlength⟩
    have hnextStart : (nextLine buffer n (initial : HttpHeader κ)).startIndex = n + 1 := by
      rw [hnext]
    have hrun := hread.processLines hκ _ hnextIncomplete (by rw [hnextStart]; omega)
      (by rw [hnextStart]; omega) (by rw [hnextStart]; omega) hresult
    rw [hnextStart] at hrun
    exact hrun

/-! ## Exact lengths -/

/-- A numeral is read as its number, where that is an `int`. -/
theorem atoi_of_isNumeral {value : Bytes} (h : IsNumeral value) (hlt : digitsValue value < 2 ^ 31) :
    atoi (cString value) = digitsValue value := by
  have hzero : (0 : UInt8) ∉ value := fun hmem => absurd (h.2 0 hmem) (by decide)
  have hnumber : leadingNumber value = digitsValue value := by
    have happend := leadingNumber_of_isDigit (l := []) h.2 h.1 (by rintro c ⟨⟩)
    rwa [List.append_nil] at happend
  rw [cString_of_notMem hzero, atoi, hnumber, if_pos (by omega)]

omit [HttpMessage κ] in
/-- Where the fields have been read into the length, it is exact when they are numerals for an
`int`. -/
theorem LengthRead.lengthExact_iff {buffer : Bytes} {h : HttpHeader κ}
    (hread : LengthRead (contentLengths buffer) h.contentLength) (hresult : h.headerResult ≠ .fault) :
    LengthExact buffer h ↔ NumeralsOnly buffer := by
  constructor
  · intro hexact value hvalue
    by_contra hne
    exact hresult (hexact.2 value hvalue hne)
  · intro hall
    refine ⟨fun _ hpos => ?_, fun value hvalue hne => absurd (hall value hvalue) hne⟩
    rcases hread with ⟨-, hnone⟩ | ⟨value, hseen, hlength, -⟩
    · omega
    · obtain ⟨hnumeral, hlt⟩ := hall value (by rw [hseen]; exact List.mem_singleton_self value)
      exact ⟨value, hseen, hnumeral, by rw [hlength, atoi_of_isNumeral hnumeral hlt]⟩

/-- A header has an exact length if it is refused, and otherwise precisely when it has numerals
only. -/
theorem lengthExact_processHeaderData (hκ : ReadsLength κ) (buffer : Bytes) (eof : Bool) :
    let h := (initial : HttpHeader κ).processHeaderData buffer eof
    (h.headerResult = .fault → LengthExact buffer h) ∧
      (h.headerResult ≠ .fault → (LengthExact buffer h ↔ NumeralsOnly buffer)) :=
  ⟨lengthExact_of_fault, fun hresult =>
    (lengthRead_processHeaderData hκ buffer eof hresult).lengthExact_iff hresult⟩

/-- A request or a response that is not refused has the length that its only `Content-Length` field
says precisely when that is a numeral for an `int`. What `atoi` makes of any other text is taken for
the length, unless it is negative. -/
theorem contentLength_exact_iff (buffer : Bytes) (eof : Bool) :
    let request := (initial : HttpRequest).processHeaderData buffer eof
    let response := (initial : HttpResponse).processHeaderData buffer eof
    ((request.headerResult = .fault → LengthExact buffer request) ∧
        (request.headerResult ≠ .fault → (LengthExact buffer request ↔ NumeralsOnly buffer))) ∧
      (response.headerResult = .fault → LengthExact buffer response) ∧
        (response.headerResult ≠ .fault → (LengthExact buffer response ↔ NumeralsOnly buffer)) :=
  ⟨lengthExact_processHeaderData readsLength_request buffer eof,
    lengthExact_processHeaderData readsLength_response buffer eof⟩

omit [IntOverflow] in
/-- Letters behind the digits are ignored, and a number beyond an `int` is cut down to another
one. -/
theorem contentLength_lenient :
    let _ : IntOverflow := .glibc
    let letters := ascii "GET / HTTP/1.0\nContent-Length: 12abc\n\n"
    let beyond := ascii "HTTP/1.0 200 OK\nContent-Length: 4294967297\n\n"
    let request := (initial : HttpRequest).processHeaderData letters false
    let response := (initial : HttpResponse).processHeaderData beyond false
    (request.headerResult = .complete ∧ request.contentLength = 12 ∧ ¬ LengthExact letters request) ∧
      response.headerResult = .complete ∧ response.contentLength = 1 ∧
        ¬ LengthExact beyond response := by
  intro _ letters beyond request response
  have hrequest : request.headerResult = .complete ∧ request.contentLength = 12 ∧
      contentLengths letters = [ascii "12abc"] := by decide +kernel
  have hresponse : response.headerResult = .complete ∧ response.contentLength = 1 ∧
      contentLengths beyond = [ascii "4294967297"] := by decide +kernel
  refine ⟨⟨hrequest.1, hrequest.2.1, fun hexact => ?_⟩, hresponse.1, hresponse.2.1, fun hexact => ?_⟩
  · have hfault := hexact.2 (ascii "12abc") (by rw [hrequest.2.2]; exact List.mem_singleton_self _)
      fun hnumeral => absurd (hnumeral.1.2 0x61 (by decide)) (by decide)
    rw [hrequest.1] at hfault
    cases hfault
  · have hfault := hexact.2 (ascii "4294967297")
      (by rw [hresponse.2.2]; exact List.mem_singleton_self _)
      fun hnumeral => absurd hnumeral.2 (by decide +kernel)
    rw [hresponse.1] at hfault
    cases hfault

end HttpHeader

end AnyRpc
