import AnyRpc.Internal.ContentLength

/-! # Headers that are written line by line

The text of a header with a first line, a number of fields and an empty line: what is processed of it
ends with the empty line, unless one of the lines is refused. -/

namespace AnyRpc

namespace HttpHeader

/-- A line that is written, with its end. -/
def endLine (line : Bytes) : Bytes := line ++ [0x0d, 0x0a]

/-- The text of a header, by its first line and its fields. -/
def headerText (first : Bytes) (fields : List Bytes) : Bytes :=
  endLine first ++ ((fields.map endLine).flatten ++ endLine [])

/-- The line takes no more than one line of the text, and does not end the header. -/
structure IsField (line : Bytes) : Prop where
  ne_nil : line ≠ []
  notMem : (0x0a : UInt8) ∉ line

variable {line first rest buffer : Bytes} {fields : List Bytes}

/-- A line is found where it was written. -/
theorem findChar_endLine (hline : (0x0a : UInt8) ∉ line) (rest : Bytes) :
    findChar (endLine line ++ rest) 0x0a = some (line.length + 1) := by
  have hcr : (0x0a : UInt8) ∉ line ++ [0x0d] := by
    rw [List.mem_append, not_or]
    exact ⟨hline, by decide⟩
  have hfind := findChar_append_cons hcr rest
  rw [List.append_assoc, List.length_append, List.length_singleton] at hfind
  rw [endLine, List.append_assoc]
  exact hfind

/-- What is read of a line is what was written. -/
theorem lineText_endLine (line rest : Bytes) :
    lineText ((endLine line ++ rest).take (line.length + 1)) = line := by
  have htake : (endLine line ++ rest).take (line.length + 1) = line ++ [0x0d] := by
    have hsplit : endLine line ++ rest = (line ++ [0x0d]) ++ (0x0a :: rest) := by
      simp [endLine]
    rw [hsplit]
    exact List.take_left' (by simp)
  rw [htake, lineText, List.getLast?_concat, if_pos rfl, List.dropLast_concat]

theorem drop_endLine (line rest : Bytes) :
    (endLine line ++ rest).drop (line.length + 1 + 1) = rest :=
  List.drop_left' (by simp [endLine])

theorem endedLines_endLine (hline : (0x0a : UInt8) ∉ line) (rest : Bytes) :
    endedLines (endLine line ++ rest) = line :: endedLines rest := by
  rw [endedLines_of_some (findChar_endLine hline rest), lineText_endLine, drop_endLine]

/-- The `Content-Length` fields of a header are those among its fields. -/
theorem contentLengths_headerText (hfirst : (0x0a : UInt8) ∉ first)
    (hfields : ∀ line ∈ fields, IsField line) (rest : Bytes) :
    contentLengths (headerText first fields ++ rest) = fields.filterMap lineLength := by
  have hlines : lineLengths (endedLines ((fields.map endLine).flatten ++ (endLine [] ++ rest))) =
      fields.filterMap lineLength := by
    induction fields with
    | nil =>
      rw [List.map_nil, List.flatten_nil, List.nil_append, endedLines_endLine List.not_mem_nil,
        lineLengths_nil_cons]
      rfl
    | cons line fields ih =>
      obtain ⟨hne, hline⟩ := hfields line List.mem_cons_self
      rw [List.map_cons, List.flatten_cons, List.append_assoc, endedLines_endLine hline,
        lineLengths_cons hne, ih fun line h => hfields line (List.mem_cons_of_mem _ h),
        List.filterMap_cons]
      cases lineLength line with
      | none => rfl
      | some value => rfl
  rw [contentLengths, headerText, List.append_assoc, endedLines_endLine hfirst, List.drop_succ_cons,
    List.drop_zero, List.append_assoc, hlines]

/-! ## Processing -/

variable {κ : Type} [HttpMessage κ] {eof : Bool}

/-- A line is taken where it was written. -/
theorem nextLine_endLine {h : HttpHeader κ} (hbuffer : buffer.drop h.startIndex = endLine line ++ rest) :
    nextLine buffer (line.length + 1) h =
      let (result, h') := if h.startIndex = 0 then processFirstLine line h else processLine line h
      { h' with headerResult := result, startIndex := h.startIndex + (endLine line).length } := by
  have hlength : h.startIndex + (line.length + 1) + 1 = h.startIndex + (endLine line).length := by
    rw [endLine, List.length_append]
    rfl
  rw [nextLine, hbuffer, lineText_endLine, hlength]

theorem processLines_endLine {h : HttpHeader κ} (hincomplete : h.headerResult = .incomplete)
    (hline : (0x0a : UInt8) ∉ line) (hbuffer : buffer.drop h.startIndex = endLine line ++ rest)
    (fuel : ℕ) :
    processLines buffer eof (fuel + 1) h =
      processLines buffer eof fuel (nextLine buffer (line.length + 1) h) := by
  rw [processLines, if_pos hincomplete, hbuffer, findChar_endLine hline]

/-- A field does not complete a header. -/
theorem processLine_ne_complete [IntOverflow] (hκ : ReadsLength κ) (hne : line ≠ []) (h : HttpHeader κ) :
    (processLine line h).1 ≠ .complete := by
  rw [processLine_of_ne hne]
  cases lineField line with
  | none => exact HeaderResult.noConfusion
  | some field =>
    obtain ⟨key, value⟩ := field
    simp only
    by_cases hkey : key = ascii "content-length"
    · rw [hkey, hκ.processContentLength, processField, if_pos rfl]
      split
      · exact HeaderResult.noConfusion
      · simp only
        split
        · exact HeaderResult.noConfusion
        · exact HeaderResult.noConfusion
    · exact (hκ.processKeyValue key value h hkey).1

/-- The header is refused, or it is complete and ends in front of what is left. -/
def EndsBefore (rest buffer : Bytes) (h : HttpHeader κ) : Prop :=
  h.headerResult = .fault ∨ h.headerResult = .complete ∧ h.startIndex + rest.length = buffer.length

theorem endsBefore_of_fault {h : HttpHeader κ} (hfault : h.headerResult = .fault) (fuel : ℕ) :
    EndsBefore rest buffer (processLines buffer eof fuel h) := by
  rw [processLines_of_ne (by rw [hfault]; exact HeaderResult.noConfusion)]
  exact .inl hfault

/-- The fields are processed up to the empty line. -/
theorem processLines_fields [IntOverflow] (hκ : ReadsLength κ) (hfields : ∀ line ∈ fields, IsField line)
    {h : HttpHeader κ} (hpos : 0 < h.startIndex) (hincomplete : h.headerResult = .incomplete)
    (hbuffer : buffer.drop h.startIndex = (fields.map endLine).flatten ++ (endLine [] ++ rest))
    {fuel : ℕ} (hfuel : fields.length < fuel) :
    EndsBefore rest buffer (processLines buffer eof fuel h) := by
  obtain ⟨fuel, rfl⟩ := Nat.exists_eq_succ_of_ne_zero (by omega : fuel ≠ 0)
  have hlength : buffer.length = h.startIndex +
      ((fields.map endLine).flatten ++ (endLine [] ++ rest)).length := by
    have hdrop := congrArg List.length hbuffer
    have hne : 0 < ((fields.map endLine).flatten ++ (endLine [] ++ rest)).length := by
      rw [List.length_append, List.length_append, endLine]
      simp
    rw [List.length_drop] at hdrop
    omega
  induction fields generalizing h fuel with
  | nil =>
    rw [List.map_nil, List.flatten_nil, List.nil_append] at hbuffer hlength
    rw [processLines_endLine hincomplete List.not_mem_nil hbuffer, nextLine_endLine hbuffer,
      if_neg hpos.ne']
    -- The empty line completes the header, or it is refused.
    have hverify : HttpMessage.verify h ≠ .incomplete := hκ.verify h
    rw [processLines_of_ne hverify]
    cases hresult : HttpMessage.verify h with
    | incomplete => exact absurd hresult hverify
    | fault => exact .inl hresult
    | complete =>
      refine .inr ⟨hresult, ?_⟩
      rw [hlength, List.length_append]
      show h.startIndex + (endLine []).length + rest.length = _
      omega
  | cons line fields ih =>
    obtain ⟨hne, hline⟩ := hfields line List.mem_cons_self
    rw [List.map_cons, List.flatten_cons, List.append_assoc] at hbuffer hlength
    rw [processLines_endLine hincomplete hline hbuffer]
    have hnext := nextLine_endLine hbuffer
    rw [if_neg hpos.ne'] at hnext
    have hcomplete := processLine_ne_complete hκ hne h
    cases hresult : (processLine line h).1 with
    | complete => exact absurd hresult hcomplete
    | fault =>
      refine endsBefore_of_fault ?_ _
      rw [hnext]
      exact hresult
    | incomplete =>
      obtain ⟨fuel, rfl⟩ := Nat.exists_eq_succ_of_ne_zero (by
        rw [List.length_cons] at hfuel
        omega : fuel ≠ 0)
      have hstart : (nextLine buffer (line.length + 1) h).startIndex =
          h.startIndex + (endLine line).length := by
        rw [hnext]
      refine ih (fun line h => hfields line (List.mem_cons_of_mem _ h)) ?_ ?_ ?_ fuel ?_ ?_
      · rw [hstart]
        omega
      · rw [hnext]
        exact hresult
      · rw [hstart, ← List.drop_drop, hbuffer, List.drop_left]
      · rw [List.length_cons] at hfuel
        omega
      · rw [hlength, hstart, List.length_append, Nat.add_assoc]

theorem length_fields_le (fields : List Bytes) :
    fields.length ≤ (fields.map endLine).flatten.length := by
  induction fields with
  | nil => exact le_rfl
  | cons line fields ih =>
    rw [List.map_cons, List.flatten_cons, List.length_append, List.length_cons, endLine,
      List.length_append]
    simp only [List.length_cons, List.length_nil]
    omega

/-- What is processed of a header ends with its empty line. -/
theorem endsBefore_headerText [IntOverflow] (hκ : ReadsLength κ) (hfirst : (0x0a : UInt8) ∉ first)
    (hfields : ∀ line ∈ fields, IsField line) (rest : Bytes) (eof : Bool) :
    EndsBefore rest (headerText first fields ++ rest)
      ((initial : HttpHeader κ).processHeaderData (headerText first fields ++ rest) eof) := by
  have hstart : (initial : HttpHeader κ).startIndex = 0 := rfl
  have hbuffer : (headerText first fields ++ rest).drop (initial : HttpHeader κ).startIndex =
      endLine first ++ ((fields.map endLine).flatten ++ (endLine [] ++ rest)) := by
    rw [hstart, List.drop_zero, headerText, List.append_assoc, List.append_assoc]
  rw [processHeaderData, if_neg (by omega), processLines_endLine rfl hfirst hbuffer]
  have hnext := nextLine_endLine hbuffer
  rw [if_pos hstart] at hnext
  have hcomplete := (processFirstLine_contentLength hκ first (initial : HttpHeader κ)).1
  cases hresult : (processFirstLine first (initial : HttpHeader κ)).1 with
  | complete => exact absurd hresult hcomplete
  | fault =>
    refine endsBefore_of_fault ?_ _
    rw [hnext]
    exact hresult
  | incomplete =>
    have hstart' : (nextLine (headerText first fields ++ rest) (first.length + 1)
        (initial : HttpHeader κ)).startIndex = (endLine first).length := by
      rw [hnext, hstart]
      exact Nat.zero_add _
    refine processLines_fields hκ hfields ?_ ?_ ?_ ?_
    · rw [hstart', endLine]
      simp
    · rw [hnext]
      exact hresult
    · rw [hstart']
      rw [hstart, List.drop_zero] at hbuffer
      rw [hbuffer, List.drop_left]
    · have hle := length_fields_le fields
      rw [headerText, List.length_append, List.length_append, List.length_append, endLine]
      simp only [List.length_append, List.length_cons]
      omega

end HttpHeader

end AnyRpc
