import AnyRpc.Foundation.Decimal
import Mathlib.Data.List.DropRight

/-! # HTTP headers

`internal/http.cpp`: the header of a request or of a response, processed line by line as it arrives
in a buffer. -/

namespace AnyRpc

/-! ## Searching -/

/-- `FindChar`: the index of a character. -/
def findChar (s : Bytes) (c : UInt8) : Option ℕ := s.findIdx? (· = c)

/-- A character that is found in a text is found in it when more follows. -/
theorem findChar_append {s : Bytes} {c : UInt8} {n : ℕ} (h : findChar s c = some n) (l : Bytes) :
    findChar (s ++ l) c = some n := by
  rw [findChar] at h ⊢
  rw [List.findIdx?_append, h]
  rfl

theorem findChar_eq_some {s : Bytes} {c : UInt8} {n : ℕ} (h : findChar s c = some n) :
    n < s.length ∧ c ∈ s := by
  obtain ⟨hlt, hget, -⟩ := List.findIdx?_eq_some_iff_getElem.mp h
  rw [decide_eq_true_eq] at hget
  refine ⟨hlt, ?_⟩
  rw [← hget]
  exact List.getElem_mem hlt

theorem findChar_of_notMem {s : Bytes} {c : UInt8} (h : c ∉ s) : findChar s c = none := by
  rw [findChar, List.findIdx?_eq_none_iff]
  intro x hx
  rw [decide_eq_false_iff_not]
  rintro rfl
  exact h hx

theorem findChar_append_cons {s : Bytes} {c : UInt8} (h : c ∉ s) (l : Bytes) :
    findChar (s ++ c :: l) c = some s.length := by
  have hnone : s.findIdx? (· = c) = none := findChar_of_notMem h
  rw [findChar, List.findIdx?_append, hnone, List.findIdx?_cons]
  simp

/-- A string before and behind the first occurrence of a character. -/
def splitAtChar (s : Bytes) (c : UInt8) : Option (Bytes × Bytes) :=
  (findChar s c).map fun i => (s.take i, s.drop (i + 1))

/-- Whether a character is one of the string `" \t"`. -/
def isBlank (c : UInt8) : Bool := c = 0x20 || c = 0x09

/-- `tolower` in the C locale. -/
def toLower (c : UInt8) : UInt8 := if 0x41 ≤ c && c ≤ 0x5a then c + 0x20 else c

/-! ## The header -/

/-- `HttpHeader::ResultEnum`. -/
inductive HeaderResult where
  | complete
  | incomplete
  | fault
  deriving DecidableEq, Repr

/-- `HttpHeader`, with the members that a derived class adds. -/
structure HttpHeader (κ : Type) where
  httpVersion : Bytes := []
  contentType : Bytes := []
  contentLength : ℤ := -1
  keepAlive : Bool := true
  /-- Offset from the start of the buffer to continue processing. -/
  startIndex : ℕ := 0
  headerResult : HeaderResult := .incomplete
  derived : κ
  deriving DecidableEq, Repr

/-- The functions that a derived class of `HttpHeader` provides. -/
class HttpMessage (κ : Type) where
  /-- The members of the derived class after `Initialize`. -/
  derived : κ
  /-- `ProcessFirstLine(first, second, third)`. -/
  processFirstLine : Bytes → Bytes → Bytes → HttpHeader κ → HeaderResult × HttpHeader κ
  /-- `ProcessLine(key, value)`. -/
  processKeyValue : Bytes → Bytes → HttpHeader κ → HeaderResult × HttpHeader κ
  /-- `Verify`. -/
  verify : HttpHeader κ → HeaderResult

namespace HttpHeader

variable {κ : Type}

/-- What requests and responses have in common in `ProcessLine(key, value)`. -/
def processField [IntOverflow] (key value : Bytes) (h : HttpHeader κ) :
    HeaderResult × HttpHeader κ :=
  if key = ascii "content-length" then
    if h.contentLength ≠ -1 then (.fault, h)
    else
      let h := { h with contentLength := atoi (cString value) }
      (if h.contentLength < 0 then .fault else .incomplete, h)
  else if key = ascii "content-type" then
    if h.contentType ≠ [] then (.fault, h)
    else (.incomplete, { h with contentType := value })
  else if key = ascii "connection" then
    let value := value.map toLower
    if value = ascii "keep-alive" then (.incomplete, { h with keepAlive := true })
    else if value = ascii "close" then (.incomplete, { h with keepAlive := false })
    else (.incomplete, h)
  else (.incomplete, h)

/-- The version of a header, where the text begins with `HTTP/`; it decides what `keepAlive_` is by
default. -/
def processVersion (text : Bytes) (h : HttpHeader κ) : HeaderResult × HttpHeader κ :=
  if text.take 5 ≠ ascii "HTTP/" then (.fault, h)
  else
    let h := { h with httpVersion := text.drop 5 }
    (.incomplete, if h.httpVersion = ascii "1.0" then { h with keepAlive := false } else h)

variable [HttpMessage κ]

/-- `Initialize`. -/
def initial : HttpHeader κ where
  derived := HttpMessage.derived

/-- `ProcessFirstLine(line)`. -/
def processFirstLine (line : Bytes) (h : HttpHeader κ) : HeaderResult × HttpHeader κ :=
  match splitAtChar line 0x20 with
  | none => (.fault, h)
  | some (first, rest) =>
    match splitAtChar rest 0x20 with
    | none => (.fault, h)
    | some (second, third) => HttpMessage.processFirstLine first second third h

/-- `ProcessLine(line)`. -/
def processLine (line : Bytes) (h : HttpHeader κ) : HeaderResult × HttpHeader κ :=
  if line = [] then (HttpMessage.verify h, h)
  else
    match splitAtChar (line.dropWhile isBlank) 0x3a with
    | none => (.fault, h)
    | some (key, rest) =>
      let value := rest.dropWhile isBlank
      if value = [] then (.fault, h)
      else HttpMessage.processKeyValue (key.map toLower) (value.rdropWhile isBlank) h

/-- A line of the buffer without its end, which is `\n` or `\r\n`. -/
def lineText (line : Bytes) : Bytes := if line.getLast? = some 0x0d then line.dropLast else line

/-- What the loop does with a line that has so many bytes before its end. -/
def nextLine (buffer : Bytes) (n : ℕ) (h : HttpHeader κ) : HttpHeader κ :=
  let line := lineText ((buffer.drop h.startIndex).take n)
  let (result, h') := if h.startIndex = 0 then processFirstLine line h else processLine line h
  { h' with headerResult := result, startIndex := h.startIndex + n + 1 }

/-- The loop of `ProcessHeaderData`. -/
def processLines (buffer : Bytes) (eof : Bool) : ℕ → HttpHeader κ → HttpHeader κ
  | 0, h => h
  | fuel + 1, h =>
    if h.headerResult = .incomplete then
      match findChar (buffer.drop h.startIndex) 0x0a with
      | none => if eof then { h with headerResult := .fault } else h
      | some n => processLines buffer eof fuel (nextLine buffer n h)
    else h

/-- `ProcessHeaderData`. Every line takes a byte of the buffer at least. -/
def processHeaderData (buffer : Bytes) (eof : Bool) (h : HttpHeader κ) : HttpHeader κ :=
  if buffer.length < h.startIndex then { h with headerResult := .fault }
  else processLines buffer eof (buffer.length + 1) h

/-! ## A header that arrives in parts -/

variable {buffer : Bytes} {eof : Bool}

theorem startIndex_nextLine (buffer : Bytes) (n : ℕ) (h : HttpHeader κ) :
    (nextLine buffer n h).startIndex = h.startIndex + n + 1 := rfl

/-- A line ends inside the buffer. -/
theorem startIndex_nextLine_le {h : HttpHeader κ} {n : ℕ}
    (hfind : findChar (buffer.drop h.startIndex) 0x0a = some n) :
    (nextLine buffer n h).startIndex ≤ buffer.length := by
  have hn := (findChar_eq_some hfind).1
  rw [List.length_drop] at hn
  rw [startIndex_nextLine]
  omega

/-- The lines of a header end inside the buffer. -/
theorem startIndex_processLines (fuel : ℕ) {h : HttpHeader κ} (hstart : h.startIndex ≤ buffer.length) :
    (processLines buffer eof fuel h).startIndex ≤ buffer.length := by
  induction fuel generalizing h with
  | zero => exact hstart
  | succ fuel ih =>
    rw [processLines]
    split
    · cases hfind : findChar (buffer.drop h.startIndex) 0x0a with
      | none =>
        simp only
        split <;> exact hstart
      | some n =>
        have hn := (List.findIdx?_eq_some_iff_findIdx_eq.mp hfind).1
        rw [List.length_drop] at hn
        refine ih ?_
        show h.startIndex + n + 1 ≤ buffer.length
        omega
    · exact hstart

/-- A header that is complete ends inside the buffer. -/
theorem startIndex_le {h : HttpHeader κ}
    (hcomplete : (processHeaderData buffer eof h).headerResult = .complete) :
    (processHeaderData buffer eof h).startIndex ≤ buffer.length := by
  unfold processHeaderData at hcomplete ⊢
  by_cases hlength : buffer.length < h.startIndex
  · rw [if_pos hlength] at hcomplete
    cases hcomplete
  · rw [if_neg hlength]
    exact startIndex_processLines _ (by omega)

/-- A header that is complete takes bytes of the buffer. -/
theorem startIndex_pos (fuel : ℕ) {h : HttpHeader κ}
    (hpos : h.headerResult = .complete → 0 < h.startIndex) :
    (processLines buffer eof fuel h).headerResult = .complete →
      0 < (processLines buffer eof fuel h).startIndex := by
  induction fuel generalizing h with
  | zero => exact hpos
  | succ fuel ih =>
    rw [processLines]
    split
    · cases hfind : findChar (buffer.drop h.startIndex) 0x0a with
      | none =>
        simp only
        split
        · intro hfault
          cases hfault
        · exact hpos
      | some n => exact ih fun _ => Nat.succ_pos _
    · exact hpos

/-- A header that was not complete before and is now takes bytes of the buffer. -/
theorem startIndex_pos_of_incomplete {h : HttpHeader κ}
    (hh : h.headerResult = .incomplete)
    (hresult : (processHeaderData buffer eof h).headerResult = .complete) :
    0 < (processHeaderData buffer eof h).startIndex := by
  unfold processHeaderData at hresult ⊢
  by_cases hshort : buffer.length < h.startIndex
  · rw [if_pos hshort] at hresult
    cases hresult
  · rw [if_neg hshort] at hresult ⊢
    refine startIndex_pos _ (fun hcomplete => ?_) hresult
    cases hh.symm.trans hcomplete

/-- The loop ends before its steps do. -/
theorem processLines_congr {fuel fuel' : ℕ} {h : HttpHeader κ} (hstart : h.startIndex ≤ buffer.length)
    (hfuel : buffer.length - h.startIndex < fuel) (hfuel' : buffer.length - h.startIndex < fuel') :
    processLines buffer eof fuel h = processLines buffer eof fuel' h := by
  induction fuel generalizing h fuel' with
  | zero => exact absurd hfuel (Nat.not_lt_zero _)
  | succ fuel ih =>
    cases fuel' with
    | zero => exact absurd hfuel' (Nat.not_lt_zero _)
    | succ fuel' =>
      rw [processLines, processLines]
      cases hfind : findChar (buffer.drop h.startIndex) 0x0a with
      | none => rfl
      | some n =>
        have hle := startIndex_nextLine_le hfind
        have hnext := startIndex_nextLine buffer n h
        have hfuel₁ : buffer.length - (nextLine buffer n h).startIndex < fuel := by omega
        have hfuel₂ : buffer.length - (nextLine buffer n h).startIndex < fuel' := by omega
        simp only
        rw [ih hle hfuel₁ hfuel₂]

/-- A line that has arrived is processed in the same way when more follows. -/
theorem nextLine_append {h : HttpHeader κ} {n : ℕ}
    (hfind : findChar (buffer.drop h.startIndex) 0x0a = some n) (l : Bytes) :
    nextLine (buffer ++ l) n h = nextLine buffer n h := by
  have hn := (findChar_eq_some hfind).1
  rw [List.length_drop] at hn
  unfold nextLine
  rw [List.drop_append_of_le_length (by omega),
    List.take_append_of_le_length (by rw [List.length_drop]; omega)]

/-- The lines that have arrived may be processed before the others. -/
theorem processLines_append {fuel fuel' : ℕ} {h : HttpHeader κ} (hstart : h.startIndex ≤ buffer.length)
    (l : Bytes) (hfuel' : (buffer ++ l).length - h.startIndex < fuel') :
    processLines (buffer ++ l) eof fuel' (processLines buffer false fuel h) =
      processLines (buffer ++ l) eof fuel' h := by
  induction fuel generalizing h fuel' with
  | zero => rfl
  | succ fuel ih =>
    rw [processLines]
    split
    · rename_i hincomplete
      cases hfind : findChar (buffer.drop h.startIndex) 0x0a with
      | none => rfl
      | some n =>
        have hle := startIndex_nextLine_le hfind
        have hnext := startIndex_nextLine buffer n h
        have hlength : (buffer ++ l).length = buffer.length + l.length := List.length_append
        simp only
        rw [ih hle (by omega)]
        -- The loop over the longer buffer starts with the same line.
        obtain ⟨fuel', rfl⟩ := Nat.exists_eq_succ_of_ne_zero (by omega : fuel' ≠ 0)
        conv_rhs => rw [processLines, if_pos hincomplete]
        rw [List.drop_append_of_le_length hstart, findChar_append hfind]
        simp only
        rw [nextLine_append hfind]
        exact processLines_congr (by omega) (by omega) (by omega)
    · rfl

/-- A header may be processed as it arrives. -/
theorem processHeaderData_append {h : HttpHeader κ} (hstart : h.startIndex ≤ buffer.length)
    (l : Bytes) :
    processHeaderData (buffer ++ l) eof (processHeaderData buffer false h) =
      processHeaderData (buffer ++ l) eof h := by
  have hle : (processLines buffer false (buffer.length + 1) h).startIndex ≤ buffer.length :=
    startIndex_processLines _ hstart
  have hlength : (buffer ++ l).length = buffer.length + l.length := List.length_append
  unfold processHeaderData
  rw [if_neg (by omega : ¬ buffer.length < h.startIndex), if_neg (by omega), if_neg (by omega)]
  exact processLines_append hstart l (by omega)

/-- A header that is complete, or faulty, is processed no more. -/
theorem processHeaderData_of_ne {h : HttpHeader κ} (hstart : h.startIndex ≤ buffer.length)
    (hresult : h.headerResult ≠ .incomplete) : processHeaderData buffer eof h = h := by
  rw [processHeaderData, if_neg (by omega), processLines, if_neg hresult]

end HttpHeader

/-! ## Requests and responses -/

/-- The members that `HttpRequest` adds. -/
structure RequestFields where
  method : Bytes := []
  requestUri : Bytes := []
  host : Bytes := []
  deriving DecidableEq, Repr

/-- `HttpRequest`. -/
abbrev HttpRequest := HttpHeader RequestFields

/-- The members that `HttpResponse` adds. -/
structure ResponseFields where
  responseCode : Bytes := []
  responseString : Bytes := []
  deriving DecidableEq, Repr

/-- `HttpResponse`. -/
abbrev HttpResponse := HttpHeader ResponseFields

/-- `HttpRequest::ProcessFirstLine(first, second, third)`. -/
def HttpRequest.processFirstLine (first second third : Bytes) (h : HttpRequest) :
    HeaderResult × HttpRequest :=
  { h with derived := { h.derived with method := first, requestUri := second } }.processVersion third

/-- `HttpRequest::ProcessLine(key, value)`. -/
def HttpRequest.processKeyValue [IntOverflow] (key value : Bytes) (h : HttpRequest) :
    HeaderResult × HttpRequest :=
  if key = ascii "host" then (.incomplete, { h with derived := { h.derived with host := value } })
  else h.processField key value

/-- `HttpRequest::Verify`. -/
def HttpRequest.verify (h : HttpRequest) : HeaderResult :=
  if h.httpVersion = ascii "1.1" ∧ h.derived.host = [] then .fault
  else if h.contentLength < 0 ∧ h.derived.method = ascii "POST" then .fault
  else .complete

instance [IntOverflow] : HttpMessage RequestFields where
  derived := {}
  processFirstLine := HttpRequest.processFirstLine
  processKeyValue := HttpRequest.processKeyValue
  verify := HttpRequest.verify

/-- `HttpResponse::ProcessFirstLine(first, second, third)`. -/
def HttpResponse.processFirstLine (first second third : Bytes) (h : HttpResponse) :
    HeaderResult × HttpResponse :=
  match h.processVersion first with
  | (.incomplete, h) =>
    (.incomplete, { h with derived := { responseCode := second, responseString := third } })
  | (result, h) => (result, h)

/-- `HttpResponse::Verify`. -/
def HttpResponse.verify (h : HttpResponse) : HeaderResult :=
  if h.contentLength < 0 then .fault else .complete

instance [IntOverflow] : HttpMessage ResponseFields where
  derived := {}
  processFirstLine := HttpResponse.processFirstLine
  processKeyValue := HttpHeader.processField
  verify := HttpResponse.verify

end AnyRpc
