import AnyRpc.Client.Client
import AnyRpc.Connection.Http
import AnyRpc.Internal.HttpLines

/-! # The text of a request over HTTP

`HttpClient::GenerateHeader` writes a header for a request. An `HttpConnection` that finds it complete
finds the end of it where the client has written it, and the length of the request. -/

namespace AnyRpc

open Library HttpHeader

namespace HttpClient

/-- What a client sends for a request. -/
def text (contentType host : Bytes) (port : ℕ) (request : Bytes) : Bytes :=
  let (header, request) := generateHeader contentType host port .newDefault
    (WriteSegmentedStream.newDefault.put request)
  header.bytes ++ request.bytes

/-- The lines of the header behind the first one. -/
def fields (contentType host : Bytes) (port n : ℕ) : List Bytes :=
  [ascii "User-Agent: AnyRPC v" ++ HttpConnection.versionString,
    ascii "Host: " ++ host ++ ascii ":" ++ decimal port,
    ascii "Content-Type: " ++ contentType,
    ascii "Accept: " ++ contentType,
    ascii "Content-length: " ++ decimal n]

variable {contentType host : Bytes}

/-- The header that a client writes. -/
theorem bytes_generateHeader (contentType host : Bytes) (port : ℕ) {header : WriteSegmentedStream}
    (hheader : header.bytes = []) (stream : WriteSegmentedStream) :
    (generateHeader contentType host port header stream).1.bytes =
      headerText (ascii "POST /RPC2 HTTP/1.1") (fields contentType host port stream.length) := by
  have hend : ascii "\r\n" = [0x0d, 0x0a] := rfl
  have hfirst : ascii "POST /RPC2 HTTP/1.1\r\n" = ascii "POST /RPC2 HTTP/1.1" ++ [0x0d, 0x0a] := rfl
  have hagent : ascii "User-Agent: AnyRPC v" = ascii "User-Agent: " ++ (ascii "AnyRPC" ++ ascii " v") :=
    rfl
  rw [generateHeader, WriteSegmentedStream.bytes_foldl_put, hheader, headerText, fields]
  simp only [endLine, hend, hfirst, hagent, List.map_cons, List.map_nil, List.flatten_cons,
    List.flatten_nil, List.append_assoc, List.append_nil, List.nil_append]

/-- The request is its header and its body. -/
theorem text_eq (contentType host : Bytes) (port : ℕ) (request : Bytes) :
    text contentType host port request =
      headerText (ascii "POST /RPC2 HTTP/1.1") (fields contentType host port request.length) ++
        request := by
  have hempty : WriteSegmentedStream.newDefault.bytes = [] := rfl
  have hlength : (WriteSegmentedStream.newDefault.put request).length = request.length := by
    rw [WriteSegmentedStream.length, WriteSegmentedStream.bytes_put, hempty, List.nil_append]
  show (generateHeader contentType host port .newDefault
    (WriteSegmentedStream.newDefault.put request)).1.bytes ++
      (WriteSegmentedStream.newDefault.put request).bytes = _
  rw [bytes_generateHeader _ _ _ hempty, hlength, WriteSegmentedStream.bytes_put, hempty, List.nil_append]

/-! ## The fields -/

/-- A field with a key that has no colon and starts with no blank. -/
theorem lineField_append {key : Bytes} (hblank : key.head?.any isBlank = false) (hne : key ≠ [])
    (hcolon : (0x3a : UInt8) ∉ key) (value : Bytes) :
    lineField (key ++ 0x3a :: value) =
      if value.dropWhile isBlank = [] then none
      else some (key.map toLower, (value.dropWhile isBlank).rdropWhile isBlank) := by
  have hdrop : (key ++ 0x3a :: value).dropWhile isBlank = key ++ 0x3a :: value := by
    obtain ⟨c, key, rfl⟩ := List.exists_cons_of_ne_nil hne
    have hc : isBlank c = false := hblank
    rw [List.cons_append, List.dropWhile_cons, hc, if_neg Bool.false_ne_true]
  rw [lineField, hdrop, splitAtChar, findChar_append_cons hcolon]
  simp

/-- A field with another key says nothing about the length. -/
theorem lineLength_append (key : Bytes) (hblank : key.head?.any isBlank = false) (hne : key ≠ [])
    (hcolon : (0x3a : UInt8) ∉ key) (hkey : key.map toLower ≠ ascii "content-length") (value : Bytes) :
    lineLength (key ++ 0x3a :: value) = none := by
  rw [lineLength, lineField_append hblank hne hcolon]
  by_cases hvalue : value.dropWhile isBlank = []
  · rw [if_pos hvalue]
    rfl
  · rw [if_neg hvalue, Option.bind_some]
    exact if_neg hkey

/-- The length of the content is read back from its field. -/
theorem lineLength_decimal (n : ℕ) :
    lineLength (ascii "Content-length: " ++ decimal n) = some (decimal n) := by
  have hblank (c : UInt8) (hc : c ∈ decimal n) : isBlank c = false := by
    have hdigit := isDigit_of_mem_decimal hc
    rw [isBlank, Bool.or_eq_false_iff, decide_eq_false_iff_not, decide_eq_false_iff_not]
    constructor
    · rintro rfl
      cases hdigit
    · rintro rfl
      cases hdigit
  have hdrop : (0x20 :: decimal n).dropWhile isBlank = decimal n := by
    obtain ⟨c, t, heq⟩ := List.exists_cons_of_ne_nil (decimal_ne_nil n)
    have hc := hblank c (heq ▸ List.mem_cons_self)
    rw [List.dropWhile_cons, if_pos (by decide), heq, List.dropWhile_cons, hc,
      if_neg Bool.false_ne_true]
  have hrdrop : (decimal n).rdropWhile isBlank = decimal n := by
    refine List.rdropWhile_eq_self_iff.mpr fun hne => ?_
    rw [hblank _ (List.getLast_mem hne)]
    exact Bool.false_ne_true
  have hline : ascii "Content-length: " ++ decimal n =
      ascii "Content-length" ++ 0x3a :: (0x20 :: decimal n) := rfl
  rw [hline, lineLength, lineField_append rfl (by decide) (by decide), hdrop, hrdrop,
    if_neg (decimal_ne_nil n), Option.bind_some]
  exact if_pos (by decide +kernel)

/-- The fields give one length. -/
theorem filterMap_fields (contentType host : Bytes) (port n : ℕ) :
    (fields contentType host port n).filterMap lineLength = [decimal n] := by
  have hagent : lineLength (ascii "User-Agent: AnyRPC v" ++ HttpConnection.versionString) = none :=
    lineLength_append (ascii "User-Agent") rfl (by decide) (by decide) (by decide +kernel) _
  have hhost : lineLength (ascii "Host: " ++ host ++ ascii ":" ++ decimal port) = none := by
    have hline : ascii "Host: " ++ host ++ ascii ":" ++ decimal port =
        ascii "Host" ++ 0x3a :: (0x20 :: host ++ ascii ":" ++ decimal port) := by
      simp [ascii]
    rw [hline]
    exact lineLength_append _ rfl (by decide) (by decide) (by decide +kernel) _
  have htype : lineLength (ascii "Content-Type: " ++ contentType) = none :=
    lineLength_append (ascii "Content-Type") rfl (by decide) (by decide) (by decide +kernel) _
  have haccept : lineLength (ascii "Accept: " ++ contentType) = none :=
    lineLength_append (ascii "Accept") rfl (by decide) (by decide) (by decide +kernel) _
  rw [fields, List.filterMap_cons_none hagent, List.filterMap_cons_none hhost,
    List.filterMap_cons_none htype, List.filterMap_cons_none haccept,
    List.filterMap_cons_some (lineLength_decimal n), List.filterMap_nil]

/-- Each field is a line. -/
theorem isField_fields (hhost : (0x0a : UInt8) ∉ host) (htype : (0x0a : UInt8) ∉ contentType)
    (port n : ℕ) : ∀ line ∈ fields contentType host port n, IsField line := by
  -- A text without line feeds behind the start of a field.
  have hfield (key : Bytes) {value : Bytes} (hne : key ≠ []) (hkey : (0x0a : UInt8) ∉ key)
      (hvalue : (0x0a : UInt8) ∉ value) : IsField (key ++ value) :=
    ⟨fun h => hne (List.append_eq_nil_iff.mp h).1, by
      rw [List.mem_append, not_or]
      exact ⟨hkey, hvalue⟩⟩
  have haddress := hfield (ascii "Host: ") (by decide) (by decide) hhost
  intro line hline
  simp only [fields, List.mem_cons, List.not_mem_nil, or_false] at hline
  rcases hline with rfl | rfl | rfl | rfl | rfl
  · exact hfield _ (by decide) (by decide) (by decide)
  · refine hfield _ ?_ ?_ (notMem_decimal (by decide) _)
    · exact fun h => haddress.ne_nil (List.append_eq_nil_iff.mp h).1
    · rw [List.mem_append, not_or]
      exact ⟨haddress.notMem, by decide⟩
  · exact hfield _ (by decide) (by decide) htype
  · exact hfield _ (by decide) (by decide) htype
  · exact hfield _ (by decide) (by decide) (notMem_decimal (by decide) _)

/-! ## What the server finds -/

variable [IntOverflow] {ω : Type}

/-- The header of a request is refused, or it ends in front of the request and has its length. -/
theorem requestOf_text (hhost : (0x0a : UInt8) ∉ host) (htype : (0x0a : UInt8) ∉ contentType)
    (port : ℕ) {request : Bytes} (hlength : request.length < 2 ^ 31) :
    let h := HttpConnection.requestOf (text contentType host port request)
    h.headerResult = .fault ∨ h.headerResult = .complete ∧
      h.startIndex + request.length = (text contentType host port request).length ∧
        h.contentLength = request.length := by
  have hfields := isField_fields hhost htype port request.length
  have hfirst : (0x0a : UInt8) ∉ ascii "POST /RPC2 HTTP/1.1" := by decide
  intro h
  have hends : EndsBefore request (text contentType host port request) h := by
    have hends := endsBefore_headerText (κ := RequestFields) readsLength_request hfirst hfields request
      false
    rwa [← text_eq] at hends
  rcases hends with hfault | ⟨hcomplete, hstart⟩
  · exact .inl hfault
  · refine .inr ⟨hcomplete, hstart, ?_⟩
    have hread := lengthRead_processHeaderData readsLength_request (text contentType host port request)
      false (by
        show h.headerResult ≠ .fault
        rw [hcomplete]
        exact HeaderResult.noConfusion)
    have hlengths : contentLengths (text contentType host port request) = [decimal request.length] := by
      rw [text_eq, contentLengths_headerText hfirst hfields, filterMap_fields]
    rw [hlengths] at hread
    rcases hread with ⟨hnone, -⟩ | ⟨value, hvalue, hcontent, -⟩
    · cases hnone
    · obtain rfl : decimal request.length = value := (List.cons.inj hvalue).1
      have hnumber := digitsValue_decimal request.length
      rw [atoi_of_isNumeral (isNumeral_decimal _) (by rw [hnumber]; exact hlength), hnumber] at hcontent
      exact hcontent

open HttpConnection in
/-- What a client sends for a request makes at most one message, which takes all of it. -/
theorem whole_text (hhost : (0x0a : UInt8) ∉ host) (htype : (0x0a : UInt8) ∉ contentType)
    (port : ℕ) {request : Bytes} (hlength : request.length < 2 ^ 31) (σ : HttpFields ω × ω) :
    (service (ω := ω)).framing.Whole σ (text contentType host port request) := by
  have hfound := requestOf_text hhost htype port hlength
  generalize hm : text contentType host port request = m at hfound
  -- A header that is found is the one that was written.
  have hhead {b n : ℕ} {k : Bool} {d : HttpFields ω}
      (h : head σ.1 (m.take maxBufferLength) = .complete b n k d) : b + n = m.length := by
    have hall : head σ.1 m = .complete b n k d := by
      have happend := head_append (m.drop maxBufferLength)
        (show head σ.1 (m.take maxBufferLength) ≠ .incomplete by rw [h]; simp)
      rwa [List.take_append_drop, h] at happend
    unfold head at hall
    rcases hfound with hfault | ⟨hcomplete, hstart, hcontent⟩
    · rw [hfault] at hall
      cases hall
    · rw [hcomplete] at hall
      cases hall
      have hsize : toSize (request.length : ℤ) = request.length := by
        rw [toSize]
        omega
      rw [hcontent, hsize, hstart]
  constructor
  · intro n e next hlook
    change (service (ω := ω)).look σ m = _ at hlook
    unfold Service.look at hlook
    cases h : (service (ω := ω)).head σ.1 (m.take maxBufferLength) with
    | incomplete =>
      rw [h] at hlook
      cases hlook
    | fault =>
      rw [h] at hlook
      cases hlook
    | complete b n' k d =>
      have hsum := hhead h
      rw [h] at hlook
      simp only at hlook
      split at hlook
      · cases hlook
      · split at hlook
        · cases hlook
        · split at hlook
          · cases hlook
          · cases hlook
            exact hsum
  · intro hlook l
    change (service (ω := ω)).look σ m = _ at hlook
    show (service (ω := ω)).look σ (m ++ l) = _
    unfold Service.look at hlook
    cases h : (service (ω := ω)).head σ.1 (m.take maxBufferLength) with
    | incomplete =>
      have hlong : maxBufferLength ≤ m.length := by
        -- A header that is there in full is not incomplete.
        by_contra hshort
        rw [List.take_of_length_le (not_le.mp hshort).le] at h
        change head σ.1 m = _ at h
        unfold head at h
        rcases hfound with hfault | ⟨hcomplete, -, -⟩
        · rw [hfault] at h
          cases h
        · rw [hcomplete] at h
          cases h
      rw [Service.look, List.take_append_of_le_length hlong, h]
    | fault =>
      rw [h] at hlook
      cases hlook
    | complete b n k d =>
      have hsum := hhead h
      rw [h] at hlook
      simp only at hlook
      split at hlook
      · cases hlook
      · split at hlook
        · omega
        · split at hlook
          · cases hlook
          · cases hlook

end HttpClient

end AnyRpc
