import AnyRpc.Json.Payload
import AnyRpc.Server.Calls

/-! # Payloads of requests

What is accepted as a JSON document, and as a request. The reader has error codes for an empty
document and for one that goes on behind its value, but reports neither
(`readsOnlyDocuments_iff`). -/

namespace AnyRpc

open Library Handler Reader Json

/-! ## Parsing without a parse error -/

/-- What a handler throws, within the calls for a value, has an error code. -/
def Handler.Reports (σ : Type) [Handler σ] : Prop :=
  ∀ (t : EventTree) (es : List Event), es <+: t.events → ∀ (h : σ) (e : AnyRpcException),
    deliver es (startDocument h) = .error (.exception e) → e.code ≠ 0

theorem Document.reports [Platform] : Handler.Reports Document := by
  intro t es hes d e hdeliver
  rcases Document.deliver_prefix hes d with ⟨d', hok⟩ | ⟨f, herror, e', rfl, he'⟩
  · cases hok.symm.trans hdeliver
  · cases herror.symm.trans hdeliver
    exact he'

/-- A handler that takes every call. -/
@[reducible]
def acceptAll : Handler Unit where
  handle _ := pure ()

theorem deliver_acceptAll (es : List Event) : @deliver Unit acceptAll es () = .ok () := by
  let _ := acceptAll
  induction es with
  | nil => rfl
  | cons e es ih =>
    rw [deliver_cons]
    exact ih

namespace JsonReader

variable [Platform] {σ : Type} [Handler σ]

/-- Without a parse error, the reader itself returns. -/
theorem parse_of_parseStream (hreports : Handler.Reports σ) {is : ReadStream} {h : σ}
    {r : Parsed σ JsonReader} (hrun : parseStream is h = .ok r) (hok : r.hasParseError = false) :
    ∃ s', parse (new is) = .ok () s' := by
  have hfaulted {f : Fault} {offset : ℕ} {h' : σ} {s : State}
      (hf : ∀ e, f = .exception e → e.code ≠ 0) (hr : faulted f offset h' s = .ok r) : False := by
    cases f with
    | exception e =>
      cases hr
      have hcode := hf e rfl
      simp [Parsed.hasParseError, AnyRpcException.isErrorSet] at hok
      exact hcode hok
    | undefined | outOfFuel => cases hr
  rcases (parse_calls (new is)).cases with ⟨⟨⟩, s', hparse, -⟩ |
    ⟨f, s', hparse, ⟨es, hes, hevents⟩, hf⟩
  · exact ⟨s', hparse⟩
  · obtain ⟨_, ⟨t, -, rfl⟩, hpre⟩ := mem_prefixes.mp hes
    have hparse' : parse { new is with calls := [] } = .error f s' := hparse
    simp only [parseStream, Reader.parseStream, hparse', reached_error] at hrun
    cases hdeliver : deliver s'.events (startDocument h) with
    | ok h' =>
      have hcalls : makeCalls s'.calls (startDocument h) = .ok () h' := makeCalls_of_ok hdeliver
      rw [hcalls] at hrun
      refine (hfaulted (fun e he => ?_) hrun).elim
      rcases hf with ⟨e', rfl, he'⟩ | rfl
      · cases he
        exact he'
      · cases he
    | error f' =>
      obtain ⟨offset, h', hcalls⟩ := makeCalls_of_error hdeliver
      rw [hcalls] at hrun
      refine (hfaulted (fun e he => ?_) hrun).elim
      rw [he, hevents] at hdeliver
      exact hreports t es hpre h e hdeliver

/-- A text that can be parsed without an error is one value, unless it is one of those that the reader
does not look through to their end. -/
theorem isDocument_of_parseStream (hnonzero : Platform.DigitsNonzero)
    (hreports : Handler.Reports σ) {is : ReadStream} {h : σ} {r : Parsed σ JsonReader}
    (hspaces : ¬ Spaces is.rest) (htrailing : ∀ r, StartsWithValue is.rest r → Spaces r)
    (hrun : parseStream is h = .ok r) (hok : r.hasParseError = false) : IsDocument is.rest := by
  obtain ⟨s', hparse⟩ := parse_of_parseStream hreports hrun hok
  rcases (parse_ok_iff hnonzero (new is) s'.is.rest).mp ⟨s', hparse, rfl⟩ with ⟨hblank, -⟩ | hstarts
  · exact absurd hblank hspaces
  · have htail := htrailing _ hstarts
    obtain ⟨w, p, ns, htext, hw, hp, -⟩ := hstarts
    exact ⟨w, p, s'.is.rest, htext, hw, ⟨ns, hp⟩, htail⟩

/-- Where the reader returns, a handler that takes every call is left without a parse error. -/
theorem parseStream_acceptAll {is : ReadStream} {s' : State} (hparse : parse (new is) = .ok () s') :
    ∃ r, @parseStream _ Unit acceptAll is () = .ok r ∧ r.hasParseError = false := by
  let _ := acceptAll
  exact ⟨_, parseStream_of_ok hparse (deliver_acceptAll s'.events), rfl⟩

end JsonReader

/-! ## Requests -/

namespace Server

open JsonReader

variable [Platform] [DoubleDigits]

/-- A request for which a method is executed can be parsed. -/
theorem parsed_of_calls {ω : Type} {h : Handling ω} (hprotocol : h.protocol = .json)
    (hcalls : h.calls ≠ []) :
    ∃ r, jsonParse h.request h.beyond = .ok r ∧ r.hasParseError = false := by
  obtain ⟨protocol, manager, request, beyond, server⟩ := h
  cases hprotocol
  have hasked : jsonMessage? request beyond ≠ none := by
    intro hnone
    refine hcalls (List.prefix_nil.mp ?_)
    have hpre := (Handling.mk .json manager request beyond server).calls_isPrefix
    rwa [Handling.asked, Protocol.asked, hnone] at hpre
  rw [jsonMessage?] at hasked
  cases hparse : jsonParse request beyond with
  | error f =>
    rw [hparse] at hasked
    exact absurd rfl hasked
  | ok r =>
    refine ⟨r, rfl, ?_⟩
    cases herror : r.hasParseError with
    | false => rfl
    | true =>
      rw [hparse] at hasked
      simp [herror] at hasked

/-- From a text, nothing is parsed without a parse error, and nothing executed, unless it is one
value with white space around it. -/
def ReadsOnlyDocuments (text : Bytes) : Prop :=
  (∀ (σ : Type) [Handler σ], Handler.Reports σ → ∀ (is : ReadStream) (h : σ) (r : Parsed σ JsonReader),
      is.rest = text → JsonReader.parseStream is h = .ok r → r.hasParseError = false →
        IsDocument text) ∧
    ∀ (ω : Type) (h : Handling ω), h.protocol = .json → h.request = text → h.calls ≠ [] →
      IsDocument text

/-- The text is one value where the reader returns. -/
theorem ReadsOnlyDocuments.isDocument {text : Bytes} (h : ReadsOnlyDocuments text) {s' : State}
    (hparse : parse (JsonReader.new (.inSituString text true false 0)) = .ok () s') :
    IsDocument text := by
  obtain ⟨r, hrun, hok⟩ := parseStream_acceptAll hparse
  let _ := acceptAll
  refine h.1 Unit (fun t es _ h e hdeliver => ?_) _ () r rfl hrun hok
  cases (deliver_acceptAll es).symm.trans hdeliver

/-- Exactly the texts of nothing but white space, and those that go on behind the value that they
start with, are read though they are no documents. -/
theorem readsOnlyDocuments_iff (hnonzero : Platform.DigitsNonzero) (text : Bytes) :
    ReadsOnlyDocuments text ↔ ¬ Spaces text ∧ ∀ r, StartsWithValue text r → Spaces r := by
  constructor
  · intro h
    let s : State := JsonReader.new (.inSituString text true false 0)
    constructor
    · intro hspaces
      obtain ⟨s', hparse, -⟩ := (parse_ok_iff hnonzero s []).mpr (.inl ⟨hspaces, rfl⟩)
      exact (h.isDocument hparse).not_spaces hspaces
    · intro r hstarts
      obtain ⟨s', hparse, -⟩ := (parse_ok_iff hnonzero s r).mpr (.inr hstarts)
      exact (h.isDocument hparse).rest_spaces hnonzero hstarts
  · rintro ⟨hspaces, htrailing⟩
    constructor
    · rintro σ _ hreports is h r rfl hrun hok
      exact isDocument_of_parseStream hnonzero hreports hspaces htrailing hrun hok
    · rintro ω h hprotocol rfl hcalls
      obtain ⟨r, hparse, hok⟩ := parsed_of_calls hprotocol hcalls
      have hrequest : (ReadStream.inSituString h.request true false h.beyond).rest = h.request := rfl
      rw [← hrequest] at hspaces htrailing ⊢
      exact isDocument_of_parseStream hnonzero Document.reports hspaces htrailing hparse hok

omit [Platform] [DoubleDigits] in
theorem readsOnlyDocuments_iff_array :
    letI := Platform.nonzero
    letI := DoubleDigits.blank
    ReadsOnlyDocuments (ascii "[ 12 , \"a\" ]") ↔
      ¬ Spaces (ascii "[ 12 , \"a\" ]") ∧
        ∀ r, StartsWithValue (ascii "[ 12 , \"a\" ]") r → Spaces r :=
  letI := Platform.nonzero
  letI := DoubleDigits.blank
  readsOnlyDocuments_iff (fun _ _ _ => rfl) _

/-- A request for a method, with something behind it. -/
def requestThenX : Handling Unit where
  protocol := .json
  manager := noMethods
  request := ascii "\x7b\"jsonrpc\":\"2.0\",\"method\":\"f\",\"params\":[],\"id\":1\x7d x"
  beyond := 0
  server := { world := () }

omit [Platform] [DoubleDigits] in
/-- The parser stops behind the value. -/
theorem requestThenX_starts :
    letI := Platform.nonzero
    StartsWithValue requestThenX.request (ascii " x") := by
  let _ := Platform.nonzero
  let s : State := JsonReader.new (.inSituString requestThenX.request true false 0)
  have hreturns : threw (parse s) = false := by decide +kernel
  have hstop : (reached (parse s)).is.rest = ascii " x" := by decide +kernel
  cases hparse : parse s with
  | error f s' =>
    rw [hparse] at hreturns
    cases hreturns
  | ok a s' =>
    rw [hparse] at hstop
    rcases (parse_ok_iff (fun _ _ _ => rfl) s (ascii " x")).mp ⟨s', hparse, hstop⟩ with
      ⟨-, hnil⟩ | hstarts
    · cases hnil
    · exact hstarts

omit [Platform] [DoubleDigits] in
/-- A method is executed for a text that goes on behind its value, and an empty text is read. -/
theorem not_readsOnlyDocuments :
    letI := Platform.nonzero
    letI := DoubleDigits.blank
    requestThenX.calls.map Prod.fst = [ascii "f"] ∧ ¬ IsDocument requestThenX.request ∧
      ¬ ReadsOnlyDocuments requestThenX.request ∧ ¬ ReadsOnlyDocuments [] := by
  let _ := Platform.nonzero
  let _ := DoubleDigits.blank
  have hcalls : requestThenX.calls.map Prod.fst = [ascii "f"] := by decide +kernel
  have hne : requestThenX.calls ≠ [] := by
    intro hnil
    rw [hnil] at hcalls
    cases hcalls
  have hnot : ¬ IsDocument requestThenX.request := by
    intro h
    have hspaces := h.rest_spaces (fun _ _ _ => rfl) requestThenX_starts
    exact absurd (hspaces 0x78 (by decide +kernel)) (by decide)
  refine ⟨hcalls, hnot, fun h => hnot (h.2 Unit requestThenX rfl rfl hne), fun h => ?_⟩
  obtain ⟨s', hparse, -⟩ := (parse_ok_iff (fun _ _ _ => rfl)
    (JsonReader.new (.inSituString [] true false 0)) []).mpr (.inl ⟨nofun, rfl⟩)
  exact (h.isDocument hparse).not_spaces nofun

end Server

end AnyRpc
