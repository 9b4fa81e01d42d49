import AnyRpc.Reader.Faults
import AnyRpc.Xml.Reference
import AnyRpc.Xml.Sound

/-! # What the XML reader throws

Every exception of the reader has an error code. -/

namespace AnyRpc.XmlReader

open Library Reader XmlTag

/-! ## Tags -/

/-- A parse error of a tag. -/
theorem reported_throwTag {α : Type} (message : Bytes) :
    FailsWith Fault.Reported (throwTag message : ReadM α) := reported_anyrpcThrow (by decide) message

/-- The same with the tag that was found. -/
theorem reported_throwWithTag {α : Type} (tag : XmlTag) (message : Bytes) :
    FailsWith Fault.Reported (throwWithTag tag message : ReadM α) := reported_throwTag _

/-- The same with the tag that was expected as well. -/
theorem reported_throwFoundExpected {α : Type} (found expected : XmlTag) :
    FailsWith Fault.Reported (throwFoundExpected found expected : ReadM α) := reported_throwTag _

/-- The reading of a tag throws parse errors of tags. -/
theorem reported_read : FailsWith Fault.Reported XmlTag.read :=
  fun s _ _ herror => ((XmlTag.wp_read s).of_error herror).reported

/-- `GetNextTag`, with the first character of the tag still to be read or not. -/
theorem reported_getNextTag : FailsWith Fault.Reported getNextTag := by
  have hread : FailsWith Fault.Reported (do
      modify fun s => { s with sub := { s.sub with tagSkipFirstChar := false } }
      onText XmlTag.read : ReadM XmlTag) :=
    .bind (.of_ok fun _ => ⟨_, _, rfl⟩) fun _ => reported_onText reported_read
  have hchar : FailsWith Fault.Reported (do
      let c ← getChar
      if c ≠ 0x3c then
        throwTag (ascii "Parse error with xml tag: expected < found " ++ [c])
      modify fun s => { s with sub := { s.sub with tagSkipFirstChar := false } }
      onText XmlTag.read : ReadM XmlTag) :=
    .bind (.of_ok fun _ => ⟨_, _, rfl⟩) fun _ =>
      .ite (fun _ => .bind (reported_throwTag _) fun _ => hread) fun _ => hread
  refine .bind (.of_ok fun _ => ⟨_, _, rfl⟩) fun _ => .ite (fun _ => ?_) fun _ => hread
  refine .bind (.of_ok fun _ => ⟨_, _, rfl⟩) fun _ => .bind (.of_ok fun _ => ⟨_, _, rfl⟩) fun _ => ?_
  exact .ite (fun _ => .bind (reported_anyrpcThrow (by decide) _) fun _ => hchar) fun _ => hchar

/-- A tag that is expected. -/
theorem reported_expectTag (expected : XmlTag) : FailsWith Fault.Reported (expectTag expected) :=
  .bind reported_getNextTag fun _ =>
    .ite (fun _ => reported_throwFoundExpected _ _) fun _ => .of_ok fun _ => ⟨_, _, rfl⟩

/-! ## Strings -/

/-- `Put`, in place or to a local stream. -/
theorem reported_osPut (inPlace : Bool) (c : UInt8) : FailsWith Fault.Reported (osPut inPlace c) :=
  .ite (fun _ => reported_putChar c) fun _ => .of_ok fun _ => ⟨_, _, rfl⟩

/-- `Put` of one byte after the other. -/
theorem reported_osPutAll (inPlace : Bool) (str : Bytes) :
    FailsWith Fault.Reported (osPutAll inPlace str) := by
  induction str with
  | nil => exact .of_ok fun _ => ⟨_, _, rfl⟩
  | cons c str ih => exact .bind (reported_osPut inPlace c) fun _ => ih

/-- `Put` of a number of bytes. -/
theorem reported_osPutBytes (inPlace : Bool) (str : Bytes) :
    FailsWith Fault.Reported (osPutBytes inPlace str) :=
  .ite (fun _ => reported_putBytes str) fun _ => .of_ok fun _ => ⟨_, _, rfl⟩

/-- A reference that is too long is an invalid escape. -/
theorem reported_readEncoded (encoded : Bytes) : FailsWith Fault.Reported (readEncoded encoded) := by
  intro s
  induction s generalizing encoded with
  | nil => exact nofun
  | cons c s ih =>
    intro f s' herror
    rw [readEncoded] at herror
    split_ifs at herror
    · cases herror
      exact escapeInvalid_isError.reported
    · exact ih _ _ _ herror

/-- The digits of a reference give a code point, or the one fault. -/
theorem codepointDigits_error {base : ℕ} {digit? : UInt8 → Option ℕ} {str : Bytes} {f : Fault}
    (h : codepointDigits base digit? str 0 = .error f) : f = unicodeEscapeInvalid := by
  rw [codepointDigits_eq] at h
  cases hv : numeral? base digit? str with
  | none =>
    rw [hv] at h
    cases h
    rfl
  | some v =>
    simp only [hv] at h
    split_ifs at h
    cases h
    rfl

/-- A reference that says nothing is an invalid escape. -/
theorem decodeReference_reported {encoded : Bytes} {f : Fault}
    (h : decodeReference encoded = .error f) : f.Reported := by
  have hnumber {r : Except Fault ℕ} (hr : ∀ f, r = .error f → f = unicodeEscapeInvalid)
      (h : r.map encodeUtf8 = .error f) : f.Reported := by
    cases r with
    | ok v => cases h
    | error f' =>
      cases h
      rw [hr f rfl]
      exact unicodeEscapeInvalid_isError.reported
  unfold decodeReference at h
  split at h
  · cases h
    exact escapeInvalid_isError.reported
  · split_ifs at h
    · refine hnumber (fun f hf => ?_) h
      rw [parseHexEscapeCode] at hf
      split_ifs at hf
      · cases hf
        rfl
      · exact codepointDigits_error hf
    · refine hnumber (fun f hf => ?_) h
      rw [parseDecimalEscapeCode] at hf
      split_ifs at hf
      · cases hf
        rfl
      · exact codepointDigits_error hf
  · split at h
    · cases h
    · cases h
      exact escapeInvalid_isError.reported

/-- The loop of `ParseStringToStream`. -/
theorem reported_parseStringToStream (inPlace : Bool) (fuel : ℕ) (w : Bool) :
    FailsWith Fault.Reported (parseStringToStream inPlace fuel w) := by
  induction fuel generalizing w with
  | zero => exact .throw Fault.reported_outOfFuel
  | succ fuel ih =>
    refine .bind (.of_ok fun _ => ⟨_, _, rfl⟩) fun _ => .ite (fun _ => ?_) fun _ =>
      .bind (.of_ok fun _ => ⟨_, _, rfl⟩) fun _ => .ite (fun _ => ?_) fun _ =>
      .bind (.of_ok fun _ => ⟨_, _, rfl⟩) fun _ => .ite (fun _ => ?_) fun _ => ?_
    · exact reported_anyrpcThrow (by decide) _
    · exact .of_ok fun _ => ⟨_, _, rfl⟩
    · refine .bind (.of_ok fun _ => ⟨_, _, rfl⟩) fun _ =>
        .bind (reported_onText (reported_readEncoded [])) fun x => ?_
      cases x with
      | none => exact .of_ok fun _ => ⟨_, _, rfl⟩
      | some encoded =>
        cases hdecode : decodeReference encoded with
        | error f =>
          simp only [hdecode]
          exact .throw (decodeReference_reported hdecode)
        | ok str =>
          simp only [hdecode]
          exact .bind (reported_osPutAll inPlace str) fun _ => ih false
    · exact .bind (.of_ok fun _ => ⟨_, _, rfl⟩) fun c =>
        .bind (reported_osPut inPlace c) fun _ => ih _

/-- The characters of a string go to a local stream. -/
theorem reported_parseStringToLocal : FailsWith Fault.Reported parseStringToLocal :=
  .bind (.of_ok fun _ => ⟨_, _, rfl⟩) fun _ => .bind (.of_ok fun _ => ⟨_, _, rfl⟩) fun _ =>
    .bind (reported_parseStringToStream _ _ _) fun _ => .of_ok fun _ => ⟨_, _, rfl⟩

/-- The characters of a string go to where the stream wants them. -/
theorem reported_parseStringText : FailsWith Fault.Reported parseStringText := by
  refine .bind (.of_ok fun _ => ⟨_, _, rfl⟩) fun _ => .ite (fun _ => ?_) fun _ => ?_
  · exact .bind (.of_ok fun _ => ⟨_, _, rfl⟩) fun _ => .bind (.of_ok fun _ => ⟨_, _, rfl⟩) fun _ =>
      .bind (reported_parseStringToStream _ _ _) fun _ => .bind (.of_ok fun _ => ⟨_, _, rfl⟩) fun _ =>
      .bind (reported_putChar 0) fun _ => .of_ok fun _ => ⟨_, _, rfl⟩
  · exact .bind reported_parseStringToLocal fun _ => .of_ok fun _ => ⟨_, _, rfl⟩

/-- `ParseString`. -/
theorem reported_parseString : FailsWith Fault.Reported parseString :=
  .bind reported_parseStringText fun _ => .bind (reported_expectTag _) fun _ => reported_call _

/-- A value without a tag of its own is a string, up to `</value>`. -/
theorem reported_parseValueString : FailsWith Fault.Reported parseValueString :=
  .bind reported_parseStringText fun _ => .bind reported_getNextTag fun _ =>
    .ite (fun _ => .of_ok fun _ => ⟨_, _, rfl⟩) fun _ =>
      .ite (fun _ => .bind (reported_throwFoundExpected _ _) fun _ => .of_ok fun _ => ⟨_, _, rfl⟩)
        fun _ => .of_ok fun _ => ⟨_, _, rfl⟩

/-- What follows `<value>`. -/
theorem reported_getNextTagOrString : FailsWith Fault.Reported getNextTagOrString :=
  .bind (.of_ok fun _ => ⟨_, _, rfl⟩) fun _ =>
    .ite (fun _ => reported_getNextTag) fun _ => reported_parseValueString

/-- `ParseEmptyString` throws nothing. -/
theorem reported_parseEmptyString : FailsWith Fault.Reported parseEmptyString :=
  .of_ok fun _ => ⟨_, _, rfl⟩

/-- `ParseKey`. -/
theorem reported_parseKey : FailsWith Fault.Reported parseKey :=
  .bind (reported_expectTag _) fun _ => .bind reported_parseStringText fun _ =>
    .bind (reported_expectTag _) fun _ => reported_call _

/-! ## Scalars -/

/-- `ParseBoolean`: a digit other than 0 and 1 is refused. -/
theorem reported_parseBoolean : FailsWith Fault.Reported parseBoolean := by
  have hchar : FailsWith Fault.Reported (do
      let c ← getChar
      if c = 0x30 then
        call (.scalar .boolFalse)
      else if c = 0x31 then
        call (.scalar .boolTrue)
      else
        anyrpcThrow ErrorCode.termination
          (ascii "Parsing was terminated: expected 0 or 1 found " ++ [c])
      expectTag (.close .boolean) : ReadM Unit) :=
    .bind (.of_ok fun _ => ⟨_, _, rfl⟩) fun _ =>
      .ite (fun _ => .bind (reported_call _) fun _ => reported_expectTag _) fun _ =>
        .ite (fun _ => .bind (reported_call _) fun _ => reported_expectTag _) fun _ =>
          .bind (reported_anyrpcThrow (by decide) _) fun _ => reported_expectTag _
  exact .bind (.of_ok fun _ => ⟨_, _, rfl⟩) fun _ =>
    .ite (fun _ => .bind (reported_anyrpcThrow (by decide) _) fun _ => hchar) fun _ => hchar

/-- The decoding of a binary throws where it can not put a byte. -/
theorem reported_base64Decode (inPlace : Bool) (fuel : ℕ) (data : List ℕ) :
    FailsWith Fault.Reported (base64Decode inPlace fuel data) := by
  induction fuel generalizing data with
  | zero => exact .throw Fault.reported_outOfFuel
  | succ fuel ih =>
    refine .bind (.of_ok fun _ => ⟨_, _, rfl⟩) fun _ => .ite (fun _ => ?_) fun _ =>
      .bind (.of_ok fun _ => ⟨_, _, rfl⟩) fun _ => .ite (fun _ => ?_) fun _ =>
      .bind (.of_ok fun _ => ⟨_, _, rfl⟩) fun c => .ite (fun _ => ih data) fun _ =>
      .ite (fun _ => ?_) fun _ => ?_
    · exact .of_ok fun _ => ⟨_, _, rfl⟩
    · exact .of_ok fun _ => ⟨_, _, rfl⟩
    · split
      · exact .bind (.of_ok fun _ => ⟨_, _, rfl⟩) fun _ =>
          .ite (fun _ => .of_ok fun _ => ⟨_, _, rfl⟩) fun _ =>
            .bind (reported_osPut inPlace _) fun _ => .of_ok fun _ => ⟨_, _, rfl⟩
      · exact .bind (reported_osPutBytes inPlace _) fun _ => .of_ok fun _ => ⟨_, _, rfl⟩
      · exact .of_ok fun _ => ⟨_, _, rfl⟩
    · exact .bind (reported_osPutBytes inPlace _) fun _ => ih _

/-- `ParseBase64`. -/
theorem reported_parseBase64 : FailsWith Fault.Reported parseBase64 := by
  have htag (str : StrArg) : FailsWith Fault.Reported (do
      expectTag (.close .base64)
      call (.scalar (.binary str)) : ReadM Unit) :=
    .bind (reported_expectTag _) fun _ => reported_call _
  have hfinish (x : Bool) (str : StrArg) : FailsWith Fault.Reported (do
      if !x then
        anyrpcThrow ErrorCode.base64Invalid (ascii "Error during base64 decode")
      expectTag (.close .base64)
      call (.scalar (.binary str)) : ReadM Unit) :=
    .ite (fun _ => .bind (reported_anyrpcThrow (by decide) _) fun _ => htag str) fun _ => htag str
  have hdecode (inPlace : Bool) : FailsWith Fault.Reported (do
      let decodeResult ← base64Decode inPlace ((← get).is.rest.length + 1) []
      let s ← get
      let length ← if inPlace then putEnd else pure s.sub.wsstream.length
      if !decodeResult then
        anyrpcThrow ErrorCode.base64Invalid (ascii "Error during base64 decode")
      expectTag (.close .base64)
      call (.scalar (.binary (if inPlace then s.is.strArg length
        else { bytes := s.sub.wsstream, copy := s.is.copy }))) : ReadM Unit) := by
    refine .bind (.of_ok fun _ => ⟨_, _, rfl⟩) fun _ => .bind (reported_base64Decode _ _ _) fun _ =>
      .bind (.of_ok fun _ => ⟨_, _, rfl⟩) fun _ => .ite (fun _ => ?_) fun _ => ?_
    · exact .bind (.of_ok fun _ => ⟨_, _, rfl⟩) fun _ => hfinish _ _
    · exact .bind (.of_ok fun _ => ⟨_, _, rfl⟩) fun _ => hfinish _ _
  refine .bind (.of_ok fun _ => ⟨_, _, rfl⟩) fun _ => .ite (fun _ => ?_) fun _ => ?_
  · exact .bind (.of_ok fun _ => ⟨_, _, rfl⟩) fun _ => hdecode _
  · exact .bind (.of_ok fun _ => ⟨_, _, rfl⟩) fun _ => hdecode _

/-- An empty binary throws nothing. -/
theorem reported_parseEmptyBase64 : FailsWith Fault.Reported parseEmptyBase64 :=
  .of_ok fun _ => ⟨_, _, rfl⟩

section

variable [Platform]

/-- What is made of a number, by the tag that it stands in. -/
theorem reported_finishNumber (tag : XmlTagName) (n : ParseNumber) :
    FailsWith Fault.Reported (finishNumber tag n) := by
  refine .ite (fun _ => ?_) fun _ => .ite (fun _ => ?_) fun _ =>
    .bind (reported_expectTag _) fun _ => reported_call _
  · cases hdouble : n.double with
    | error f =>
      rw [ParseNumber.double_fault hdouble]
      exact .throw Fault.reported_undefined
    | ok d =>
      have hrest : FailsWith Fault.Reported (do
          expectTag (.close .double)
          call (.scalar (.double (if n.minus then Platform.neg d else d))) : ReadM Unit) :=
        .bind (reported_expectTag _) fun _ => reported_call _
      exact .ite (fun _ => .bind (reported_throwFoundExpected _ _) fun _ => hrest) fun _ => hrest
  · have hrest : FailsWith Fault.Reported (do
        if tag = .double then
          expectTag (.close .double)
        else
          expectTag (.close .i8)
        call (.scalar (if n.minus then .int64 (-BitVec.ofNat 64 n.i64)
          else .uint64 (BitVec.ofNat 64 n.i64))) : ReadM Unit) :=
      .ite (fun _ => .bind (reported_expectTag _) fun _ => reported_call _) fun _ =>
        .bind (reported_expectTag _) fun _ => reported_call _
    exact .ite (fun _ => .bind (reported_throwTag _) fun _ => hrest) fun _ => hrest

/-- `ParseNumber`. -/
theorem reported_parseNumber (tag : XmlTagName) : FailsWith Fault.Reported (parseNumber tag) :=
  .bind (reported_onText ParseNumber.reported_parse) fun n => reported_finishNumber tag n

/-- `ParseDateTime`. -/
theorem reported_parseDateTime : FailsWith Fault.Reported parseDateTime := by
  refine .bind reported_parseStringToLocal fun x => .bind (reported_expectTag _) fun _ => ?_
  split
  · exact reported_call _
  · exact reported_anyrpcThrow (by decide) _

end

/-! ## Containers -/

/-- An empty array throws nothing. -/
theorem reported_parseEmptyArray : FailsWith Fault.Reported parseEmptyArray :=
  .of_ok fun _ => ⟨_, _, rfl⟩

/-- An empty map throws nothing. -/
theorem reported_parseEmptyMap : FailsWith Fault.Reported parseEmptyMap :=
  .of_ok fun _ => ⟨_, _, rfl⟩

section

variable {pv : Bool → ReadM Unit} (hv : ∀ b, FailsWith Fault.Reported (pv b))

include hv

/-- The loop over the members of a map, where their values throw nothing else. -/
theorem reported_parseMembers (fuel count : ℕ) :
    FailsWith Fault.Reported (parseMembers pv fuel count) := by
  induction fuel generalizing count with
  | zero => exact .throw Fault.reported_outOfFuel
  | succ fuel ih =>
    have hmember : FailsWith Fault.Reported (do
        parseKey
        pv false
        expectTag (.close .member)
        parseMembers pv fuel (count + 1) : ReadM Unit) :=
      .bind reported_parseKey fun _ => .bind (hv false) fun _ =>
        .bind (reported_expectTag _) fun _ => ih (count + 1)
    refine .bind reported_getNextTag fun _ => .ite (fun _ => ?_) fun _ =>
      .ite (fun _ => reported_call _) fun _ => reported_throwWithTag _ _
    exact .ite (fun _ => .bind (reported_call _) fun _ => hmember) fun _ => hmember

/-- `ParseMap`. -/
theorem reported_parseMap : FailsWith Fault.Reported (parseMap pv) :=
  .bind (reported_call _) fun _ => .bind (.of_ok fun _ => ⟨_, _, rfl⟩) fun _ =>
    reported_parseMembers hv _ 0

/-- The loop over the elements of an array. -/
theorem reported_parseElements (fuel count : ℕ) :
    FailsWith Fault.Reported (parseElements pv fuel count) := by
  induction fuel generalizing count with
  | zero => exact .throw Fault.reported_outOfFuel
  | succ fuel ih =>
    have helement : FailsWith Fault.Reported (do
        pv true
        parseElements pv fuel (count + 1) : ReadM Unit) := .bind (hv true) fun _ => ih (count + 1)
    refine .bind reported_getNextTag fun _ => .ite (fun _ => ?_) fun _ => .ite (fun _ => ?_) fun _ =>
      .ite (fun _ => ?_) fun _ => reported_throwWithTag _ _
    · exact .ite (fun _ => .bind (reported_call _) fun _ => helement) fun _ => helement
    · exact .bind reported_parseEmptyString fun _ => ih (count + 1)
    · exact .bind (reported_call _) fun _ => reported_expectTag _

/-- `ParseArray`. -/
theorem reported_parseArray : FailsWith Fault.Reported (parseArray pv) := by
  have hrest : FailsWith Fault.Reported (do
      call (.startArray none)
      parseElements pv ((← get).is.rest.length + 1) 0 : ReadM Unit) :=
    .bind (reported_call _) fun _ => .bind (.of_ok fun _ => ⟨_, _, rfl⟩) fun _ =>
      reported_parseElements hv _ 0
  refine .bind reported_getNextTag fun _ => .ite (fun _ => ?_) fun _ => .ite (fun _ => ?_) fun _ => hrest
  · exact .bind reported_parseEmptyArray fun _ => reported_expectTag _
  · exact .bind (reported_throwFoundExpected _ _) fun _ => hrest

variable [Platform]

/-- What a tag inside of a value stands for. -/
theorem reported_parseTag (tag : XmlTag) : FailsWith Fault.Reported (parseTag pv tag) :=
  .ite (fun _ => reported_call _) fun _ =>
  .ite (fun _ => reported_parseBoolean) fun _ =>
  .ite (fun _ => reported_parseNumber _) fun _ =>
  .ite (fun _ => reported_parseNumber _) fun _ =>
  .ite (fun _ => reported_parseNumber _) fun _ =>
  .ite (fun _ => reported_parseNumber _) fun _ =>
  .ite (fun _ => reported_parseString) fun _ =>
  .ite (fun _ => reported_parseEmptyString) fun _ =>
  .ite (fun _ => reported_parseArray hv) fun _ =>
  .ite (fun _ => reported_parseEmptyArray) fun _ =>
  .ite (fun _ => reported_parseMap hv) fun _ =>
  .ite (fun _ => reported_parseEmptyMap) fun _ =>
  .ite (fun _ => reported_parseDateTime) fun _ =>
  .ite (fun _ => reported_parseBase64) fun _ =>
  .ite (fun _ => reported_parseEmptyBase64) fun _ =>
  .ite (fun _ => .of_ok fun _ => ⟨_, _, rfl⟩) fun _ => reported_throwWithTag _ _

/-- What follows `<value>`, with its closing tag. -/
theorem reported_parseValueBody : FailsWith Fault.Reported (parseValueBody pv) :=
  .bind reported_getNextTagOrString fun tag => .bind (reported_parseTag hv tag) fun _ =>
    .ite (fun _ => reported_expectTag _) fun _ => .of_ok fun _ => ⟨_, _, rfl⟩

end

section

variable [Platform]

/-- `ParseValue`, by induction on the depth. -/
theorem reported_parseValue (depth : ℕ) (valueTagParsed : Bool) :
    FailsWith Fault.Reported (parseValue depth valueTagParsed) := by
  induction depth generalizing valueTagParsed with
  | zero => exact .throw Fault.reported_outOfFuel
  | succ depth ih =>
    refine .ite (fun _ => reported_parseValueBody ih) fun _ => .bind reported_getNextTag fun _ =>
      .ite (fun _ => reported_parseEmptyString) fun _ =>
      .ite (fun _ => reported_parseValueBody ih) fun _ => reported_throwFoundExpected _ _

/-- `ParseValue` at a depth that is large enough. -/
theorem reported_parseNested (valueTagParsed : Bool) :
    FailsWith Fault.Reported (parseNested valueTagParsed) :=
  .bind (.of_ok fun _ => ⟨_, _, rfl⟩) fun _ => reported_parseValue _ valueTagParsed

/-! ## Documents -/

/-- The loop over the parameters. -/
theorem reported_parseParamsLoop (fuel count : ℕ) :
    FailsWith Fault.Reported (parseParamsLoop fuel count) := by
  induction fuel generalizing count with
  | zero => exact .throw Fault.reported_outOfFuel
  | succ fuel ih =>
    have hclose : FailsWith Fault.Reported (do
        let tag ← getNextTag
        if tag ≠ .close .param then
          throwFoundExpected tag (.close .params)
        parseParamsLoop fuel (count + 1) : ReadM Unit) :=
      .bind reported_getNextTag fun _ =>
        .ite (fun _ => .bind (reported_throwFoundExpected _ _) fun _ => ih _) fun _ => ih _
    have hparam : FailsWith Fault.Reported (do
        let tag ← getNextTag
        if tag = .start .value then
          parseNested true
        else if tag = .empty .value then
          parseEmptyString
        else
          throwFoundExpected tag (.start .value)
        let tag ← getNextTag
        if tag ≠ .close .param then
          throwFoundExpected tag (.close .params)
        parseParamsLoop fuel (count + 1) : ReadM Unit) :=
      .bind reported_getNextTag fun _ =>
        .ite (fun _ => .bind (reported_parseNested true) fun _ => hclose) fun _ =>
        .ite (fun _ => .bind reported_parseEmptyString fun _ => hclose) fun _ =>
        .bind (reported_throwFoundExpected _ _) fun _ => hclose
    refine .bind reported_getNextTag fun _ => .ite (fun _ => reported_call _) fun _ =>
      .ite (fun _ => ih count) fun _ => .ite (fun _ => ?_) fun _ => reported_throwWithTag _ _
    exact .ite (fun _ => .bind (reported_call _) fun _ => hparam) fun _ => hparam

/-- `ParseParams`. -/
theorem reported_parseParams : FailsWith Fault.Reported parseParams :=
  .bind (reported_call _) fun _ => .bind (.of_ok fun _ => ⟨_, _, rfl⟩) fun _ =>
    reported_parseParamsLoop _ 0

omit [Platform] in
/-- The tags in front of the root are skipped. -/
theorem reported_skipTo (expected : XmlTag) (fuel : ℕ) :
    FailsWith Fault.Reported (skipTo expected fuel) := by
  induction fuel with
  | zero => exact .throw Fault.reported_outOfFuel
  | succ fuel ih =>
    exact .bind reported_getNextTag fun _ => .ite (fun _ => ih) fun _ => .of_ok fun _ => ⟨_, _, rfl⟩

omit [Platform] in
/-- `ParseMethodName`. -/
theorem reported_parseMethodName : FailsWith Fault.Reported parseMethodName :=
  .bind reported_parseStringToLocal fun _ => .bind (reported_expectTag _) fun _ =>
    .ite (fun _ => .bind (reported_throwTag _) fun _ => .of_ok fun _ => ⟨_, _, rfl⟩) fun _ =>
      .of_ok fun _ => ⟨_, _, rfl⟩

/-- The loop over the parts of a call. -/
theorem reported_parseCall (fuel : ℕ) (methodName : Option Bytes) (paramsFound : Bool) :
    FailsWith Fault.Reported (parseCall fuel methodName paramsFound) := by
  induction fuel generalizing methodName paramsFound with
  | zero => exact .throw Fault.reported_outOfFuel
  | succ fuel ih =>
    have hname : FailsWith Fault.Reported (do
        parseCall fuel (some (← parseMethodName)) paramsFound) :=
      .bind reported_parseMethodName fun _ => ih _ _
    have hempty : FailsWith Fault.Reported (do
        parseEmptyArray
        parseCall fuel methodName true) := .bind reported_parseEmptyArray fun _ => ih _ _
    refine .bind reported_getNextTag fun _ => .ite (fun _ => ?_) fun _ => .ite (fun _ => ?_) fun _ =>
      .ite (fun _ => ?_) fun _ => .ite (fun _ => ?_) fun _ => reported_throwWithTag _ _
    · exact .of_ok fun _ => ⟨_, _, rfl⟩
    · exact .ite (fun _ => .bind (reported_throwWithTag _ _) fun _ => hname) fun _ => hname
    · exact .bind reported_parseParams fun _ => ih _ _
    · exact .ite (fun _ => .bind (reported_throwWithTag _ _) fun _ => hempty) fun _ => hempty

/-- A request. -/
theorem reported_request : FailsWith Fault.Reported request := by
  refine .bind (.of_ok fun _ => ⟨_, _, rfl⟩) fun _ => .bind (reported_skipTo _ _) fun _ =>
    .bind (.of_ok fun _ => ⟨_, _, rfl⟩) fun _ => .bind (reported_parseCall _ _ _) fun x => ?_
  obtain ⟨methodName, paramsFound⟩ := x
  cases methodName with
  | none => exact reported_throwTag _
  | some methodName =>
    exact .ite (fun _ => .bind reported_parseEmptyArray fun _ => .of_ok fun _ => ⟨_, _, rfl⟩)
      fun _ => .of_ok fun _ => ⟨_, _, rfl⟩

/-- A response: the parameters, or a fault. -/
theorem reported_response : FailsWith Fault.Reported response := by
  refine .bind (.of_ok fun _ => ⟨_, _, rfl⟩) fun _ => .bind (reported_skipTo _ _) fun _ =>
    .bind reported_getNextTag fun _ => .ite (fun _ => ?_) fun _ => .ite (fun _ => ?_) fun _ =>
    .ite (fun _ => ?_) fun _ => reported_throwWithTag _ _
  · exact .bind reported_parseParams fun _ => .bind reported_getNextTag fun _ =>
      .ite (fun _ => reported_throwFoundExpected _ _) fun _ => .of_ok fun _ => ⟨_, _, rfl⟩
  · exact reported_call _
  · exact .bind (reported_parseNested false) fun _ => .bind (reported_expectTag _) fun _ =>
      reported_expectTag _

/-- A text that is neither. -/
theorem reported_stream : FailsWith Fault.Reported stream :=
  .bind (.of_ok fun _ => ⟨_, _, rfl⟩) fun _ => .bind (.of_ok fun _ => ⟨_, _, rfl⟩) fun _ =>
    .ite (fun _ => reported_parseNested false) fun _ => .of_ok fun _ => ⟨_, _, rfl⟩

end

end AnyRpc.XmlReader
