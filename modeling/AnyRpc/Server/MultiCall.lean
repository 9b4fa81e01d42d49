import AnyRpc.Server.Xml

/-! # Multiple calls in one request

What `system.multicall` answers: each call by the result of its method, or by a fault. A method is
looked up under the name up to its first null byte (`multiCallAnswers_iff`). -/

namespace AnyRpc

open Library Building

/-- Every method returns a value within the limits or throws an exception of the program. -/
def MethodManager.Regular {ω : Type} (manager : MethodManager ω) : Prop :=
  ∀ name method, manager.find name = some method → ∀ params world,
    (∃ v world', method params world = .ok v world' ∧ v.Sized) ∨
      ∃ e world', method params world = .error (.exception e) world'

namespace Server

variable {ω : Type}

/-! ## What the calls should be answered with -/

/-- A fault: a map with its code and its text. -/
def IsFault (answer : Value) : Prop :=
  ∃ (code : BitVec 32) (text : Bytes) (c : ℕ), answer =
    .map [(ascii "faultCode", .number (.ofInt code)), (ascii "faultString", .string text)] c

/-- The answer to a method that returned: an array with a copy of the result. -/
def IsResult (result answer : Value) : Prop :=
  ∃ copy c, (resultOrEmpty result).copyInternal = .ok copy ∧ answer = .array [copy] c

/-- The method string and the parameters of an entry that has both. -/
def callOf? (entry : Value) : Option (Bytes × Value) :=
  match entry.field? (ascii "methodName"), entry.field? (ascii "params") with
  | some (.string name), some params => some (name, params)
  | _, _ => none

section

variable (nameOf : Bytes → Bytes) (manager : MethodManager ω)

/-- The answer to one entry, and the world behind it, where the method of a method string is the one
that is registered under `nameOf` of it. -/
def AnswersCall (entry : Value) (world : ω) (answer : Value) (world' : ω) : Prop :=
  match callOf? entry with
  | none => world' = world ∧ IsFault answer
  | some (name, params) =>
    match manager.find (nameOf name) with
    | none => world' = world ∧ IsFault answer
    | some method =>
      match method params world with
      | .ok result after => world' = after ∧ IsResult result answer
      | .error _ after => world' = after ∧ IsFault answer

/-- The answers to the entries of an array, one by one. -/
inductive AnswersCalls : List Value → ω → List Value → ω → Prop
  | nil (world : ω) : AnswersCalls [] world [] world
  | cons {entry answer : Value} {entries answers : List Value} {world world₁ world₂ : ω} :
      AnswersCall nameOf manager entry world answer world₁ →
      AnswersCalls entries world₁ answers world₂ →
      AnswersCalls (entry :: entries) world (answer :: answers) world₂

end

/-- There is one answer for each entry. -/
theorem AnswersCalls.length_eq {nameOf : Bytes → Bytes} {manager : MethodManager ω}
    {entries answers : List Value} {world world' : ω}
    (h : AnswersCalls nameOf manager entries world answers world') :
    answers.length = entries.length := by
  induction h with
  | nil world => rfl
  | cons _ _ ih => rw [List.length_cons, List.length_cons, ih]

/-- The answer to an entry, from some world. -/
theorem AnswersCalls.get {nameOf : Bytes → Bytes} {manager : MethodManager ω}
    {entries answers : List Value} {world world' : ω}
    (h : AnswersCalls nameOf manager entries world answers world') {i : ℕ} {entry : Value}
    (hi : entries[i]? = some entry) :
    ∃ answer world₁ world₂, answers[i]? = some answer ∧
      AnswersCall nameOf manager entry world₁ answer world₂ := by
  induction h generalizing i with
  | nil world => cases hi
  | cons hcall _ ih =>
    cases i with
    | zero =>
      cases hi
      exact ⟨_, _, _, rfl, hcall⟩
    | succ i => exact ih hi

/-- Every array of entries is answered, for all methods, by an array of as many answers, of which
each is that of its own entry, with the method whose name is the whole method string. -/
def MultiCallAnswers (entries : List Value) : Prop :=
  ∀ (ω : Type) (manager : MethodManager ω), manager.Regular → ∀ s : Server ω,
    ∃ answers c s', xmlExecuteMultiCall manager entries { server := s } =
        .ok () { server := s', value := .array answers c } ∧
      answers.length = entries.length ∧ AnswersCalls id manager entries s.world answers s'.world

/-! ## One entry -/

/-- The fault value that is built from one that is not yet assigned. -/
theorem xmlGenerateFaultValue_invalid (code : BitVec 32) (text : Bytes) :
    ∃ fault, xmlGenerateFaultValue code text .invalid = .ok () fault ∧ IsFault fault := by
  have hcode : Value.onChild (Value.member (ascii "faultCode"))
      (set (Value.number (.ofInt code))) .invalid =
        .ok () (.map [(ascii "faultCode", .number (.ofInt code))] Value.defaultMapCapacity) :=
    Value.assignMember_invalid (by decide) _
  have hother : ∀ m ∈ [(ascii "faultCode", Value.number (.ofInt code))],
      m.1 ≠ ascii "faultString" := by
    intro m hm
    rw [List.mem_singleton.mp hm]
    show ascii "faultCode" ≠ ascii "faultString"
    decide
  have hroom : [(ascii "faultCode", Value.number (.ofInt code))].length <
      Value.defaultMapCapacity := Nat.lt_of_sub_eq_succ rfl
  have htext := Value.assignMember_of_none (by decide) hother hroom (.string text)
  exact ⟨_, (bind_of_ok hcode).trans htext, code, text, _, rfl⟩

/-- The test for an entry that is no call does not throw. -/
theorem xmlRejected_eq (entry : Value) : xmlRejected entry = .ok (callOf? entry).isNone := by
  have hname : (0 : UInt8) ∉ ascii "methodName" := by decide
  have hparams : (0 : UInt8) ∉ ascii "params" := by decide
  cases entry with
  | map ms c =>
    have hmethod := @Value.hasMember_field? _ ms c hname
    have hhas := @Value.hasMember_field? _ ms c hparams
    have hmap : (Value.map ms c).isMap = true := rfl
    cases hfield : (Value.map ms c).field? (ascii "methodName") with
    | none =>
      rw [hfield] at hmethod
      simp [xmlRejected, callOf?, hfield, hmap, hmethod]
    | some method =>
      obtain ⟨i, hi, hchild⟩ := Value.member_of_field? hname hfield
      rw [hfield] at hmethod
      cases hstring : method.isString with
      | false =>
        have hnone : callOf? (.map ms c) = none := by
          rw [callOf?, hfield]
          cases method <;> first | rfl | cases hstring
        simp [xmlRejected, hnone, hmap, hmethod, hi, hchild, hstring]
      | true =>
        obtain ⟨name, rfl⟩ : ∃ name, method = .string name := by
          cases method <;> first | exact ⟨_, rfl⟩ | cases hstring
        have hcall : (callOf? (.map ms c)).isNone =
            !((Value.map ms c).field? (ascii "params")).isSome := by
          rw [callOf?, hfield]
          cases (Value.map ms c).field? (ascii "params") <;> rfl
        simp [xmlRejected, hcall, hmap, hmethod, hi, hchild, hstring, hhas]
  | _ => rfl

/-- A member of an entry that has it. -/
theorem xmlMember_eq {key : Bytes} {entry v : Value} (hkey : (0 : UInt8) ∉ key)
    (h : entry.field? key = some v) : xmlMember key entry = .ok v := by
  obtain ⟨i, hi, hchild⟩ := Value.member_of_field? hkey h
  simp only [xmlMember, hi, hchild, Option.getD_some]

/-- A step on the answer at an index. -/
theorem onElement_eq {b : Building ω} {op : Exec Value Unit} {es : List Value} {c i : ℕ}
    {x y : Value} (hb : b.value = .array es c) (hx : es[i]? = some x) (hop : op x = .ok () y) :
    onResult (Value.onChild (Value.element i) op) b =
      .ok () { b with value := .array (es.set i y) c } := by
  have hi : i < es.length := (List.getElem?_eq_some_iff.mp hx).1
  have hrun : Value.onChild (Value.element i) op (.array es c) = .ok () (.array (es.set i y) c) :=
    Value.onChild_of_ok (Value.element_array es c hi) hx hop
  rw [onResult, hb, hrun]

/-- The copy of a result takes the place of an answer that is not yet assigned. -/
theorem assignResult_eq {v : Value} (hv : v.Sized) :
    ∃ answer, Value.onChild (Value.element 0) (CopyOp.assign.run (resultOrEmpty v)) .invalid =
      .ok () answer ∧ IsResult v answer := by
  have hsized : (resultOrEmpty v).Sized := by
    rw [resultOrEmpty]
    split_ifs
    · trivial
    · exact hv
  obtain ⟨w, hcopy, -⟩ := Value.copyInternal_ok hsized
  have hfor : CopyOp.assign.IsFor .invalid := fun _ => rfl
  have hop : CopyOp.assign.run (resultOrEmpty v) .invalid = .ok () w := by
    rw [CopyOp.run_eq _ hfor, Value.copyFrom, hcopy]
    rfl
  have helement : Value.element 0 .invalid = .ok 0 (.array [.invalid] 1) := rfl
  exact ⟨_, Value.onChild_of_ok helement (x := .invalid) rfl hop, w, 1, hcopy, rfl⟩

/-- What is left of an entry behind the test, where it is a call. -/
theorem xmlExecuteEntry_of_call (manager : MethodManager ω) (i : ℕ) {entry params : Value}
    {name : Bytes} (hcall : callOf? entry = some (name, params)) (b : Building ω) :
    xmlExecuteEntry manager i entry b =
      catching (do
        match ← onServer (executeMethod manager (cString name) params) with
        | some singleResult =>
          onResult (Value.onChild (Value.element i)
            (Value.onChild (Value.element 0) (CopyOp.assign.run (resultOrEmpty singleResult))))
        | none =>
          onResult (Value.onChild (Value.element i)
            (xmlGenerateFaultValue ErrorCode.methodNotFound (ascii "Method not found"))))
        (fun fault =>
          onResult (Value.onChild (Value.element i)
            (xmlGenerateFaultValue fault.code fault.message))) b := by
  obtain ⟨hname, hparams⟩ : entry.field? (ascii "methodName") = some (.string name) ∧
      entry.field? (ascii "params") = some params := by
    rw [callOf?] at hcall
    split at hcall
    · next hname hparams =>
      cases hcall
      exact ⟨hname, hparams⟩
    · cases hcall
  have hmethod := xmlMember_eq (by decide) hname
  have hmember := xmlMember_eq (by decide) hparams
  simp only [xmlExecuteEntry, xmlExecuteCall, xmlRejected_eq, hcall, Option.isNone_some, hmethod,
    hmember, reading]
  rfl

/-- An entry is answered at its index, and nothing else is. -/
theorem xmlExecuteEntry_answers {manager : MethodManager ω} (hmanager : manager.Regular)
    (entry : Value) {b : Building ω} {es : List Value} {c i : ℕ} (hb : b.value = .array es c)
    (hi : es[i]? = some .invalid) :
    ∃ answer s', xmlExecuteEntry manager i entry b =
        .ok () { server := s', value := .array (es.set i answer) c } ∧
      AnswersCall cString manager entry b.server.world answer s'.world := by
  have hfault (b' : Building ω) (hb' : b'.value = .array es c) (code : BitVec 32) (text : Bytes) :
      ∃ answer, IsFault answer ∧
        onResult (Value.onChild (Value.element i) (xmlGenerateFaultValue code text)) b' =
          .ok () { b' with value := .array (es.set i answer) c } := by
    obtain ⟨fault, hop, hanswer⟩ := xmlGenerateFaultValue_invalid code text
    exact ⟨fault, hanswer, onElement_eq hb' hi hop⟩
  cases hcall : callOf? entry with
  | none =>
    obtain ⟨answer, hanswer, hrun⟩ :=
      hfault b hb ErrorCode.invalidRequest (ascii "Invalid request")
    refine ⟨answer, b.server, ?_, ?_⟩
    · simp only [xmlExecuteEntry, xmlRejected_eq, hcall, Option.isNone_none, reading]
      exact hrun
    · rw [AnswersCall, hcall]
      exact ⟨rfl, hanswer⟩
  | some call =>
    obtain ⟨name, params⟩ := call
    have hrun := xmlExecuteEntry_of_call manager i hcall b
    rw [hrun]
    simp only [AnswersCall, hcall]
    cases hfind : manager.find (cString name) with
    | none =>
      have hexecute : onServer (executeMethod manager (cString name) params) b =
          .ok none { b with server := b.server.after (cString name, params) b.server.world } :=
        onServer_of_ok (executeMethod_of_none hfind)
      obtain ⟨answer, hanswer, hstep⟩ := hfault
        { b with server := b.server.after (cString name, params) b.server.world } hb
        ErrorCode.methodNotFound (ascii "Method not found")
      exact ⟨answer, _, catching_of_ok ((bind_of_ok hexecute).trans hstep), rfl, hanswer⟩
    | some method =>
      rcases hmanager _ method hfind params b.server.world with
        ⟨v, world, hmethod, hv⟩ | ⟨e, world, hmethod⟩
      · have hexecute := onServer_of_ok (b := b) (executeMethod_of_ok hfind hmethod)
        obtain ⟨answer, hop, hanswer⟩ := assignResult_eq hv
        have hstep := onElement_eq
          (b := { b with server := b.server.after (cString name, params) world }) hb hi hop
        refine ⟨answer, _, catching_of_ok ((bind_of_ok hexecute).trans hstep), ?_⟩
        simp only [hmethod]
        exact ⟨rfl, hanswer⟩
      · have hexecute := onServer_of_error (b := b) (executeMethod_of_error hfind hmethod)
        obtain ⟨answer, hanswer, hstep⟩ := hfault
          { b with server := b.server.after (cString name, params) world } hb e.code e.message
        refine ⟨answer, _, (catching_of_exception (bind_of_error hexecute)).trans hstep, ?_⟩
        simp only [hmethod]
        exact ⟨rfl, hanswer⟩

/-- The answers that are there stay, and the entries that are left are answered behind them. -/
theorem xmlExecuteEntries_answers {manager : MethodManager ω} (hmanager : manager.Regular)
    (entries : List Value) {b : Building ω} {answers : List Value} {c : ℕ}
    (hb : b.value = .array (answers ++ List.replicate entries.length .invalid) c) :
    ∃ more s', xmlExecuteEntries manager entries answers.length b =
        .ok () { server := s', value := .array (answers ++ more) c } ∧
      AnswersCalls cString manager entries b.server.world more s'.world := by
  induction entries generalizing b answers with
  | nil =>
    refine ⟨[], b.server, ?_, .nil _⟩
    rw [List.length_nil, List.replicate_zero] at hb
    rw [xmlExecuteEntries, ← hb]
    rfl
  | cons entry entries ih =>
    rw [List.length_cons, List.replicate_succ] at hb
    have hi : (answers ++ Value.invalid :: List.replicate entries.length Value.invalid)[answers.length]? =
        some .invalid := by simp
    obtain ⟨answer, s₁, hstep, hanswer⟩ := xmlExecuteEntry_answers hmanager entry hb hi
    have hset : (answers ++ Value.invalid :: List.replicate entries.length Value.invalid).set
        answers.length answer =
          (answers ++ [answer]) ++ List.replicate entries.length Value.invalid := by simp
    rw [hset] at hstep
    have hlen : (answers ++ [answer]).length = answers.length + 1 := by simp
    have hb₁ : ({ server := s₁, value := .array ((answers ++ [answer]) ++
        List.replicate entries.length .invalid) c } : Building ω).value = .array ((answers ++
          [answer]) ++ List.replicate entries.length .invalid) c := rfl
    obtain ⟨more, s', hrun, hmore⟩ := ih hb₁
    rw [hlen] at hrun
    refine ⟨answer :: more, s', ?_, .cons hanswer hmore⟩
    rw [xmlExecuteEntries, bind_of_ok hstep, hrun]
    simp

/-! ## All entries -/

/-- The entries are answered, each by the method whose name is the method string up to its first
null byte. -/
theorem xmlExecuteMultiCall_answers {manager : MethodManager ω} (hmanager : manager.Regular)
    {entries : List Value} (hentries : entries.length < Value.maxArrayCapacity) (s : Server ω) :
    ∃ answers c s', xmlExecuteMultiCall manager entries { server := s } =
        .ok () { server := s', value := .array answers c } ∧
      AnswersCalls cString manager entries s.world answers s'.world := by
  let b : Building ω :=
    { server := s, value := .array (List.replicate entries.length .invalid) entries.length }
  have hsize : onResult (Value.setSize entries.length) ({ server := s } : Building ω) = .ok () b := by
    have hset : Value.setSize entries.length .invalid =
        Value.setSize entries.length (.array [] 0) := rfl
    rw [onResult, hset, Value.setSize_array [] 0 hentries]
    simp [b]
  have hb : b.value = .array ([] ++ List.replicate entries.length .invalid) entries.length := rfl
  obtain ⟨answers, s', hrun, hanswers⟩ := xmlExecuteEntries_answers hmanager entries hb
  refine ⟨answers, entries.length, s', ?_, hanswers⟩
  rw [xmlExecuteMultiCall, bind_of_ok hsize]
  exact hrun

/-- Answers that are the same for both ways of looking up the methods. -/
theorem AnswersCalls.congr {nameOf nameOf' : Bytes → Bytes} {manager : MethodManager ω}
    {entries answers : List Value} {world world' : ω}
    (hentries : ∀ entry ∈ entries, ∀ name params, callOf? entry = some (name, params) →
      nameOf' name = nameOf name)
    (h : AnswersCalls nameOf manager entries world answers world') :
    AnswersCalls nameOf' manager entries world answers world' := by
  induction h with
  | nil world => exact .nil world
  | @cons entry answer entries answers world world₁ world₂ hcall _ ih =>
    refine .cons ?_ (ih fun e he => hentries e (List.mem_cons_of_mem _ he))
    cases hentry : callOf? entry with
    | none =>
      rw [AnswersCall, hentry] at hcall ⊢
      exact hcall
    | some call =>
      have hname := hentries entry List.mem_cons_self call.1 call.2 hentry
      simp only [AnswersCall, hentry] at hcall ⊢
      rw [hname]
      exact hcall

/-- A server that has one method, which returns null. -/
def oneMethod (name : Bytes) : MethodManager Unit where
  find n := if n = name then some fun _ => pure .null else none

theorem regular_oneMethod (name : Bytes) : (oneMethod name).Regular := by
  intro n method hfind params world
  have hmethod : method = fun _ => pure .null := by
    simp only [oneMethod] at hfind
    split_ifs at hfind
    exact (Option.some.inj hfind).symm
  exact .inl ⟨.null, world, by rw [hmethod]; rfl, trivial⟩

/-- An entry whose method string has a null byte runs the method of another name. -/
theorem not_multiCallAnswers {entries : List Value} (hentries : entries.length < Value.maxArrayCapacity)
    {entry params : Value} {name : Bytes} (hentry : entry ∈ entries)
    (hcall : callOf? entry = some (name, params)) (hname : (0 : UInt8) ∈ name) :
    ¬ MultiCallAnswers entries := by
  intro h
  have hregular := regular_oneMethod (cString name)
  obtain ⟨answers, c, s', hrun, hanswers⟩ :=
    xmlExecuteMultiCall_answers hregular hentries { world := () }
  obtain ⟨answers', c', s'', hrun', -, hanswers'⟩ := h Unit _ hregular { world := () }
  rw [hrun] at hrun'
  cases hrun'
  obtain ⟨i, hi⟩ := List.mem_iff_getElem?.mp hentry
  obtain ⟨answer, _, _, hanswer, hresult⟩ := hanswers.get hi
  obtain ⟨answer', _, _, hanswer', hfault⟩ := hanswers'.get hi
  cases hanswer.symm.trans hanswer'
  have hfind : (oneMethod (cString name)).find (cString name) = some fun _ => pure .null := if_pos rfl
  have hnone : (oneMethod (cString name)).find (id name) = none :=
    if_neg fun h => (cString_eq_self.mp h.symm) hname
  simp only [AnswersCall, hcall, hfind] at hresult
  simp only [AnswersCall, hcall, hnone] at hfault
  obtain ⟨-, copy, c, -, rfl⟩ := hresult
  obtain ⟨-, code, text, c, hmap⟩ := hfault
  cases hmap

/-- For all methods, an array of entries is answered by as many answers, each of which is that of its
own entry: the copy of the result, or a fault. This holds exactly when no method string of a call has a
null byte, for the methods are looked up under the name up to the first one. -/
theorem multiCallAnswers_iff {entries : List Value}
    (hentries : entries.length < Value.maxArrayCapacity) :
    MultiCallAnswers entries ↔
      ∀ entry ∈ entries, ∀ name params, callOf? entry = some (name, params) → (0 : UInt8) ∉ name := by
  constructor
  · intro h entry hentry name params hcall hname
    exact not_multiCallAnswers hentries hentry hcall hname h
  · intro hnames ω manager hmanager s
    obtain ⟨answers, c, s', hrun, hanswers⟩ := xmlExecuteMultiCall_answers hmanager hentries s
    refine ⟨answers, c, s', hrun, hanswers.length_eq, hanswers.congr ?_⟩
    intro entry hentry name params hcall
    exact (cString_of_notMem (hnames entry hentry name params hcall)).symm

/-- A call of a method. -/
def callOf (name : Bytes) : Value :=
  .map [(ascii "methodName", .string name), (ascii "params", .array [] 0)] 16

/-- A call, and an entry that is none. -/
theorem multiCallAnswers_two : MultiCallAnswers [callOf [0x61], .null] :=
  (multiCallAnswers_iff (by decide)).mpr (by
    intro entry hentry name params hcall
    rcases List.mem_cons.mp hentry with rfl | hentry
    · have hname : callOf? (callOf [0x61]) = some ([0x61], .array [] 0) := rfl
      cases hname.symm.trans hcall
      decide
    · cases List.mem_singleton.mp hentry
      cases hcall)

/-- A call of a method with a null byte in its method string, which is the name of another one. -/
theorem not_multiCallAnswers_nullName : ¬ MultiCallAnswers [callOf [0x61, 0, 0x62]] := by
  have hcall : callOf? (callOf [0x61, 0, 0x62]) = some ([0x61, 0, 0x62], .array [] 0) := rfl
  exact not_multiCallAnswers (by decide) List.mem_cons_self hcall (by decide)

end Server

end AnyRpc
