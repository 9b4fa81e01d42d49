import AnyRpc.Document.Document
import AnyRpc.Library.Faults

/-! # What a document throws

Every exception that a call of a `Document` throws has an error code, so that none of them is taken
for no error. -/

namespace AnyRpc

open Library

/-- An exception among the faults has an error code. -/
def Fault.Reported (f : Fault) : Prop := ∀ e, f = .exception e → e.code ≠ 0

/-- An exception with an error code. -/
theorem Fault.reported_exception {code : BitVec 32} (hcode : code ≠ 0) (message : Bytes) :
    Fault.Reported (.exception { code, message }) := by
  rintro e ⟨⟩
  exact hcode

/-- Undefined behaviour is no exception. -/
theorem Fault.reported_undefined : Fault.Reported .undefined := nofun

/-- Neither is a bound that is too small. -/
theorem Fault.reported_outOfFuel : Fault.Reported .outOfFuel := nofun

section

variable {σ α : Type}

/-- `anyrpc_throw` with an error code. -/
theorem reported_anyrpcThrow {code : BitVec 32} (hcode : code ≠ 0) (message : Bytes) :
    FailsWith Fault.Reported (anyrpcThrow code message : Exec σ α) :=
  .throw (Fault.reported_exception hcode message)

/-- `anyrpc_assert` with an error code. -/
theorem reported_anyrpcAssert (condition : Bool) {code : BitVec 32} (hcode : code ≠ 0)
    (message : Bytes) :
    FailsWith Fault.Reported (anyrpcAssert condition code message : Exec σ Unit) :=
  .ite (fun _ => .of_ok fun s => ⟨_, s, rfl⟩) fun _ => reported_anyrpcThrow hcode message

end

namespace Value

/-! ## Containers -/

/-- An assertion on the type of the value. -/
theorem reported_assertArray : FailsWith Fault.Reported assertArray :=
  .bind (.of_ok fun _ => ⟨_, _, rfl⟩) fun _ => reported_anyrpcAssert _ (by decide) _

/-- `SetMap` throws nothing. -/
theorem reported_setMap : FailsWith Fault.Reported setMap := .of_ok fun _ => ⟨_, _, rfl⟩

/-- `SetArray` throws nothing. -/
theorem reported_setArray : FailsWith Fault.Reported setArray := .of_ok fun _ => ⟨_, _, rfl⟩

/-- The assertion that a string is terminated. -/
theorem reported_checkTerminated (str : StrArg) : FailsWith Fault.Reported (checkTerminated str) :=
  reported_anyrpcAssert _ (by decide) _

/-- What follows a step that is not always made. -/
theorem failsWith_ite_bind {c : Prop} [Decidable c] {p : Exec Value Unit}
    {next : Unit → Exec Value Unit} (hp : FailsWith Fault.Reported p)
    (hnext : ∀ u, FailsWith Fault.Reported (next u)) :
    FailsWith Fault.Reported (if c then p >>= next else next ()) :=
  .ite (fun _ => .bind hp hnext) fun _ => hnext ()

/-- What follows the one of two steps that is made. -/
theorem failsWith_ite_bind_bind {c : Prop} [Decidable c] {p q : Exec Value Unit}
    {next : Unit → Exec Value Unit} (hp : FailsWith Fault.Reported p)
    (hq : FailsWith Fault.Reported q) (hnext : ∀ u, FailsWith Fault.Reported (next u)) :
    FailsWith Fault.Reported (if c then p >>= next else q >>= next) :=
  .ite (fun _ => .bind hp hnext) fun _ => .bind hq hnext

/-- `AddMemberCheckCapacity` asserts that the value is a map, and that it is not too large. -/
theorem reported_addMemberCheckCapacity : FailsWith Fault.Reported addMemberCheckCapacity := by
  refine .bind (.of_ok fun _ => ⟨_, _, rfl⟩) fun v => failsWith_ite_bind_bind reported_setMap
    (reported_anyrpcAssert _ (by decide) _) fun _ => .bind (.of_ok fun _ => ⟨_, _, rfl⟩) fun w => ?_
  cases w with
  | map ms c =>
    exact .bind (.of_ok fun _ => ⟨_, _, rfl⟩) fun _ => reported_anyrpcAssert _ (by decide) _
  | _ => exact .of_ok fun _ => ⟨_, _, rfl⟩

/-- `AddMember` of a key. -/
theorem reported_addMember (str : StrArg) : FailsWith Fault.Reported (addMember str) := by
  refine .bind reported_addMemberCheckCapacity fun _ => ?_
  refine .bind (reported_checkTerminated str) fun _ => ?_
  refine .bind (.of_ok fun _ => ⟨_, _, rfl⟩) fun v => ?_
  cases v with
  | map ms c => exact .of_ok fun _ => ⟨_, _, rfl⟩
  | _ => exact .of_ok fun _ => ⟨_, _, rfl⟩

/-- `Size` asserts that the value is an array. -/
theorem reported_size : FailsWith Fault.Reported size := by
  refine .bind reported_assertArray fun _ => .bind (.of_ok fun _ => ⟨_, _, rfl⟩) fun v => ?_
  cases v with
  | array es c => exact .of_ok fun _ => ⟨_, _, rfl⟩
  | _ => exact .of_ok fun _ => ⟨_, _, rfl⟩

/-- `Reserve` asserts that the capacity is within the limit. -/
theorem reported_reserve (newCapacity : ℕ) : FailsWith Fault.Reported (reserve newCapacity) := by
  refine .bind reported_assertArray fun _ => .bind (reported_anyrpcAssert _ (by decide) _) fun _ =>
    .bind (.of_ok fun _ => ⟨_, _, rfl⟩) fun v => ?_
  cases v with
  | array es c => exact .of_ok fun _ => ⟨_, _, rfl⟩
  | _ => exact .of_ok fun _ => ⟨_, _, rfl⟩

/-- `SetSize` asserts that the size is within the limit. -/
theorem reported_setSize (newSize : ℕ) : FailsWith Fault.Reported (setSize newSize) := by
  refine .bind (.of_ok fun _ => ⟨_, _, rfl⟩) fun v => failsWith_ite_bind reported_setArray fun _ =>
    .bind reported_assertArray fun _ => .bind (reported_anyrpcAssert _ (by decide) _)
      fun _ => .bind (.of_ok fun _ => ⟨_, _, rfl⟩) fun w => ?_
  cases w with
  | array es c => exact .of_ok fun _ => ⟨_, _, rfl⟩
  | _ => exact .of_ok fun _ => ⟨_, _, rfl⟩

/-- `operator[]` asserts that the element is there, behind `SetSize`. -/
theorem reported_element (index : ℕ) : FailsWith Fault.Reported (element index) := by
  have hlast : FailsWith Fault.Reported (do
      let n ← size
      anyrpcAssert (index < n) ErrorCode.illegalArrayAccess
        (ascii "Illegal index, size=" ++ decimal n ++ ascii ", index=" ++ decimal index)
      return index : Exec Value ℕ) :=
    .bind reported_size fun _ => .bind (reported_anyrpcAssert _ (by decide) _) fun _ =>
      .of_ok fun _ => ⟨_, _, rfl⟩
  have hrest : FailsWith Fault.Reported (do
      assertArray
      if (← size) ≤ index then
        setSize ((index + 1) % 2 ^ 64)
      let n ← size
      anyrpcAssert (index < n) ErrorCode.illegalArrayAccess
        (ascii "Illegal index, size=" ++ decimal n ++ ascii ", index=" ++ decimal index)
      return index : Exec Value ℕ) :=
    .bind reported_assertArray fun _ => .bind reported_size fun _ =>
      .ite (fun _ => .bind (reported_setSize _) fun _ => hlast) fun _ => hlast
  exact .bind (.of_ok fun _ => ⟨_, _, rfl⟩) fun _ =>
    .ite (fun _ => .bind reported_setArray fun _ => hrest) fun _ => hrest

/-- `PushBack`, which may have to reserve. -/
theorem reported_pushBack (value : Value) : FailsWith Fault.Reported (pushBack value) := by
  refine .bind reported_assertArray fun _ => .bind (.of_ok fun _ => ⟨_, _, rfl⟩) fun v => ?_
  cases v with
  | array es c =>
    refine failsWith_ite_bind (reported_reserve _) fun _ => .bind (.of_ok fun _ => ⟨_, _, rfl⟩)
      fun w => ?_
    cases w with
    | array es c => exact .of_ok fun _ => ⟨_, _, rfl⟩
    | _ => exact .of_ok fun _ => ⟨_, _, rfl⟩
  | _ =>
    refine .bind (.of_ok fun _ => ⟨_, _, rfl⟩) fun w => ?_
    cases w with
    | array es c => exact .of_ok fun _ => ⟨_, _, rfl⟩
    | _ => exact .of_ok fun _ => ⟨_, _, rfl⟩

end Value

namespace Document

/-! ## Calls -/

/-- An operation on the value on the top, which has to be there. -/
theorem reported_onBack {α : Type} {op : Exec Value α} (h : FailsWith Fault.Reported op) :
    FailsWith Fault.Reported (onBack op) := by
  intro d f d' herror
  rw [onBack] at herror
  split at herror
  · cases herror
    exact Fault.reported_undefined
  · split at herror
    · cases herror
      exact Fault.reported_undefined
    · next v _ =>
      split at herror
      · cases herror
      · next hop =>
        cases herror
        exact h v f _ hop

/-- Without a value on the top there is no defined behaviour. -/
theorem reported_popBack : FailsWith Fault.Reported popBack := by
  intro d f d' herror
  rw [popBack] at herror
  split at herror
  · cases herror
    exact Fault.reported_undefined
  · cases herror

/-- The same for a value that is pushed. -/
theorem reported_pushChild (index : ℕ) : FailsWith Fault.Reported (pushChild index) := by
  intro d f d' herror
  rw [pushChild] at herror
  split at herror
  · cases herror
    exact Fault.reported_undefined
  · cases herror

/-- The assertion that the value on the top is not yet assigned. -/
theorem reported_assertInvalid : FailsWith Fault.Reported assertInvalid :=
  .bind (.of_ok fun _ => ⟨_, _, rfl⟩) fun _ => reported_anyrpcAssert _ (by decide) _

/-- The assertion that the value on the top is a map. -/
theorem reported_assertMap : FailsWith Fault.Reported assertMap :=
  .bind (.of_ok fun _ => ⟨_, _, rfl⟩) fun _ => reported_anyrpcAssert _ (by decide) _

/-- The calls that deliver a scalar but a string. -/
theorem reported_assign (value : Value) : FailsWith Fault.Reported (assign value) :=
  reported_onBack (.bind reported_assertInvalid fun _ => .of_ok fun _ => ⟨_, _, rfl⟩)

/-- `String` asserts as well that the string is terminated. -/
theorem reported_string (str : StrArg) : FailsWith Fault.Reported (string str) :=
  reported_onBack (.bind reported_assertInvalid fun _ =>
    .bind (Value.reported_checkTerminated str) fun _ => .of_ok fun _ => ⟨_, _, rfl⟩)

/-- Every call that delivers a scalar. -/
theorem reported_scalar [Platform] (s : Scalar) : FailsWith Fault.Reported (scalar s) := by
  cases s with
  | string str => exact reported_string str
  | _ => exact reported_assign _

/-- `MemberCount` asserts that the value is a map. -/
theorem reported_memberCount : FailsWith Fault.Reported memberCount := by
  refine .bind reported_assertMap fun _ => .bind (.of_ok fun _ => ⟨_, _, rfl⟩) fun v => ?_
  cases v with
  | map ms c => exact .of_ok fun _ => ⟨_, _, rfl⟩
  | _ => exact .of_ok fun _ => ⟨_, _, rfl⟩

/-- `EndMap` asserts that the members are as many as the reader says. -/
theorem reported_endMap (count : ℕ) : FailsWith Fault.Reported (endMap count) := by
  have hrest : FailsWith Fault.Reported (onBack do
      let n ← memberCount
      anyrpcAssert (n = count) ErrorCode.mapCountWrong
        (ascii "Member counts different, call=" ++ decimal count ++ ascii ", value=" ++ decimal n)) :=
    reported_onBack (.bind reported_memberCount fun _ => reported_anyrpcAssert _ (by decide) _)
  exact .ite (fun _ => .bind reported_popBack fun _ => hrest) fun _ => hrest

/-- `StartArray` makes room for a first element. -/
theorem reported_startArray : FailsWith Fault.Reported startArray := by
  refine .bind (reported_onBack (.bind reported_assertInvalid fun _ =>
    .bind Value.reported_setArray fun _ => Value.reported_pushBack _)) fun _ => ?_
  exact .bind (reported_onBack (Value.reported_element 0)) fun index => reported_pushChild index

/-- `ArraySeparator` makes room for another element. -/
theorem reported_arraySeparator : FailsWith Fault.Reported arraySeparator := by
  refine .bind (reported_onBack (.bind (.of_ok fun _ => ⟨_, _, rfl⟩) fun _ =>
    reported_anyrpcAssert _ (by decide) _)) fun _ => .bind reported_popBack fun _ => ?_
  refine .bind (reported_onBack Value.reported_size) fun size => ?_
  refine .bind (reported_onBack (Value.reported_pushBack _)) fun _ => ?_
  exact .bind (reported_onBack (Value.reported_element size)) fun index => reported_pushChild index

/-- A date and time that is not read throws. -/
theorem reported_convertDateTime [Platform] (str : Bytes) :
    FailsWith Fault.Reported (convertDateTime str) := by
  rw [convertDateTime]
  split
  · exact .of_ok fun _ => ⟨_, _, rfl⟩
  · exact reported_anyrpcThrow (by decide) _

/-- A text that is not decoded throws. -/
theorem reported_convertBase64 (str : Bytes) : FailsWith Fault.Reported (convertBase64 str) :=
  .bind (.of_ok fun _ => ⟨_, _, rfl⟩) fun _ =>
    .ite (fun _ => reported_anyrpcThrow (by decide) _) fun _ => .of_ok fun _ => ⟨_, _, rfl⟩

/-- The elements of an array are as many as the reader says, or they are converted. -/
theorem reported_finishArray [Platform] (convertExtensions : Bool) (count : ℕ) :
    FailsWith Fault.Reported (finishArray convertExtensions count) := by
  refine .bind Value.reported_size fun n => .bind (.of_ok fun _ => ⟨_, _, rfl⟩) fun v => ?_
  split
  · refine .ite (fun _ => ?_) fun _ => reported_anyrpcAssert _ (by decide) _
    split
    · exact .ite (fun _ => reported_convertDateTime _) fun _ =>
        .ite (fun _ => reported_convertBase64 _) fun _ => .of_ok fun _ => ⟨_, _, rfl⟩
    · exact .of_ok fun _ => ⟨_, _, rfl⟩
  · exact reported_anyrpcAssert _ (by decide) _

/-- `EndArray`, with or without an element that was not assigned. -/
theorem reported_endArray [Platform] (count : ℕ) : FailsWith Fault.Reported (endArray count) := by
  refine .bind (reported_onBack (.of_ok fun _ => ⟨_, _, rfl⟩)) fun last => .ite (fun _ => ?_) fun _ => ?_
  · exact .bind reported_popBack fun _ => reported_onBack (.bind Value.reported_size fun _ =>
      .bind (reported_anyrpcAssert _ (by decide) _) fun _ => Value.reported_setSize 0)
  · exact .bind reported_popBack fun _ => .bind (.of_ok fun _ => ⟨_, _, rfl⟩) fun _ =>
      reported_onBack (reported_finishArray _ count)

/-- Every call of a document. -/
theorem reported_handle [Platform] (e : Event) :
    FailsWith Fault.Reported (Handler.handle e : Exec Document Unit) := by
  cases e with
  | scalar s => exact reported_scalar s
  | startMap _ => exact reported_onBack (.bind reported_assertInvalid fun _ => Value.reported_setMap)
  | key str =>
    exact .bind (reported_onBack (.bind reported_assertMap fun _ => Value.reported_addMember str))
      fun index => reported_pushChild index
  | mapSeparator => exact .bind reported_popBack fun _ => reported_onBack reported_assertMap
  | endMap count => exact reported_endMap count
  | startArray _ => exact reported_startArray
  | arraySeparator => exact reported_arraySeparator
  | endArray count => exact reported_endArray count

end Document

end AnyRpc
