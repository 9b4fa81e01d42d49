import AnyRpc.Foundation.Platform
import AnyRpc.Handler.Event
import AnyRpc.Internal.Base64
import AnyRpc.Value.Container

/-! # Document

The handler that builds a `Value`. The entries of its stack are pointers into the value under
construction: each is the position of what it points to, and the last one is where the next call
applies. -/

namespace AnyRpc

open Library

/-- The state of a `Document`. -/
structure Document where
  /-- `value_`: the data for the document. -/
  value : Value := .invalid
  /-- `stack_`, its last entry first. -/
  stack : List Path := []
  /-- Whether to automatically convert extensions to base types. -/
  convertExtensions : Bool := true
  deriving Repr

namespace Document

/-! ## The stack -/

/-- An operation on `*stack_.back()`. -/
def onBack {α : Type} (op : Exec Value α) : Exec Document α := fun d =>
  match d.stack with
  | [] => .error .undefined d
  | p :: _ =>
    match Nested.get? p d.value with
    | none => .error .undefined d
    | some v =>
      match op v with
      | .ok a v' => .ok a { d with value := Nested.put p d.value v' }
      | .error f v' => .error f { d with value := Nested.put p d.value v' }

/-- `stack_.pop_back()`. -/
def popBack : Exec Document Unit := fun d =>
  match d.stack with
  | [] => .error .undefined d
  | _ :: l => .ok () { d with stack := l }

/-- Push the pointer to a child of `*stack_.back()`. -/
def pushChild (index : ℕ) : Exec Document Unit := fun d =>
  match d.stack with
  | [] => .error .undefined d
  | p :: l => .ok () { d with stack := (p ++ [index]) :: p :: l }

/-! ## Scalars -/

/-- The assertion that a value is not yet assigned. -/
def assertInvalid : Exec Value Unit := do
  let v ← get
  anyrpcAssert v.isInvalid ErrorCode.accessNotInvalidValue
    (ascii "Not invalid, type=" ++ decimal v.getType)

/-- The common body of the calls that assign `*stack_.back()`. -/
def assign (value : Value) : Exec Document Unit := onBack do
  assertInvalid
  set value

def null : Exec Document Unit := assign .null
def boolTrue : Exec Document Unit := assign (.bool true)
def boolFalse : Exec Document Unit := assign (.bool false)
def int (i : BitVec 32) : Exec Document Unit := assign (.number (.ofInt i))
def uint (u : BitVec 32) : Exec Document Unit := assign (.number (.ofUint u))
def int64 (i64 : BitVec 64) : Exec Document Unit := assign (.number (.ofInt64 i64))
def uint64 (u64 : BitVec 64) : Exec Document Unit := assign (.number (.ofUint64 u64))
def double (d : BitVec 64) : Exec Document Unit := assign (.number (.ofDouble d))
def dateTime (dt : ℤ) : Exec Document Unit := assign (.dateTime dt)
def binary (str : StrArg) : Exec Document Unit := assign (.binary str.bytes)

/-- `String`: a string that is referenced must be terminated. -/
def string (str : StrArg) : Exec Document Unit := onBack do
  assertInvalid
  Value.checkTerminated str
  set (Value.string str.bytes)

/-! ## Maps -/

/-- The assertion that a value is a map. -/
def assertMap : Exec Value Unit := do
  let v ← get
  anyrpcAssert v.isMap ErrorCode.valueAccess (ascii "Not Map, type=" ++ decimal v.getType)

def startMap : Exec Document Unit := onBack do
  assertInvalid
  Value.setMap

def key (str : StrArg) : Exec Document Unit := do
  let index ← onBack do
    assertMap
    Value.addMember str
  pushChild index

def mapSeparator : Exec Document Unit := do
  popBack
  onBack assertMap

/-- `MemberCount`. -/
def memberCount : Exec Value ℕ := do
  assertMap
  match ← get with
  | .map ms _ => return ms.length
  | _ => return 0

def endMap (count : ℕ) : Exec Document Unit := do
  if count ≠ 0 then
    popBack
  onBack do
    let n ← memberCount
    anyrpcAssert (n = count) ErrorCode.mapCountWrong
      (ascii "Member counts different, call=" ++ decimal count ++ ascii ", value=" ++ decimal n)

/-! ## Arrays -/

def startArray : Exec Document Unit := do
  onBack do
    assertInvalid
    Value.setArray
    Value.pushBack .invalid
  let index ← onBack (Value.element 0)
  pushChild index

def arraySeparator : Exec Document Unit := do
  onBack do
    let v ← get
    anyrpcAssert v.isValid ErrorCode.accessInvalidValue
      (ascii "Not valid, type=" ++ decimal v.getType)
  popBack
  let size ← onBack Value.size
  onBack (Value.pushBack .invalid)
  let index ← onBack (Value.element size)
  pushChild index

/-- `ANYRPC_DATETIME_STRING`. -/
def dateTimeString : Bytes := ascii "AnyRpcDateTime"

/-- `ANYRPC_BASE64_STRING`. -/
def base64String : Bytes := ascii "AnyRpcBase64"

/-- `strncmp(str, name, length) == 0` for the bytes of a string and a literal. -/
def strncmpEq : Bytes → Bytes → Bool
  | [], _ => true
  | c :: _, [] => c = 0
  | c :: str, d :: name => if c ≠ d then false else if c = 0 then true else strncmpEq str name

/-- One conversion `%Nd` of `sscanf`: white space, a sign and digits, the last two within the field
width. -/
def scanInt (width : ℕ) (str : Bytes) : Option (ℤ × Bytes) :=
  let str := str.dropWhile isSpace
  let negative := str.head? = some 0x2d
  let signed := negative || str.head? = some 0x2b
  let rest := if signed then str.tail else str
  let digits := (rest.take (if signed then width - 1 else width)).takeWhile isDigit
  let n : ℕ := digits.foldl (fun n c => 10 * n + (c.toNat - 0x30)) 0
  if digits = [] then none
  else some (if negative then -(n : ℤ) else n, rest.drop digits.length)

/-- A literal character of the format of `sscanf`. -/
def scanChar (c : UInt8) (str : Bytes) : Option Bytes :=
  match str with
  | d :: str => if d = c then some str else none
  | [] => none

/-- `sscanf(str, "%4d%2d%2dT%2d:%2d:%2d", ...)` where all six fields are converted. -/
def scanDateTime (str : Bytes) : Option Tm := do
  let (year, str) ← scanInt 4 str
  let (mon, str) ← scanInt 2 str
  let (mday, str) ← scanInt 2 str
  let str ← scanChar 0x54 str
  let (hour, str) ← scanInt 2 str
  let str ← scanChar 0x3a str
  let (min, str) ← scanInt 2 str
  let str ← scanChar 0x3a str
  let (sec, _) ← scanInt 2 str
  return { year, mon, mday, hour, min, sec }

/-- `ConvertDateTime`, given the string of the second element. -/
def convertDateTime [Platform] (str : Bytes) : Exec Value Unit :=
  match if str.length = 17 then scanDateTime (cString str) else none with
  | some t => set (Value.dateTime (Platform.mktime { t with year := t.year - 1900, mon := t.mon - 1 }))
  | none => anyrpcThrow ErrorCode.termination (ascii "Parsing was terminated")

/-- `ConvertBase64`, given the string of the second element: the string takes the place of the array
and is decoded in place. -/
def convertBase64 (str : Bytes) : Exec Value Unit := do
  set (Value.string str)
  let converted := Internal.base64Decode str
  if converted = [] then
    anyrpcThrow ErrorCode.base64Invalid (ascii "Error during base64 decode")
  else
    set (Value.binary converted)

/-- The conversion of an extension, or else the check of the count, when an array ends. -/
def finishArray [Platform] (convertExtensions : Bool) (count : ℕ) : Exec Value Unit := do
  let n ← Value.size
  match ← get with
  | .array (.string str :: second :: _) _ =>
    if convertExtensions then
      match second with
      | .string data =>
        if strncmpEq str dateTimeString then convertDateTime data
        else if strncmpEq str base64String then convertBase64 data
        else pure ()
      | _ => pure ()
    else
      anyrpcAssert (n = count) ErrorCode.arrayCountWrong
        (ascii "Expected size of " ++ decimal count ++ ascii ", size=" ++ decimal n)
  | _ =>
    anyrpcAssert (n = count) ErrorCode.arrayCountWrong
      (ascii "Expected size of " ++ decimal count ++ ascii ", size=" ++ decimal n)

def endArray [Platform] (count : ℕ) : Exec Document Unit := do
  let last ← onBack get
  if last.isInvalid then
    -- No elements in the array, but there is the invalid value to handle.
    popBack
    onBack do
      let n ← Value.size
      anyrpcAssert (n = 1) ErrorCode.arrayCountWrong
        (ascii "Expected size of 1, size=" ++ decimal n)
      Value.setSize 0
  else
    popBack
    onBack (finishArray (← get).convertExtensions count)

/-! ## The handler -/

/-- `StartDocument`. -/
def startDocument (d : Document) : Document := { d with value := .invalid, stack := [[]] }

/-- `EndDocument`. -/
def endDocument (d : Document) : Document := { d with stack := [] }

/-- The call that delivers a scalar. `Float` is not overridden, so it arrives as a `Double`. -/
def scalar [Platform] : Scalar → Exec Document Unit
  | .null => null
  | .boolTrue => boolTrue
  | .boolFalse => boolFalse
  | .dateTime dt => dateTime dt
  | .string str => string str
  | .binary str => binary str
  | .int i => int i
  | .uint u => uint u
  | .int64 i64 => int64 i64
  | .uint64 u64 => uint64 u64
  | .float f => double (Platform.floatToDouble f)
  | .double d => double d

/-- The counts that `StartMap` and `StartArray` may announce are not used. -/
instance [Platform] : Handler Document where
  handle
    | .scalar s => scalar s
    | .startMap _ => startMap
    | .key str => key str
    | .mapSeparator => mapSeparator
    | .endMap count => endMap count
    | .startArray _ => startArray
    | .arraySeparator => arraySeparator
    | .endArray count => endArray count
  startDocument := startDocument
  endDocument := endDocument

/-! ## Operations at a position -/

/-- The document with another value at a position and another stack. -/
def within (d : Document) (p : Path) (v : Value) (stack : List Path) : Document :=
  { d with value := Nested.put p d.value v, stack }

section

variable {d : Document} {p : Path} {l : List Path} {v₀ : Value}

@[simp] theorem convertExtensions_within (v : Value) (stack : List Path) :
    (d.within p v stack).convertExtensions = d.convertExtensions := rfl

@[simp] theorem stack_within (v : Value) (stack : List Path) :
    (d.within p v stack).stack = stack := rfl

theorem within_within (v w : Value) (s t : List Path) :
    (d.within p v s).within p w t = d.within p w t := by
  simp only [within, Nested.put_put]

/-- A document whose last pointer leads to a value. -/
theorem eq_within (hs : d.stack = p :: l) (hv : Nested.get? p d.value = some v₀) :
    d = d.within p v₀ (p :: l) := by
  rw [within, Nested.put_get? hv, ← hs]

/-- An operation that only reads what the last pointer leads to. -/
theorem onBack_read {α : Type} (op : Exec Value α) {a : α} (hs : d.stack = p :: l)
    (hv : Nested.get? p d.value = some v₀) (hop : op v₀ = .ok a v₀) : onBack op d = .ok a d := by
  simp only [onBack, hs, hv, hop, Nested.put_get? hv]
  rw [← hs]

variable (h₀ : Nested.get? p d.value = some v₀)

include h₀

/-- An operation on what the last pointer leads to. -/
theorem onBack_within {α : Type} (op : Exec Value α) (v : Value) :
    onBack op (d.within p v (p :: l)) = match op v with
      | .ok a w => .ok a (d.within p w (p :: l))
      | .error f w => .error f (d.within p w (p :: l)) := by
  simp only [onBack, within, Nested.get?_put h₀, Nested.put_put]

/-- The outcome of an operation on what the last pointer leads to. -/
theorem outcome_onBack (op : Exec Value Unit) (v : Value) :
    outcome (onBack op) (d.within p v (p :: l)) =
      (outcome op v).map fun w => d.within p w (p :: l) := by
  rw [outcome, outcome, onBack_within h₀]
  cases op v <;> rfl

/-- What a pointer to a child leads to. -/
theorem get?_child (v : Value) (i : ℕ) (s : List Path) :
    Nested.get? (p ++ [i]) (d.within p v s).value = v.child? i := by
  rw [within, Nested.get?_append, Nested.get?_put h₀, Option.bind_some, Nested.get?]
  simp [Nested.get?, Nested.child?]

/-- Assigning a child is assigning the container. -/
theorem within_child {v w : Value} {i : ℕ} (hi : v.child? i = some w) (x : Value)
    (s t : List Path) :
    (d.within p v s).within (p ++ [i]) x t = d.within p (v.setChild i x) t := by
  have hp : Nested.get? p (Nested.put p d.value v) = some v := Nested.get?_put h₀ v
  have hc : Nested.child? v i = some w := hi
  simp only [within, Nested.put_append hp, Nested.put_put, Nested.put_cons hc, Nested.put_nil]
  rfl

end

end Document

end AnyRpc
