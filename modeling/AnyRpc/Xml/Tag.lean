import AnyRpc.Reader.Number

/-! # XML tags

The tags of XML-RPC, as `XmlReader` finds them in the text. A tag is a name of the table with the
way in which it is written; any other name is `invalid`. -/

namespace AnyRpc

open Library

/-- The names of `xmlTagList`, in its order. -/
inductive XmlTagName where
  | value
  | boolean
  | double
  | int
  | i4
  | i8
  | string
  | dateTime
  | base64
  | nil
  | array
  | data
  | struct
  | member
  | name
  | methodCall
  | methodName
  | methodResponse
  | params
  | param
  | fault
  | invalid
  deriving DecidableEq, Repr

namespace XmlTagName

/-- `tagName`. -/
def text : XmlTagName → Bytes
  | value => ascii "value"
  | boolean => ascii "boolean"
  | double => ascii "double"
  | int => ascii "int"
  | i4 => ascii "i4"
  | i8 => ascii "i8"
  | string => ascii "string"
  | dateTime => ascii "dateTime.iso8601"
  | base64 => ascii "base64"
  | nil => ascii "nil"
  | array => ascii "array"
  | data => ascii "data"
  | struct => ascii "struct"
  | member => ascii "member"
  | name => ascii "name"
  | methodCall => ascii "methodCall"
  | methodName => ascii "methodName"
  | methodResponse => ascii "methodResponse"
  | params => ascii "params"
  | param => ascii "param"
  | fault => ascii "fault"
  | invalid => []

/-- The entries of `xmlTagList` before the last one. -/
def table : List XmlTagName :=
  [value, boolean, double, int, i4, i8, string, dateTime, base64, nil, array, data, struct, member,
    name, methodCall, methodName, methodResponse, params, param, fault]

end XmlTagName

/-- A member of `XmlTagEnum`: every name has a tag, an end tag and an empty tag. -/
inductive XmlTag where
  /-- `<name>` -/
  | start (n : XmlTagName)
  /-- `</name>` -/
  | close (n : XmlTagName)
  /-- `<name/>` -/
  | empty (n : XmlTagName)
  deriving DecidableEq, Repr

namespace XmlTag

/-- `invalidTag`. -/
def invalidTag : XmlTag := start .invalid

/-- `TagToString`. -/
def toText : XmlTag → Bytes
  | start n => ascii "<" ++ n.text ++ ascii ">"
  | close n => ascii "</" ++ n.text ++ ascii ">"
  | empty n => ascii "<" ++ n.text ++ ascii "/>"

/-- `MaxXmlTagLength`. -/
def maxLength : ℕ := 100

/-- A fault of the tags themselves. -/
def fault (message : Bytes) : Fault := .exception { code := ErrorCode.tagInvalid, message }

/-- The loop over the characters of a tag: what is before the first white space is its name. The
result tells whether the tag is an empty one. -/
def scan (endTagMarkFound : Bool) (tagStr : Bytes) (tagEndFound : Bool) :
    Exec Bytes (Bytes × Bool)
  | [] => .error (.exception { code := ErrorCode.termination
                               message := ascii "Parsing was terminated: expected > found EOF" }) []
  | c :: s =>
    if c = 0x3e then .ok (tagStr, false) s
    else if c = 0x2f then
      if endTagMarkFound then .error (fault (ascii "Parse error with xml tag: missing >")) s
      else if s.headD 0 ≠ 0x3e then
        .error (fault (ascii "Parse error with xml tag: missing >")) s.tail
      else .ok (tagStr, true) s.tail
    else if isSpace c then
      if tagStr = [] then
        .error (fault (ascii "Parse error with xml tag: white space before tag name")) s
      else scan endTagMarkFound tagStr true s
    else if tagEndFound then scan endTagMarkFound tagStr tagEndFound s
    else if maxLength ≤ tagStr.length + 1 then
      .error (fault (ascii "Parse error with xml tag: tag name too long")) s
    else scan endTagMarkFound (tagStr ++ [c]) tagEndFound s

/-- The search of the table for the name of a tag. -/
def lookup (endTagMarkFound emptyTagMarkFound : Bool) (tagStr : Bytes) : XmlTag :=
  match XmlTagName.table.find? fun n => n.text = tagStr with
  | some n => if endTagMarkFound then close n else if emptyTagMarkFound then empty n else start n
  | none => invalidTag

/-- The part of `GetNextTag` behind the `<`. -/
def read : Exec Bytes XmlTag := do
  let endTagMarkFound := (← Text.peek) = 0x2f
  if endTagMarkFound then
    let _ ← Text.get
  let (tagStr, emptyTagMarkFound) ← scan endTagMarkFound [] false
  return lookup endTagMarkFound emptyTagMarkFound tagStr

/-- Behind its `/` an end tag is scanned. -/
theorem read_slash (t : Bytes) :
    read (0x2f :: t) = (do
      let (tagStr, emptyTagMarkFound) ← scan true [] false
      return lookup true emptyTagMarkFound tagStr) t := by
  simp [read]

theorem read_of_ne {t : Bytes} (h : t.head? ≠ some 0x2f) :
    read t = (do
      let (tagStr, emptyTagMarkFound) ← scan false [] false
      return lookup false emptyTagMarkFound tagStr) t := by
  have hne : t.head?.getD 0 ≠ 0x2f := by
    cases t with
    | nil => decide
    | cons c t => exact fun hc => h (congrArg some hc)
  simp [read, hne]

end XmlTag

end AnyRpc
