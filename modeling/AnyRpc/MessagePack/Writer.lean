import AnyRpc.Document.Document
import AnyRpc.Handler.EventTree
import AnyRpc.Library.BigEndian
import AnyRpc.MessagePack.Format

/-! # The MessagePack writer

What `MessagePackWriter` writes on each call, and the encoding of a whole value
(`Value.messagePack`). The four calls for integers agree on the integers that they share. -/

namespace AnyRpc

open Library Handler

/-- `MessagePackWriter`, with what is written to its stream. -/
structure MessagePackWriter where
  os : Bytes := []
  deriving DecidableEq, Repr

namespace MessagePackWriter

open MessagePack

/-! ## Numbers -/

/-- `WriteUint`. -/
def writeUint (u : BitVec 32) : Bytes :=
  if u.toNat < 2 ^ 8 then
    if u.toNat < 2 ^ 7 then [UInt8.ofNat u.toNat]
    else [Format.uint8, UInt8.ofNat u.toNat]
  else
    if u.toNat < 2 ^ 16 then Format.uint16 :: bigEndian 2 u.toNat
    else Format.uint32 :: bigEndian 4 u.toNat

/-- `WriteUint64`. -/
def writeUint64 (u64 : BitVec 64) : Bytes :=
  if u64.toNat < 2 ^ 8 then
    if u64.toNat < 2 ^ 7 then [UInt8.ofNat u64.toNat]
    else [Format.uint8, UInt8.ofNat u64.toNat]
  else
    if u64.toNat < 2 ^ 16 then Format.uint16 :: bigEndian 2 u64.toNat
    else if u64.toNat < 2 ^ 32 then Format.uint32 :: bigEndian 4 u64.toNat
    else Format.uint64 :: bigEndian 8 u64.toNat

/-- `Int`. -/
def int (i : BitVec 32) : Bytes :=
  if i.toInt < -2 ^ 5 then
    if i.toInt < -2 ^ 15 then Format.int32 :: bigEndian 4 i.toNat
    else if i.toInt < -2 ^ 7 then Format.int16 :: bigEndian 2 i.toNat
    else [Format.int8, UInt8.ofNat i.toNat]
  else if i.toInt < 2 ^ 7 then [UInt8.ofNat i.toNat]
  else writeUint i

/-- `Int64`. -/
def int64 (i64 : BitVec 64) : Bytes :=
  if i64.toInt < -2 ^ 5 then
    if i64.toInt < -2 ^ 15 then
      if i64.toInt < -2 ^ 31 then Format.int64 :: bigEndian 8 i64.toNat
      else Format.int32 :: bigEndian 4 i64.toNat
    else
      if i64.toInt < -2 ^ 7 then Format.int16 :: bigEndian 2 i64.toNat
      else [Format.int8, UInt8.ofNat i64.toNat]
  else if i64.toInt < 2 ^ 7 then [UInt8.ofNat i64.toNat]
  else writeUint64 i64

/-- `Float`. -/
def float (f : BitVec 32) : Bytes := Format.float32 :: bigEndian 4 f.toNat

/-- `Double`. -/
def double (d : BitVec 64) : Bytes := Format.float64 :: bigEndian 8 d.toNat

/-! ## Strings and containers -/

/-- The token and the length of a string. -/
def strHeader (length : ℕ) : Bytes :=
  if length < 32 then [Format.fixStr ||| UInt8.ofNat length]
  else if length < 256 then [Format.str8, UInt8.ofNat length]
  else if length < 65536 then Format.str16 :: bigEndian 2 length
  else Format.str32 :: bigEndian 4 length

/-- `String`. -/
def string (str : Bytes) : Bytes := strHeader str.length ++ str

/-- The token and the length of binary data. -/
def binHeader (length : ℕ) : Bytes :=
  if length < 256 then [Format.bin8, UInt8.ofNat length]
  else if length < 65536 then Format.bin16 :: bigEndian 2 length
  else Format.bin32 :: bigEndian 4 length

/-- `Binary`. -/
def binary (str : Bytes) : Bytes := binHeader str.length ++ str

/-- `StartMap`. -/
def startMap (memberCount : ℕ) : Bytes :=
  if memberCount < 16 then [Format.fixMap ||| UInt8.ofNat memberCount]
  else if memberCount < 65536 then Format.map16 :: bigEndian 2 memberCount
  else Format.map32 :: bigEndian 4 memberCount

/-- `StartArray`. -/
def startArray (elementCount : ℕ) : Bytes :=
  if elementCount < 16 then [Format.fixArray ||| UInt8.ofNat elementCount]
  else if elementCount < 65536 then Format.array16 :: bigEndian 2 elementCount
  else Format.array32 :: bigEndian 4 elementCount

/-- `DateTime`. -/
def dateTime [Platform] (dt : ℤ) : Bytes :=
  startArray 2 ++ string Document.dateTimeString ++ string (dateTimeText (Platform.localtime dt))

/-- The call that delivers a scalar. -/
def scalar [Platform] : Scalar → Bytes
  | .null => [Format.nil]
  | .boolTrue => [Format.trueToken]
  | .boolFalse => [Format.falseToken]
  | .dateTime dt => dateTime dt
  | .string str => string str.bytes
  | .binary str => binary str.bytes
  | .int i => int i
  | .uint u => writeUint u
  | .int64 i64 => int64 i64
  | .uint64 u64 => writeUint64 u64
  | .float f => float f
  | .double d => double d

/-- Write to the stream. -/
def put (str : Bytes) : Exec MessagePackWriter Unit := modify fun w => { w with os := w.os ++ str }

/-- The containers have to announce their sizes; separators are not overridden. -/
instance [Platform] : Handler MessagePackWriter where
  handle
    | .scalar s => put (scalar s)
    | .startMap (some count) => put (startMap count)
    | .startMap none => anyrpcThrow ErrorCode.illegalCall (ascii "Illegal call")
    | .key str => put (string str.bytes)
    | .startArray (some count) => put (startArray count)
    | .startArray none => anyrpcThrow ErrorCode.illegalCall (ascii "Illegal call")
    | .mapSeparator | .endMap _ | .arraySeparator | .endArray _ => pure ()

end MessagePackWriter

/-! ## The encoding of a value -/

namespace Value

variable [Platform]

mutual

/-- What the writer writes for a value. -/
def messagePack : Value → Bytes
  | array es _ => MessagePackWriter.startArray es.length ++ messagePackElements es
  | map ms _ => MessagePackWriter.startMap ms.length ++ messagePackMembers ms
  | v => MessagePackWriter.scalar v.leafScalar

/-- The elements of an array. -/
def messagePackElements : List Value → Bytes
  | [] => []
  | v :: vs => v.messagePack ++ messagePackElements vs

/-- The members of a map. -/
def messagePackMembers : List (Bytes × Value) → Bytes
  | [] => []
  | (k, v) :: ms => MessagePackWriter.string k ++ (v.messagePack ++ messagePackMembers ms)

end

theorem messagePackElements_append (es fs : List Value) :
    messagePackElements (es ++ fs) = messagePackElements es ++ messagePackElements fs := by
  induction es with
  | nil => rfl
  | cons e es ih => simp [messagePackElements, ih]

theorem messagePackMembers_append (ms ns : List (Bytes × Value)) :
    messagePackMembers (ms ++ ns) = messagePackMembers ms ++ messagePackMembers ns := by
  induction ms with
  | nil => rfl
  | cons m ms ih => simp [messagePackMembers, ih]

end Value

namespace MessagePackWriter

variable [Platform]

/-- A call that only writes. -/
theorem deliver_put {e : Event} {str : Bytes} (h : (handle e : Exec MessagePackWriter Unit) = put str)
    (w : MessagePackWriter) : deliver [e] w = .ok ⟨w.os ++ str⟩ := by
  rw [deliver_singleton, h]
  rfl

/-- A call that does nothing. -/
theorem deliver_pure {e : Event} (h : (handle e : Exec MessagePackWriter Unit) = pure ())
    (w : MessagePackWriter) : deliver [e] w = .ok w := by
  rw [deliver_singleton, h]
  rfl

/-- The calls for the elements write their encodings. -/
theorem deliver_elementEvents {es : List Value}
    (h : ∀ e ∈ es, ∀ w : MessagePackWriter,
      deliver e.tree.events w = .ok ⟨w.os ++ e.messagePack⟩) (w : MessagePackWriter) :
    deliver (EventTree.elementEvents (es.map Value.tree)) w =
        .ok ⟨w.os ++ Value.messagePackElements es⟩ ∧
      deliver (EventTree.moreElementEvents (es.map Value.tree)) w =
        .ok ⟨w.os ++ Value.messagePackElements es⟩ := by
  induction es generalizing w with
  | nil => simp [EventTree.elementEvents, EventTree.moreElementEvents, Value.messagePackElements]
  | cons e es ih =>
    have he := h e List.mem_cons_self
    have hes := fun w => ih (fun e' he' => h e' (List.mem_cons_of_mem _ he')) w
    constructor
    · rw [List.map_cons, EventTree.elementEvents, deliver_append_of_ok (he w), (hes _).2,
        Value.messagePackElements, List.append_assoc]
    · rw [List.map_cons, EventTree.moreElementEvents, ← List.singleton_append,
        deliver_append_of_ok (deliver_pure rfl w), deliver_append_of_ok (he w), (hes _).2,
        Value.messagePackElements, List.append_assoc]

/-- The calls for the members write their encodings. -/
theorem deliver_memberEvents {ms : List (Bytes × Value)}
    (h : ∀ m ∈ ms, ∀ w : MessagePackWriter,
      deliver m.2.tree.events w = .ok ⟨w.os ++ m.2.messagePack⟩) (w : MessagePackWriter) :
    deliver (EventTree.memberEvents (ms.map fun m => (some { bytes := m.1 }, m.2.tree))) w =
        .ok ⟨w.os ++ Value.messagePackMembers ms⟩ ∧
      deliver (EventTree.moreMemberEvents (ms.map fun m => (some { bytes := m.1 }, m.2.tree))) w =
        .ok ⟨w.os ++ Value.messagePackMembers ms⟩ := by
  induction ms generalizing w with
  | nil => simp [EventTree.memberEvents, EventTree.moreMemberEvents, Value.messagePackMembers]
  | cons m ms ih =>
    obtain ⟨k, v⟩ := m
    have hv := h (k, v) List.mem_cons_self
    have hms := fun w => ih (fun m' hm' => h m' (List.mem_cons_of_mem _ hm')) w
    have hkey := fun w : MessagePackWriter => deliver_put (e := .key { bytes := k }) rfl w
    constructor
    · rw [List.map_cons, EventTree.memberEvents, EventTree.keyEvents,
        deliver_append_of_ok (hkey w), deliver_append_of_ok (hv _), (hms _).2]
      simp [Value.messagePackMembers]
    · rw [List.map_cons, EventTree.moreMemberEvents, EventTree.keyEvents, ← List.singleton_append,
        deliver_append_of_ok (deliver_pure rfl w), deliver_append_of_ok (hkey w),
        deliver_append_of_ok (hv _), (hms _).2]
      simp [Value.messagePackMembers]

/-- The calls of a traversal write the encoding of the value. -/
theorem deliver_tree (v : Value) (w : MessagePackWriter) :
    deliver v.tree.events w = .ok ⟨w.os ++ v.messagePack⟩ := by
  induction v using Value.induction generalizing w with
  | array es c ih =>
    rw [Value.tree_array, EventTree.events, ← List.singleton_append,
      deliver_append_of_ok (deliver_put rfl w), deliver_append_of_ok (deliver_elementEvents ih _).1,
      deliver_pure rfl, Value.messagePack, List.append_assoc]
  | map ms c ih =>
    rw [Value.tree_map, EventTree.events, ← List.singleton_append, deliver_append_of_ok (deliver_put rfl w),
      deliver_append_of_ok (deliver_memberEvents ih _).1, deliver_pure rfl, Value.messagePack,
      List.append_assoc]
  | _ => exact deliver_put rfl w

/-- `writer << value` writes the encoding of a fully valid value. -/
theorem traverse_eq {v : Value} (hv : v.FullyValid) (w : MessagePackWriter) :
    outcome (Value.traverse v) w = .ok ⟨w.os ++ v.messagePack⟩ := by
  rw [Value.traverse_eq_run hv]
  exact deliver_tree v w

end MessagePackWriter

end AnyRpc
