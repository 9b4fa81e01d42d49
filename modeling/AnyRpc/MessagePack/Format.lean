import AnyRpc.Foundation.Text

/-! # The MessagePack format

The tokens by which an encoded value starts. -/

namespace AnyRpc.MessagePack.Format

/-- A map of up to 15 members. -/
def fixMap : UInt8 := 0x80
/-- An array of up to 15 elements. -/
def fixArray : UInt8 := 0x90
/-- A string of up to 31 bytes. -/
def fixStr : UInt8 := 0xa0
/-- The null value. -/
def nil : UInt8 := 0xc0
/-- The token that is never used. -/
def illegal : UInt8 := 0xc1
/-- False. -/
def falseToken : UInt8 := 0xc2
/-- True. -/
def trueToken : UInt8 := 0xc3
/-- Binary data with its length in one byte. -/
def bin8 : UInt8 := 0xc4
/-- Binary data with its length in two bytes. -/
def bin16 : UInt8 := 0xc5
/-- Binary data with its length in four bytes. -/
def bin32 : UInt8 := 0xc6
/-- A float. -/
def float32 : UInt8 := 0xca
/-- A double. -/
def float64 : UInt8 := 0xcb
/-- An unsigned integer of one byte. -/
def uint8 : UInt8 := 0xcc
/-- An unsigned integer of two bytes. -/
def uint16 : UInt8 := 0xcd
/-- An unsigned integer of four bytes. -/
def uint32 : UInt8 := 0xce
/-- An unsigned integer of eight bytes. -/
def uint64 : UInt8 := 0xcf
/-- A signed integer of one byte. -/
def int8 : UInt8 := 0xd0
/-- A signed integer of two bytes. -/
def int16 : UInt8 := 0xd1
/-- A signed integer of four bytes. -/
def int32 : UInt8 := 0xd2
/-- A signed integer of eight bytes. -/
def int64 : UInt8 := 0xd3
/-- A string with its length in one byte. -/
def str8 : UInt8 := 0xd9
/-- A string with its length in two bytes. -/
def str16 : UInt8 := 0xda
/-- A string with its length in four bytes. -/
def str32 : UInt8 := 0xdb
/-- An array with its size in two bytes. -/
def array16 : UInt8 := 0xdc
/-- An array with its size in four bytes. -/
def array32 : UInt8 := 0xdd
/-- A map with its size in two bytes. -/
def map16 : UInt8 := 0xde
/-- A map with its size in four bytes. -/
def map32 : UInt8 := 0xdf
/-- A negative integer down to -32. -/
def negFixInt : UInt8 := 0xe0

end AnyRpc.MessagePack.Format
