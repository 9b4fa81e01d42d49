import AnyRpc.Stream.WriteSegmented

/-! # The frames of a TCP client

`TcpClient::GenerateHeader` frames a request as a netstring: its length in decimal digits, a colon,
the request and a comma. -/

namespace AnyRpc

namespace TcpClient

/-- `TcpClient::GenerateHeader`, on the streams for the header and for the request. -/
def generateHeader (header request : WriteSegmentedStream) :
    WriteSegmentedStream × WriteSegmentedStream :=
  ((header.put (decimal request.length)).put [0x3a], request.put [0x2c])

/-- What a client sends for a request. -/
def frame (request : Bytes) : Bytes :=
  let (header, request) := generateHeader .newDefault (WriteSegmentedStream.newDefault.put request)
  header.bytes ++ request.bytes

theorem frame_eq (request : Bytes) :
    frame request = decimal request.length ++ 0x3a :: (request ++ [0x2c]) := by
  have hempty : WriteSegmentedStream.newDefault.bytes = [] := rfl
  simp [frame, generateHeader, WriteSegmentedStream.length, hempty]

end TcpClient

end AnyRpc
