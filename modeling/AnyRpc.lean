import AnyRpc.Call.Call
import AnyRpc.Call.Json
import AnyRpc.Call.MessagePack
import AnyRpc.Client.Client
import AnyRpc.Client.Escapes
import AnyRpc.Client.Header
import AnyRpc.Client.ReadResponse
import AnyRpc.Client.Request
import AnyRpc.Client.Response
import AnyRpc.Client.Retry
import AnyRpc.Client.Send
import AnyRpc.Client.Text
import AnyRpc.Connection.Bounds
import AnyRpc.Connection.Connection
import AnyRpc.Connection.Contents
import AnyRpc.Connection.Disconnect
import AnyRpc.Connection.Http
import AnyRpc.Connection.Lengthless
import AnyRpc.Connection.MessageBuffer
import AnyRpc.Connection.Outcome
import AnyRpc.Connection.Overlong
import AnyRpc.Connection.Process
import AnyRpc.Connection.Progress
import AnyRpc.Connection.Receive
import AnyRpc.Connection.Refinement
import AnyRpc.Connection.ResponseHeader
import AnyRpc.Connection.Rules
import AnyRpc.Connection.Service
import AnyRpc.Connection.SharedHandlers
import AnyRpc.Connection.Shutdown
import AnyRpc.Connection.Tcp
import AnyRpc.Connection.Wire
import AnyRpc.Connection.WriteResponse
import AnyRpc.Document.Build
import AnyRpc.Document.Conversion
import AnyRpc.Document.Document
import AnyRpc.Document.Extension
import AnyRpc.Document.Faults
import AnyRpc.Document.Growth
import AnyRpc.Document.Limits
import AnyRpc.Document.Stack
import AnyRpc.Document.Traverse
import AnyRpc.Foundation.Decimal
import AnyRpc.Foundation.Exception
import AnyRpc.Foundation.Platform
import AnyRpc.Foundation.Text
import AnyRpc.Foundation.Utf8
import AnyRpc.Handler.Event
import AnyRpc.Handler.EventTree
import AnyRpc.Internal.Base64
import AnyRpc.Internal.Base64InPlace
import AnyRpc.Internal.Base64Stream
import AnyRpc.Internal.ContentLength
import AnyRpc.Internal.Http
import AnyRpc.Internal.HttpArrival
import AnyRpc.Internal.HttpLines
import AnyRpc.Internal.Unicode
import AnyRpc.Json.Alike
import AnyRpc.Json.Complete
import AnyRpc.Json.Deliver
import AnyRpc.Json.Fed
import AnyRpc.Json.Feeding
import AnyRpc.Json.Grammar
import AnyRpc.Json.Integer
import AnyRpc.Json.Legible
import AnyRpc.Json.Meaning
import AnyRpc.Json.Payload
import AnyRpc.Json.Reader
import AnyRpc.Json.RoundTrip
import AnyRpc.Json.Sound
import AnyRpc.Json.Strings
import AnyRpc.Json.WriteString
import AnyRpc.Json.WriteValue
import AnyRpc.Json.Writer
import AnyRpc.Library.BigEndian
import AnyRpc.Library.Emits
import AnyRpc.Library.Faults
import AnyRpc.Library.Framing
import AnyRpc.Library.Hoare
import AnyRpc.Library.Lookahead
import AnyRpc.Library.Memory
import AnyRpc.Library.OrderedMap
import AnyRpc.Library.Ownership
import AnyRpc.Library.Position
import AnyRpc.Library.Simulation
import AnyRpc.Library.StateError
import AnyRpc.Library.Utf8
import AnyRpc.MessagePack.Format
import AnyRpc.MessagePack.Forms
import AnyRpc.MessagePack.Integer
import AnyRpc.MessagePack.Reader
import AnyRpc.MessagePack.RoundTrip
import AnyRpc.MessagePack.Shortest
import AnyRpc.MessagePack.Sound
import AnyRpc.MessagePack.Steps
import AnyRpc.MessagePack.Writer
import AnyRpc.Reader.Calls
import AnyRpc.Reader.Faults
import AnyRpc.Reader.Number
import AnyRpc.Reader.NumberAhead
import AnyRpc.Reader.NumberParse
import AnyRpc.Reader.NumberRange
import AnyRpc.Reader.NumberText
import AnyRpc.Reader.Parse
import AnyRpc.Reader.Reader
import AnyRpc.Server.Accept
import AnyRpc.Server.Calls
import AnyRpc.Server.Handover
import AnyRpc.Server.Json
import AnyRpc.Server.JsonAnswers
import AnyRpc.Server.JsonEscapes
import AnyRpc.Server.JsonLookUp
import AnyRpc.Server.JsonPayload
import AnyRpc.Server.Lifetime
import AnyRpc.Server.MessagePack
import AnyRpc.Server.Method
import AnyRpc.Server.MultiCall
import AnyRpc.Server.Readding
import AnyRpc.Server.SharedMethods
import AnyRpc.Server.ThreadPool
import AnyRpc.Server.Xml
import AnyRpc.Stream.File
import AnyRpc.Stream.Read
import AnyRpc.Stream.Segments
import AnyRpc.Stream.WriteSegmented
import AnyRpc.Value.Arrays
import AnyRpc.Value.Basic
import AnyRpc.Value.Container
import AnyRpc.Value.Copy
import AnyRpc.Value.Equality
import AnyRpc.Value.FiniteMap
import AnyRpc.Value.Integer
import AnyRpc.Value.Members
import AnyRpc.Value.Number
import AnyRpc.Value.Sequence
import AnyRpc.Value.Storage
import AnyRpc.Xml.Base64
import AnyRpc.Xml.EmptyValue
import AnyRpc.Xml.Faults
import AnyRpc.Xml.Fed
import AnyRpc.Xml.Lexical
import AnyRpc.Xml.Output
import AnyRpc.Xml.Reader
import AnyRpc.Xml.Reference
import AnyRpc.Xml.Shorten
import AnyRpc.Xml.ShortenString
import AnyRpc.Xml.ShortenText
import AnyRpc.Xml.ShortenValue
import AnyRpc.Xml.Sound
import AnyRpc.Xml.Tag
import AnyRpc.Xml.Writer
