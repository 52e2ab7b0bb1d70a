import Moqt.Library.Decoder
import Moqt.Library.Map
import Moqt.Library.Machine
import Moqt.Library.Table
import Moqt.Wire.Varint
import Moqt.Wire.Fields
import Moqt.Wire.TrackNamespace
import Moqt.Wire.Parameter
import Moqt.Wire.ParameterTypes
import Moqt.Wire.Message
import Moqt.Wire.Safety
import Moqt.Wire.SubgroupHeader
import Moqt.Library.Codec
import Moqt.Library.Chunked
import Moqt.Wire.Written
import Moqt.Wire.Frame
import Moqt.Wire.RoundTrip
import Moqt.Wire.Accepted
import Moqt.Wire.Grammar
import Moqt.Relay.State
import Moqt.Relay.World
import Moqt.Relay.Step
import Moqt.Relay.Connection
import Moqt.Relay.Integrity
import Moqt.Relay.Namespace
import Moqt.Relay.Lifecycle
import Moqt.Relay.Upstream
import Moqt.Relay.Ended
import Moqt.Relay.Response
import Moqt.Relay.Done
import Moqt.Relay.Alias
import Moqt.Relay.Announce
import Moqt.Relay.Isolation
import Moqt.Relay.Serialized
import Moqt.Relay.Order
import Moqt.Relay.Orphan
import Moqt.Relay.Entry
import Moqt.Library.Stream
import Moqt.Wire.Stream
import Moqt.Wire.Object
import Moqt.Relay.Network
import Moqt.Relay.Session
import Moqt.Relay.Answer
import Moqt.Relay.Relaying
import Moqt.Relay.Fidelity
import Moqt.Relay.Truncated
import Moqt.Relay.Delivery
import Moqt.Relay.Forward
import Moqt.Library.Double
import Moqt.Web.Varint
import Moqt.Web.Message
import Moqt.Web.Subscribe
import Moqt.Web.Setup
import Moqt.Web.PublishDone
import Moqt.Relay.Last
import Moqt.Web.StreamReader
import Moqt.Web.DataStream
import Moqt.Web.Session
import Moqt.Library.History
import Moqt.Relay.History
import Moqt.Relay.NextGroup
import Moqt.Relay.Lookup
import Moqt.Relay.StreamCount
import Moqt.Library.Prefix
import Moqt.Relay.Routing
import Moqt.Relay.Removal
import Moqt.Library.Scope
import Moqt.Relay.Guard
import Moqt.Relay.Duplicate
import Moqt.Relay.Failure
import Moqt.Relay.Reclaim
import Moqt.Wire.Layout
import Moqt.Wire.Exact
import Moqt.Library.Method
import Moqt.Wire.DataStreamReader
import Moqt.Web.Video
import Moqt.Web.Publisher
import Moqt.Web.Subscriber
import Moqt.Wire.Framing
import Moqt.Wire.VarintTable
import Moqt.Wire.Normal
import Moqt.Wire.NamespaceCodec
import Moqt.Library.Program
import Moqt.Library.Refine
import Moqt.Web.Chunking
import Moqt.Library.Groups
import Moqt.Pub.Ivf
import Moqt.Pub.Publisher
import Moqt.Pub.Mapping
import Moqt.Sub.Pipe
import Moqt.Web.Restart
import Moqt.Wire.ObjectId
import Moqt.Library.Game
import Moqt.Pub.Interrupted
import Moqt.Relay.Orderly
import Moqt.Relay.Progress
import Moqt.Sub.Receive
import Moqt.System.Video
import Moqt.System.Browser
import Moqt.Library.Await
import Moqt.Wire.Arriving
import Moqt.Sub.Subscribe
import Moqt.Relay.RequestStream
import Moqt.System.Subscription
import Moqt.Relay.RequestIds
import Moqt.Relay.Requests
import Moqt.Library.Exchange
import Moqt.Web.Request
import Moqt.Pub.Request
import Moqt.System.Registration
import Moqt.System.Subscriber
import Moqt.System.Handshake
