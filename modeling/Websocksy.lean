import Websocksy.Lib.Buffer
import Websocksy.Lib.BigEndian
import Websocksy.Lib.CString
import Websocksy.Lib.Splitter
import Websocksy.Lib.FdTable
import Websocksy.Lib.Machine
import Websocksy.Lib.Greedy
import Websocksy.Lib.Separator
import Websocksy.Lib.Rfc6455
import Websocksy.Types
import Websocksy.World
import Websocksy.Client
import Websocksy.Websocket
import Websocksy.Builtins
import Websocksy.Core
import Websocksy.Sending
import Websocksy.Effects
import Websocksy.Log
import Websocksy.ClientFrame
import Websocksy.LineScan
import Websocksy.Alike
import Websocksy.HttpPhase
import Websocksy.Acts
import Websocksy.Locality
import Websocksy.Run
import Websocksy.Invariant
import Websocksy.Conservation
import Websocksy.CoreRule
import Websocksy.Closing
import Websocksy.Segmentation
import Websocksy.Ownership
import Websocksy.PeerStream
import Websocksy.FramingLoop
import Websocksy.FramingCalls
import Websocksy.FrameType
import Websocksy.Framed
import Websocksy.Lengths
import Websocksy.Separators
import Websocksy.FrameCodec
import Websocksy.FramingJson
import Websocksy.Lib.JsonMachine
import Websocksy.JsonScan
import Websocksy.Lib.Traced
import Websocksy.JsonSteps
import Websocksy.JsonBounds
import Websocksy.JsonLockstep
import Websocksy.JsonEntities
import Websocksy.JsonPrefixes
import Websocksy.Delivery
import Websocksy.Descriptors
import Websocksy.FailedSends
import Websocksy.FailuresClosed
import Websocksy.FailuresEnd
import Websocksy.Attribution
import Websocksy.ConnRule
import Websocksy.FrameBounds
import Websocksy.AcceptedFrames
import Websocksy.Utf8
import Websocksy.Dynamic32
import Websocksy.SeparatorEscapes
import Websocksy.Templates
import Websocksy.Traversal
import Websocksy.PeerSelection
import Websocksy.Config
import Websocksy.ConfigAgreement
import Websocksy.EndOfStream
import Websocksy.Messages
import Websocksy.ControlFrames
import Websocksy.ControlReplies
import Websocksy.Outbound
import Websocksy.OutboundRuns
import Websocksy.Dynamic32Options
import Websocksy.CookieLookup
import Websocksy.ExpressionOrder
import Websocksy.ConfigLayout
import Websocksy.KeepAlive
import Websocksy.DefaultPeer
import Websocksy.PeerAddress
import Websocksy.Unconfigured
import Websocksy.FramingCells
import Websocksy.Subprotocols
import Websocksy.Spelling
import Websocksy.Acceptance
import Websocksy.Readiness
import Websocksy.ReadyRuns
import Websocksy.Isolation
import Websocksy.ClientData
import Websocksy.ClientStream
import Websocksy.PeerForwarding
import Websocksy.Lib.NamedTable
import Websocksy.Plugin
import Websocksy.Network
import Websocksy.Capacity
import Websocksy.Rounds
import Websocksy.Main
import Websocksy.Lifecycle
import Websocksy.Requests
