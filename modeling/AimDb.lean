import AimDb.Router.Inbound
import AimDb.Zenoh.Covering
import AimDb.Zenoh.Canonical
import AimDb.Zenoh.KeyExpr
import AimDb.Mqtt.Subscriptions
import AimDb.Mqtt.Native.Subscribed
import AimDb.Outbound.Ready.Drained
import AimDb.Router.Subscriptions
import AimDb.Zenoh.Grammar
import AimDb.Router
import AimDb.Knx.Tunnel.Timers
import AimDb.Knx.Tunnel.Accounting
import AimDb.Knx.Tunnel.Overflow
import AimDb.Cdr.RoundTrip
import AimDb.Contracts.Lock.Generated
import AimDb.Graph.Cycles
import AimDb.Session.Aimx.Lines
import AimDb.Session.Aimx.Dispatch
import AimDb.Serial.Recovery
import AimDb.Session.TopicMatch.Containment
import AimDb.Session.TopicMatch.Language
import AimDb.Session.Aimx.Envelope
import AimDb.Session.Aimx.Splice
import AimDb.Session.Server.Isolation
import AimDb.Session.Server.LastWord
import AimDb.Session.Client.Abandoned
import AimDb.Session.Client.Demux
import AimDb.Session.Client.Sink
import AimDb.BuildInfo.Section
import AimDb.Database.Introspection
import AimDb.WebSocket.ClientManager.Accounting
import AimDb.WebSocket.Server.Secrecy
import AimDb.WebSocket.Server.LateJoin
import AimDb.Zenoh.Delivery
import AimDb.Wasm.Bridge.LifeCycle
import AimDb.Tcp.Chunks
import AimDb.Mqtt.Embedded.Reassembly
import AimDb.Knx.Cemi
import AimDb.Cdr.Bounded
import AimDb.Zenoh.Spelling
import AimDb.Topic.Captures
import AimDb.Zenoh.Greedy
import AimDb.Wildcard.Division
import AimDb.Zenoh.Shortest
import AimDb.Mqtt.Exact
import AimDb.Persistence.Pattern
import AimDb.Persistence.Sqlite
import AimDb.Ranking.First
import AimDb.Persistence.Query
import AimDb.Fallible
import AimDb.Unrolling.Terms
import AimDb.Contracts.Lock.Shape
import AimDb.Contracts.Lock.Shape.Written
import AimDb.Contracts.Lock.Shape.Determined
import AimDb.Contracts.Migration
import AimDb.Contracts.Migration.RoundTrip
import AimDb.Wasm.Buffer.Delivery
import AimDb.Tokio.Mailbox.Wakeups
import AimDb.Remote.PostLink.Download
import AimDb.Remote.Instance
import AimDb.Connector.Url
import AimDb.Mqtt.Native.Redacted.Agreement
import AimDb.Outbound.Routes.Accounted
import AimDb.Session.Aimx.Drain.Answers
import AimDb.Wasm.Funnel.Orderly
import AimDb.InboundKey.Assigned
import AimDb.Topic.Slices
import AimDb.Embassy.TcpPool.Runs
import AimDb.Tcp.Connection
import AimDb.Serial.Connection
import AimDb.Session.Duplex.Accounted
import AimDb.Transform.Joined
import AimDb.Session.Duplex.Positioned
import AimDb.Wasm.Buffer.Ring
