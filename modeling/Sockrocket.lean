import Sockrocket.Router.Cache
import Sockrocket.Router.Trace
import Sockrocket.Dns.AnswerPolicy
import Sockrocket.Dns.FakeIpRun
import Sockrocket.Dns.Inflight
import Sockrocket.Dns.Persistence
import Sockrocket.Dns.WireCache
import Sockrocket.Config.Bandwidth
import Sockrocket.Config.Bindings
import Sockrocket.Config.DisplayName
import Sockrocket.Config.NodeIndex
import Sockrocket.Config.RuleReimport
import Sockrocket.Config.Watch
import Sockrocket.Proxy.AnyTlsClient
import Sockrocket.Proxy.Failover
import Sockrocket.Proxy.ManagedProxy
import Sockrocket.Proxy.QuicFingerprint
import Sockrocket.Proxy.QuicReassembly
import Sockrocket.Proxy.ShadowTlsWrite
import Sockrocket.Proxy.ShadowsocksUdp
import Sockrocket.Proxy.StreamDatagram
import Sockrocket.Proxy.Swappable
import Sockrocket.Proxy.TlsSniff
import Sockrocket.Proxy.TunTarget
import Sockrocket.Proxy.VMessRoundTrip
import Sockrocket.Proxy.VisionDecode
import Sockrocket.Traffic.Conservation
