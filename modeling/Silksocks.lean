import Silksocks.CacheMap
import Silksocks.HashtblEntries
import Silksocks.HashtblTtl
import Silksocks.NegotiateEvents
import Silksocks.NegotiateSelect
import Silksocks.NegotiateStreams
import Silksocks.SessionGate
import Silksocks.AppAuth
import Silksocks.ProxyCreds
import Silksocks.RedirectAddr
import Silksocks.Resolve
import Silksocks.Descriptors
import Silksocks.UpstreamHandshake
import Silksocks.AuthStatus
import Silksocks.Replies
import Silksocks.AuthBlock
import Silksocks.Buffers
import Silksocks.Codecs
import Silksocks.CacheGrowth
import Silksocks.HashtblBytes
import Silksocks.NegotiateSplice
import Silksocks.ConnectNonb
import Silksocks.Transfers
import Silksocks.Server
import Silksocks.ThpoolWakeups
import Silksocks.ThpoolRest
import Silksocks.RelayRefinement
import Silksocks.Chain
import Silksocks.Tunnel
import Silksocks.CacheHeap
import Silksocks.DbHandles
import Silksocks.Agreement
