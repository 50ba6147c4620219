import WeGoAll.Endpoints.Routing
import WeGoAll.Endpoints.Hijack
import WeGoAll.Chrono.Replication
import WeGoAll.Rpc.Moves
import WeGoAll.Rpc.Paths
import WeGoAll.Rpc.Ledger
import WeGoAll.Rpc.Once
import WeGoAll.Chrono.Aborts
import WeGoAll.Chrono.Arrival
import WeGoAll.Endpoints.Datagrams
import WeGoAll.Endpoints.Failover
import WeGoAll.Endpoints.Search
import WeGoAll.Endpoints.Silence
import WeGoAll.Rpc.Consistency
import WeGoAll.Rpc.Eviction
import WeGoAll.Rpc.Repeats
import WeGoAll.Endpoints.Agreement
import WeGoAll.Peer.Game
import WeGoAll.Peer.Lockstep
import WeGoAll.Base.ClockDrift
import WeGoAll.Clock.Baseline
import WeGoAll.Peer.Lobby
import WeGoAll.Endpoints.Work
import WeGoAll.Base.StunClient
import WeGoAll.Stun.Attributes
import WeGoAll.Stun.Bounds
import WeGoAll.Stun.Grammar
import WeGoAll.Stun.Requests
import WeGoAll.Stun.Responses
import WeGoAll.Rpc.Recovery
import WeGoAll.Rpc.Channel
import WeGoAll.Rpc.Shutdown
import WeGoAll.Peer.FullState
import WeGoAll.Endpoints.Adversary
import WeGoAll.Base.Base64
import WeGoAll.Peer.HttpClientMuxer
import WeGoAll.Support.Order
import WeGoAll.Endpoints.RpcServer
import WeGoAll.Peer.GameServer
import WeGoAll.Peer.SetUp
import WeGoAll.Endpoints.Prepared
import WeGoAll.Peer.Session
import WeGoAll.Peer.Departures
