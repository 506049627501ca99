import Tirpc.Lib.Bytes
import Tirpc.Lib.Traced
import Tirpc.Lib.Loop
import Tirpc.Lib.Transition
import Tirpc.Tcp.Buffer
import Tirpc.Tcp.Lemmas.Buffer
import Tirpc.Tcp.Connection
import Tirpc.Rpc.Data
import Tirpc.Rpc.Codec
import Tirpc.Rpc.Lemmas.Scan
import Tirpc.Rpc.Lemmas.Fields
import Tirpc.Rpc.Lemmas.RoundTrip
import Tirpc.Rpc.Lemmas.Stream
import Tirpc.Rpc.Theorems.Bounds
import Tirpc.Rpc.Theorems.Consumption
import Tirpc.Rpc.Theorems.Segmentation
import Tirpc.Rpc.Controller
import Tirpc.Rpc.Dispatcher
import Tirpc.Rpc.Lemmas.Dispatch
import Tirpc.Rpc.Theorems.Replies
import Tirpc.Rpc.Channel
import Tirpc.Rpc.Theorems.Call
import Tirpc.Tcp.Input
import Tirpc.Tcp.Lemmas.Input
import Tirpc.Tcp.Theorems.Input
import Tirpc.Common.Util
import Tirpc.Http.Codec
import Tirpc.Http.Lemmas.Decode
import Tirpc.Http.Theorems.Progress
import Tirpc.Http.Theorems.Reading
import Tirpc.Base.Theorems.Arming
import Tirpc.Common.Mutex
import Tirpc.Common.Theorems.Mutex
import Tirpc.Tcp.Theorems.Queue
import Tirpc.Rpc.Theorems.RoundTrip
import Tirpc.Tcp.Theorems.Reception
import Tirpc.Tcp.Output
import Tirpc.Tcp.Theorems.Output
import Tirpc.Base.Reactor
import Tirpc.Base.Theorems.Drain
import Tirpc.Http.Theorems.Segmentation
import Tirpc.Http.Dispatcher
import Tirpc.Http.Servlet
import Tirpc.Http.Lemmas.Dispatch
import Tirpc.Http.Theorems.Servlets
import Tirpc.Http.Theorems.Responses
import Tirpc.Tcp.Client
import Tirpc.Tcp.Theorems.Client
import Tirpc.Lib.Exclusive
import Tirpc.Base.TaskQueue
import Tirpc.Coroutine.Threads
import Tirpc.Coroutine.Lemmas.Whereabouts
import Tirpc.Coroutine.Lemmas.Threads
import Tirpc.Coroutine.Lemmas.Loop
import Tirpc.Coroutine.Lemmas.Hook
import Tirpc.Coroutine.Theorems.Resume
import Tirpc.Base.Theorems.Deletion
import Tirpc.Common.ThreadPool
import Tirpc.Common.Theorems.ThreadPool
import Tirpc.Common.Log
import Tirpc.Common.Theorems.Log
import Tirpc.Common.Theorems.LogFiles
import Tirpc.Tcp.Closing
import Tirpc.Tcp.Theorems.Closing
import Tirpc.Lib.Family
import Tirpc.Base.Theorems.TaskQueue
import Tirpc.Lib.Shared
import Tirpc.Tcp.TimeWheel
import Tirpc.Tcp.Theorems.TimeWheel
import Tirpc.Coroutine.Memory
import Tirpc.Coroutine.Pool
import Tirpc.Lib.Blocks
import Tirpc.Coroutine.Lemmas.Memory
import Tirpc.Coroutine.Theorems.Pool
import Tirpc.Coroutine.Theorems.Reuse
import Tirpc.Tcp.Server
import Tirpc.Tcp.Theorems.Server
import Tirpc.Lib.Search
import Tirpc.Common.Lemmas.Util
import Tirpc.Http.Request
import Tirpc.Http.Lemmas.Framing
import Tirpc.Http.Theorems.Framing
import Tirpc.Base.Theorems.FdEvent
import Tirpc.Base.Theorems.Firing
import Tirpc.Base.Theorems.Removal
import Tirpc.Lib.Rotation
import Tirpc.Tcp.LoadBalance
import Tirpc.Tcp.Theorems.LoadBalance
import Tirpc.Rpc.Theorems.Completion
import Tirpc.Rpc.Theorems.Reset
import Tirpc.Rpc.Theorems.Routing
import Tirpc.Rpc.Theorems.Outcome
import Tirpc.Rpc.Theorems.RemoteCall
import Tirpc.Rpc.Lemmas.Attempts
import Tirpc.Tcp.Theorems.Descriptor
import Tirpc.Rpc.AsyncChannel
import Tirpc.Rpc.Theorems.Handshake
import Tirpc.Lib.PathTree
import Tirpc.Common.ZkUtil
import Tirpc.ServiceRegister.ZkServiceRegister
import Tirpc.ServiceRegister.Theorems.Coherence
import Tirpc.Rpc.History
import Tirpc.Rpc.Theorems.Failover
import Tirpc.Rpc.Lemmas.Accepted
import Tirpc.Rpc.Theorems.Canonical
import Tirpc.Common.Theorems.Split
import Tirpc.Http.Theorems.Target
import Tirpc.Http.Theorems.Headers
import Tirpc.Lib.SortedMap
import Tirpc.Tcp.ConsistentHash
import Tirpc.Tcp.Theorems.Ring
import Tirpc.Tcp.Theorems.SelectorCache
import Tirpc.Common.Md5
import Tirpc.Common.Lemmas.Md5
import Tirpc.Common.Theorems.Md5
import Tirpc.Tcp.Theorems.Digest
import Tirpc.Tcp.Theorems.RoundCursor
import Tirpc.Common.MsgReq
import Tirpc.Common.Theorems.MsgReq
import Tirpc.Common.Config
import Tirpc.Common.Theorems.Config
import Tirpc.ServiceRegister.Theorems.Addresses
import Tirpc.Base.Lemmas.Inet
import Tirpc.Base.Theorems.Endpoint
import Tirpc.Coroutine.IntMemory
import Tirpc.Coroutine.Theorems.IntMemory
import Tirpc.Generator.Names
import Tirpc.Generator.Theorems.Names
import Tirpc.Base.Theorems.Keys
import Tirpc.Lib.X86
import Tirpc.Coroutine.Theorems.CoctxSwap
import Tirpc.Coroutine.Switch
import Tirpc.Coroutine.Lemmas.Switch
import Tirpc.Coroutine.Theorems.Switch
import Tirpc.Coroutine.Theorems.StackTop
import Tirpc.Base.Wakeup
import Tirpc.Base.Theorems.Wakeup
import Tirpc.Rpc.Link
import Tirpc.Rpc.Lemmas.Link
import Tirpc.Rpc.Theorems.EndToEnd
import Tirpc.Coroutine.TimedHooks
import Tirpc.Coroutine.Theorems.TimedHooks
import Tirpc.Coroutine.Theorems.LostEvents
import Tirpc.Common.LogSystem
import Tirpc.Common.Theorems.LogOnDisk
import Tirpc.Common.Theorems.LogDrains
import Tirpc.Tcp.Clients
import Tirpc.Tcp.Theorems.Clients
