import TermChat.Base.Steps
import TermChat.Proto.Messages
import TermChat.Service.Push
import TermChat.Core.Sessions
import TermChat.Core.OnlineUsers
import TermChat.Base.Framing
import TermChat.Core.Buffer
import TermChat.Handler.Dispatch
import TermChat.Proto.Codec
import TermChat.Handler.Protobuf
import TermChat.Core.Connection
import TermChat.Core.Chunks
import TermChat.Core.Malformed
import TermChat.Core.Boundaries
import TermChat.Core.EndOfStream
import TermChat.Base.Threads
import TermChat.Core.Wakeup
import TermChat.Base.Partition
import TermChat.Dao.Scylla
import TermChat.Dao.Writer
import TermChat.Base.Decimal
import TermChat.Utils.IdGenerator
import TermChat.Service.DedupCache
import TermChat.Service.Msg
import TermChat.Service.AtMostOnce
import TermChat.Service.Vouching
import TermChat.Client.Sync
import TermChat.Core.Shutdown
import TermChat.Base.Keyed
import TermChat.Dao.Friend
import TermChat.Service.Friend
import TermChat.Service.FriendNotices
import TermChat.Service.Friendship
import TermChat.Service.Call
import TermChat.Service.Truthful
import TermChat.Service.Ack
import TermChat.Core.World
import TermChat.Core.Receipts
import TermChat.Core.Identity
import TermChat.Client.FullSync
import TermChat.Client.Listener
import TermChat.Core.OutStream
import TermChat.Base.Wire
import TermChat.Proto.Encode
import TermChat.Client.PageSize
import TermChat.Core.Reactor
import TermChat.Core.OneHandler
import TermChat.Core.Ownership
import TermChat.Core.Lifetime
import TermChat.Base.Linked
import TermChat.Core.MpscQueue
import TermChat.Core.MpscTail
import TermChat.Core.MpscMemory
import TermChat.Base.Absorb
import TermChat.Client.Frames
import TermChat.Client.AckMerge
import TermChat.Client.History
import TermChat.Client.DeliveredAcks
import TermChat.Client.Correlation
import TermChat.Client.Answers
import TermChat.Service.Flush
import TermChat.Core.Detection
import TermChat.Base.Headed
import TermChat.Base.Lines
import TermChat.Http.Request
import TermChat.Http.Get
import TermChat.Http.Handler
import TermChat.Dao.WriterRun
import TermChat.Dao.Callbacks
import TermChat.Dao.HeapWriter
import TermChat.Core.RawBuffer
import TermChat.Core.Fifo
import TermChat.Core.ScatterWrite
import TermChat.Core.Login
import TermChat.Service.Eviction
import TermChat.Service.CacheRuns
import TermChat.Service.CacheMemory
import TermChat.Service.StatusRegress
import TermChat.Base.BinaryHeap
import TermChat.Timer.HeapTimer
import TermChat.Timer.Expiries
import TermChat.Timer.Tick
import TermChat.Timer.Runs
import TermChat.Timer.NextTick
import TermChat.Base.Cql
import TermChat.Dao.Tables
import TermChat.Http.Delimited
import TermChat.Http.Form
import TermChat.Http.FormDecoding
import TermChat.Http.Response
import TermChat.Base.Lexical
import TermChat.Http.Confined
import TermChat.Pool.SqlConnPool
import TermChat.Service.Refusal
import TermChat.Client.Reconnect
import TermChat.Pool.ThreadPool
import TermChat.Core.IdleTimeout
import TermChat.Pool.ConnProgress
import TermChat.Client.Delivery
import TermChat.Service.Persisted
import TermChat.Core.PersistedAcks
