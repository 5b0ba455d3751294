import WwjMuduo.Lib.Run
import WwjMuduo.Lib.OrderedSet
import WwjMuduo.Lib.Causal
import WwjMuduo.Lib.Critical
import WwjMuduo.Lib.FixedWidth
import WwjMuduo.Lib.Parts
import WwjMuduo.Channel
import WwjMuduo.Poller
import WwjMuduo.Poller.IndexTable
import WwjMuduo.Poller.Lifetimes
import WwjMuduo.Poller.Stale
import WwjMuduo.Poller.Mirror
import WwjMuduo.Poller.Collect
import WwjMuduo.SocketsOps
import WwjMuduo.Acceptor
import WwjMuduo.Buffer
import WwjMuduo.Buffer.ByteQueue
import WwjMuduo.Buffer.Space
import WwjMuduo.TcpConnection
import WwjMuduo.TcpConnection.Send
import WwjMuduo.TcpConnection.Receive
import WwjMuduo.LogStream
import WwjMuduo.LogStream.Convert
import WwjMuduo.Logging
import WwjMuduo.Logging.Stamp
import WwjMuduo.Logging.Output
import WwjMuduo.Timestamp
import WwjMuduo.InetAddress
import WwjMuduo.Timer
import WwjMuduo.TimerQueue
import WwjMuduo.TimerQueue.Ledger
import WwjMuduo.TimerQueue.Ownership
import WwjMuduo.TimerQueue.History
import WwjMuduo.TimerQueue.Firing
import WwjMuduo.TimerQueue.Cancel
import WwjMuduo.TimerQueue.Clearing
import WwjMuduo.TimerQueue.Residue
import WwjMuduo.TimerQueue.Arming
import WwjMuduo.TimerQueue.Delay
import WwjMuduo.TimerQueue.Effects
import WwjMuduo.TimerQueue.Clock
import WwjMuduo.TimerQueue.Schedule
import WwjMuduo.Mutex
import WwjMuduo.Thread
import WwjMuduo.EventLoop
import WwjMuduo.EventLoop.Wakeup
import WwjMuduo.EventLoop.Turns
import WwjMuduo.EventLoop.Batches
import WwjMuduo.EventLoop.Locked
import WwjMuduo.EventLoop.Reactor
import WwjMuduo.TimedLoop
import WwjMuduo.TimedLoop.CancelAfterAdd
import WwjMuduo.ConnectionLoop
import WwjMuduo.ConnectionLoop.Shutdown
import WwjMuduo.ConnectionLoop.Overtake
import WwjMuduo.ConnectionLoop.HalfClose
import WwjMuduo.EventLoopThread
import WwjMuduo.EventLoopThread.Stop
import WwjMuduo.EventLoopThread.Teardown
import WwjMuduo.EventLoopThread.Handshake
import WwjMuduo.TcpServer
import WwjMuduo.TcpServer.Traffic
import WwjMuduo.TcpServer.Members
import WwjMuduo.TcpServer.Sound
import WwjMuduo.TcpServer.Steps
import WwjMuduo.TcpServer.LifeCycle
import WwjMuduo.TcpServer.Registry
import WwjMuduo.TcpServer.Names
import WwjMuduo.TcpServer.Listening
import WwjMuduo.TcpServer.Isolation
import WwjMuduo.TcpServer.Balance
import WwjMuduo.TcpServer.Interleaving
