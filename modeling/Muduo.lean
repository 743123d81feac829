import Muduo.BufferFifo
import Muduo.Registration
import Muduo.HalfClose
import Muduo.LoopWakeup
import Muduo.ConnFinal
import Muduo.Lifecycle
import Muduo.BufferBounds
import Muduo.Notify
import Muduo.ConnMap
import Muduo.EventLoopThread
import Muduo.Callbacks
import Muduo.ShutdownRace
import Muduo.FunctorSafety
import Muduo.BufferSpace
import Muduo.IdleChannel
import Muduo.SendError
import Muduo.LoopEdges
import Muduo.LoopQuit
import Muduo.LoopLifetime
import Muduo.PoolLoops
import Muduo.ConnParts
import Muduo.Confined
import Muduo.Threads
import Muduo.Drain
import Muduo.PollEvents
import Muduo.InetAddress
import Muduo.ConnNames
import Muduo.ServerStart
import Muduo.Progress
import Muduo.Peers
import Muduo.ServerLoops
