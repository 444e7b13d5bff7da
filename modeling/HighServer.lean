import HighServer.Lib.Runs
import HighServer.Lib.Storage
import HighServer.Lib.Packing
import HighServer.Lib.OrdSet
import HighServer.Lib.Heap
import HighServer.Lib.RoundRobin
import HighServer.Lib.Framing
import HighServer.Lib.Numeral
import HighServer.Lib.Unsigned
import HighServer.Lib.Frame
import HighServer.Lib.Settling
import HighServer.Net.Abort
import HighServer.Net.Buffer
import HighServer.Net.ByteQueue
import HighServer.Net.Shrink
import HighServer.Net.Reserve
import HighServer.Net.Shrunk
import HighServer.Net.Channel
import HighServer.Net.TcpConnection
import HighServer.Net.Output
import HighServer.Net.WriteComplete
import HighServer.Net.HalfClose
import HighServer.Net.InLoop
import HighServer.Net.Lifecycle
import HighServer.Net.CloseFinal
import HighServer.Net.EventLoop
import HighServer.Net.Wakeup
import HighServer.Net.FunctorQueue
import HighServer.Net.Quit
import HighServer.Net.StartLoop
import HighServer.Net.Shutdown
import HighServer.Net.TimerQueue
import HighServer.Net.TimerSets
import HighServer.Net.TimerOwnership
import HighServer.Net.TimerHistory
import HighServer.Net.TimerCancel
import HighServer.Net.TimerArming
import HighServer.Net.TimerExpired
import HighServer.Net.TimerId
import HighServer.Net.TimerRate
import HighServer.Net.Connector
import HighServer.Net.SocketDiscipline
import HighServer.Net.TcpClient
import HighServer.Net.ClientDestroy
import HighServer.Net.Disconnect
import HighServer.Net.DeferredReset
import HighServer.Net.ClientThreads
import HighServer.Net.ClientSilence
import HighServer.Net.TcpServer
import HighServer.Net.Handover
import HighServer.Net.OpenClose
import HighServer.Net.InterestList
import HighServer.Net.Disabled
import HighServer.Net.Polling
import HighServer.Net.Locality
import HighServer.Net.Attentive
import HighServer.Net.Descriptors
import HighServer.Net.SharedProtocol
import HighServer.Net.Potential
import HighServer.Net.Settled
import HighServer.Utils.Thread
import HighServer.AsynLog.FixedBuffer
import HighServer.AsynLog.AsyncLogging
import HighServer.AsynLog.Conservation
import HighServer.AsynLog.Stop
import HighServer.AsynLog.Producers
import HighServer.AsynLog.HandOff
import HighServer.AsynLog.Logger
import HighServer.AsynLog.Convert
import HighServer.AsynLog.LogStream
import HighServer.AsynLog.Record
import HighServer.AsynLog.LogFile
import HighServer.AsynLog.AppendFile
import HighServer.AsynLog.Durable
import HighServer.Chat.Codec
import HighServer.Chat.Decoder
import HighServer.Chat.Admissible
import HighServer.Chat.EndToEnd
