import Voyager.Buffer
import Voyager.ProtobufCodec
import Voyager.TaskQueue
import Voyager.ActiveList
import Voyager.CloseOnce
import Voyager.LoopRefinement
import Voyager.GracefulShutdown
import Voyager.RpcServer
import Voyager.RpcOutcome
import Voyager.HttpKeepAlive
import Voyager.HttpContext
import Voyager.HttpSegments
import Voyager.HttpRoundTrip
import Voyager.PollerAgreement
import Voyager.TimerCancel
import Voyager.TimerClock
import Voyager.TimerPass
import Voyager.ConnectionNames
import Voyager.TcpMonitor
import Voyager.Schedule
import Voyager.HttpStart
import Voyager.BgEventLoop
import Voyager.WakeupSocket
import Voyager.OutOfPoller
import Voyager.ClientAttempts
import Voyager.ConnectorDispatch
import Voyager.ClientDestroyed
import Voyager.RemoveEvents
import Voyager.Json
import Voyager.JsonReader
import Voyager.JsonString
import Voyager.JsonValue
import Voyager.JsonRoundTrip
import Voyager.JsonInputs
import Voyager.ProtobufRounds
import Voyager.LengthPrefixed
import Voyager.Crc32c
import Voyager.PollTimeout
import Voyager.TimerWrap
import Voyager.BufferMoves
import Voyager.JsonNumbers
import Voyager.HttpRequestLine
import Voyager.HttpHeaders
import Voyager.HttpReprint
import Voyager.StringJoin
import Voyager.JsonTermination
import Voyager.RpcExchange
import Voyager.HttpCallbacks
import Voyager.PollerIterations
import Voyager.SudokuServer
import Voyager.Base64RoundTrip
import Voyager.AcceptorReserve
import Voyager.ConnectorSockets
