import TinyMuduo.Util.BufferQueue
import TinyMuduo.Util.BufferStorage
import TinyMuduo.Util.EventLoop
import TinyMuduo.Util.ConnectionRuns
import TinyMuduo.Util.DisableAll
import TinyMuduo.Util.Acceptor
import TinyMuduo.Http.ParserSafety
import TinyMuduo.Http.ParseRounds
import TinyMuduo.Http.LineLanguage
import TinyMuduo.Http.Disconnect
import TinyMuduo.Http.Bodies
import TinyMuduo.Http.Persistence
import TinyMuduo.Http.IdleClosing
import TinyMuduo.Logging.SpareBuffers
import TinyMuduo.Logging.StopFlush
import TinyMuduo.Logging.LogRecord
import TinyMuduo.Timer.TimerRearm
import TinyMuduo.Logging.ShortWrites
import TinyMuduo.Base.Latch
import TinyMuduo.Util.EventLoopThread
import TinyMuduo.Util.LoopThreadProgress
import TinyMuduo.Util.EventLoopThreadPool
import TinyMuduo.Util.NextLoop
import TinyMuduo.Util.Dispatch
import TinyMuduo.Http.AnswerStream
import TinyMuduo.Http.ClientView
import TinyMuduo.Http.Site
import TinyMuduo.Logging.Logger
import TinyMuduo.Logging.LogRotation
import TinyMuduo.Logging.FlushLag
import TinyMuduo.Util.ServerRest
