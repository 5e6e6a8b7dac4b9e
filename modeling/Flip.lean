import Flip.CLib
import Flip.Runs
import Flip.Decimal
import Flip.Url
import Flip.Json
import Flip.Ticker
import Flip.Sql
import Flip.SqlLifecycle
import Flip.Utf8
import Flip.JsonText
import Flip.JsonReading
import Flip.JsonString
import Flip.JsonObject
import Flip.Msg
import Flip.MsgText
import Flip.Nbus
import Flip.CommonDaemon
import Flip.CrawlerMain
import Flip.BusHops
import Flip.UrlChunks
import Flip.CBlock
import Flip.FileFromUrl
import Flip.Conf
import Flip.PidFile
import Flip.PidRace
import Flip.PidPaths
import Flip.PidLockout
import Flip.PidCleanup
import Flip.BusSetup
import Flip.BusListener
import Flip.SocketCount
import Flip.Shell
import Flip.ShellLine
import Flip.Args
import Flip.DaemonHandler
import Flip.WorkerStart
import Flip.LongestMatch
import Flip.JsonNumber
import Flip.JsonDoc
import Flip.DocTokens
import Flip.TickerDoc
import Flip.TickerBounds
import Flip.ExchangeDoc
import Flip.Tevent
import Flip.AsyncRequests
import Flip.Newest
import Flip.Crawler
import Flip.Channel
import Flip.Collector
import Flip.Pipeline
import Flip.SocketLaw
import Flip.LaunchRoundTrip
import Flip.CrawlBlocks
import Flip.Talloc
import Flip.TallocRules
import Flip.Memory
import Flip.MemoryCalls
import Flip.MemoryCrawl
import Flip.MemoryWait
import Flip.MemoryRequests
import Flip.MemoryMain
