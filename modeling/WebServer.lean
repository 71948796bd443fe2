import WebServer.Library.DoublyLinked
import WebServer.Library.Machine
import WebServer.V2.Server
import WebServer.V2.Timer.Sorted
import WebServer.V2.Timer.Operations
import WebServer.V3.Net.Timer
import WebServer.V2.Timer.Chained
import WebServer.V2.ConnectionTimers
import WebServer.Common
import WebServer.V2.Http.Write
import WebServer.V2.Http.SendExact
import WebServer.V3.Base.AsyncLogging
import WebServer.V3.Base.BufferOwnership
import WebServer.Library.StdString
import WebServer.V3.Net.Socket
import WebServer.V3.Net.Writen
import WebServer.V3.Net.HttpData
import WebServer.V3.Net.ParseHeaders
import WebServer.V3.Net.ParseURI
import WebServer.V3.Net.AnalysisRequest
import WebServer.V3.Net.HandleRead
import WebServer.V3.Net.Scanning
import WebServer.V3.Net.RequestLine
import WebServer.V3.Net.Passes
import WebServer.V3.Net.Exceptions
import WebServer.V3.Net.Request
import WebServer.V3.Net.Pipelining
import WebServer.V3.Net.MethodNames
import WebServer.V3.Net.PartialHeaders
import WebServer.V3.Net.Segmentation
import WebServer.V3.Net.EventLoop
import WebServer.V3.Net.TimerCoverage
import WebServer.V3.Net.PendingOutput
import WebServer.Library.RingBuffer
import WebServer.V2.Logger.BlockQueue
import WebServer.V2.Logger.Peek
import WebServer.V2.Logger.WriteLog
import WebServer.V3.Base.MessageOrder
import WebServer.V3.Base.StopDrains
import WebServer.V2.Threadpool.Delivery
import WebServer.V2.Threadpool.Bound
import WebServer.V3.Net.LoopThread
import WebServer.V3.Net.Functors
import WebServer.V3.Net.ExpiryCheck
import WebServer.V2.Logger.Logger
import WebServer.V2.Logger.LineOrder
import WebServer.V3.Net.ResponseOrder
import WebServer.Library.CString
import WebServer.V2.Http.ProcessRead
import WebServer.V2.Http.Lines
import WebServer.V2.Http.ReadInChunks
import WebServer.V2.MainLoop
import WebServer.V2.HandOver
import WebServer.V2.UserCount
import WebServer.V2.Signals
import WebServer.V3.Net.LineGrammar
import WebServer.Library.MessageFraming
import WebServer.V3.Net.ResponseFraming
import WebServer.Library.TwoRuns
import WebServer.V3.Net.Isolation
import WebServer.V3.Net.RefusedCalls
import WebServer.V3.Net.CloseOnce
import WebServer.V3.Net.IdleTimers
import WebServer.V2.Http.RequestPath
import WebServer.V2.Http.ProcessWrite
import WebServer.V2.Http.Incomplete
import WebServer.V3.Net.HeaderFields
import WebServer.V3.Net.HeaderRoundTrip
import WebServer.V3.Net.HeaderPositions
import WebServer.V3.Net.OneReply
import WebServer.Library.LexicalPath
import WebServer.V3.Net.FileNames
import WebServer.V3.Net.ReadableFiles
import WebServer.V2.Http.ReadAll
import WebServer.V2.Http.Counters
import WebServer.V2.Http.ReadBuffer
import WebServer.V2.Http.Mappings
import WebServer.V2.Http.RequestGrammar
import WebServer.V2.Http.OpenedFiles
import WebServer.Library.DecimalText
import WebServer.V3.Base.Convert
import WebServer.V3.Net.ExpirySweep
import WebServer.V3.Base.LogStream
import WebServer.V3.Base.Logging
import WebServer.TimedWaits
import WebServer.V3.Net.Openings
import WebServer.V3.Net.Reactor
import WebServer.V3.Server
import WebServer.V3.Acceptor
import WebServer.V3.Ownership
import WebServer.V3.Dispatch
import WebServer.V2.Http.Answers
import WebServer.V2.Http.Session
import WebServer.Library.OutputStream
import WebServer.V3.Base.LogFile
import WebServer.V3.Base.LogOnDisk
import WebServer.V2.Backlog
import WebServer.Library.Monitor
import WebServer.V3.StartUp
import WebServer.V3.Net.ClientSession
import WebServer.V3.Net.HeaderRoundTrip
