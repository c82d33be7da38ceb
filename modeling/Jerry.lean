import Jerry.Machine
import Jerry.Fifo
import Jerry.Window
import Jerry.Search
import Jerry.OrderedMap
import Jerry.CString
import Jerry.BaseBuffer
import Jerry.BaseBufferFifo
import Jerry.HttpReq
import Jerry.HttpReqDecoder
import Jerry.HttpHeadParsing
import Jerry.HttpDecoding
import Jerry.HttpSegmentation
import Jerry.HttpRoundTrip
import Jerry.HttpFraming
import Jerry.HeapOps
import Jerry.TimerQueue
import Jerry.TimerQueueRep
import Jerry.PopExpiredTimers
import Jerry.TimerArming
import Jerry.ByteOrder
import Jerry.WsFrame
import Jerry.HttpResp
import Jerry.WebsocketCodec
import Jerry.WsEncoding
import Jerry.BaseBufferReuse
import Jerry.WsClientFrame
import Jerry.WsDecoding
import Jerry.WsFeeding
import Jerry.WsSegmentation
import Jerry.ConnLifeCycle
import Jerry.TcpOutput
import Jerry.AsyncLogging
import Jerry.TimerExecution
import Jerry.AsyncFileAppender
import Jerry.TlsReading
import Jerry.WsReading
import Jerry.WsStreaming
import Jerry.WebsocketServer
import Jerry.HttpGrammar
import Jerry.HttpSoundness
import Jerry.WsUpgrade
import Jerry.IOWorker
import Jerry.ClosedConns
import Jerry.HttpBounds
import Jerry.HttpReads
import Jerry.HttpServing
import Jerry.TransientIo
import Jerry.SetIteration
import Jerry.TcpConnSet
import Jerry.HalfClose
import Jerry.ThreadPool
import Jerry.ThreadPoolTasks
import Jerry.ThreadPoolStop
import Jerry.TimerIds
import Jerry.TimerLife
import Jerry.TimerRepeats
import Jerry.TimerConditions
import Jerry.TimerCancel
import Jerry.ThreadPoolPending
import Jerry.TcpRateLimiter
import Jerry.TcpContext
import Jerry.NameLookup
import Jerry.HttpBodyLimit
import Jerry.HeaderNames
import Jerry.HttpRespFields
import Jerry.HttpRespWire
import Jerry.WsResp
import Jerry.BufferRotation
import Jerry.CountDownLatch
import Jerry.BaseBufferSize
import Jerry.Calendar
import Jerry.Printf
import Jerry.Logger
import Jerry.HttpTermination
import Jerry.BlockHash
import Jerry.Fips180
import Jerry.Sha1
import Jerry.Sha1Digest
import Jerry.Base64
import Jerry.Base64Text
import Jerry.Radix
import Jerry.GmtDate
import Jerry.SecWebSocketAccept
import Jerry.Registration
import Jerry.HttpExchange
import Jerry.PrefixCode
import Jerry.HttpRespStream
import Jerry.Progress
import Jerry.WorkerGroup
import Jerry.FdTable
import Jerry.Acceptor
import Jerry.ReservedFd
import Jerry.WorkerOutput
import Jerry.WsExchange
import Jerry.StreamReader
import Jerry.WsRespStream
