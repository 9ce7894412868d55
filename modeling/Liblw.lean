import Liblw.CharConv
import Liblw.Error
import Liblw.Http.EndpointTrie
import Liblw.Http.Headers
import Liblw.Http.MountPath
import Liblw.Http.Readings
import Liblw.Http.Request
import Liblw.Io.Buffers
import Liblw.Io.Reader
import Liblw.Io.Stream
import Liblw.Io.Delivery
import Liblw.Lib.Search
import Liblw.Io.Delimiters
import Liblw.Lib.Base64
import Liblw.Format.Blobs
import Liblw.Lib.Block
import Liblw.Lib.Call
import Liblw.Lib.Lex
import Liblw.Lib.Separator
import Liblw.Mime.Formatter
import Liblw.Mime.Frames
import Liblw.Mime.Parse
import Liblw.Mime.Render
import Liblw.Mime.Token
import Liblw.Proof.Spelling
import Liblw.Proof.FormatterNesting
import Liblw.Proof.ListRoundTrip
import Liblw.Proof.ParseFrames
import Liblw.Proof.ParseOutcome
import Liblw.Proof.ParseTokens
import Liblw.Proof.ReaderChunking
import Liblw.Proof.ReaderConservation
import Liblw.Proof.ReaderProgress
import Liblw.Proof.BufferRoom
import Liblw.Proof.ReaderWindows
import Liblw.Proof.RouteCaptures
import Liblw.Proof.RouteFits
import Liblw.Proof.RouteNodes
import Liblw.Proof.RouteSegments
import Liblw.Proof.Routing
import Liblw.Proof.StringRoundTrip
import Liblw.Proof.TrieInsert
import Liblw.Proof.TrieReading
import Liblw.Proof.TrieWalk
import Liblw.Lib.Spaced
import Liblw.Mime.Document
import Liblw.Mime.Grammar
import Liblw.Proof.NumberScan
import Liblw.Proof.ParseItems
import Liblw.Proof.ParseDocuments
import Liblw.Proof.GrammarItems
import Liblw.Proof.GrammarCuts
import Liblw.Mime.Places
import Liblw.Proof.ObjectKeys
import Liblw.Proof.ParseReach
import Liblw.Proof.PlacesBegin
import Liblw.Proof.FormatterOrder
import Liblw.Http.MountMatch
import Liblw.Proof.MountAgreement
import Liblw.Http.HeadText
import Liblw.Proof.MethodLine
import Liblw.Http.NameOrder
import Liblw.Proof.HeaderMaps
import Liblw.Http.NameFunctors
import Liblw.Proof.NameFunctors
import Liblw.Proof.HeaderFields
import Liblw.Http.Response
import Liblw.Http.Message
import Liblw.Proof.ResponseFraming
import Liblw.Proof.TextLines
import Liblw.Proof.ResponseDecoding
import Liblw.Http.Serve
import Liblw.Net.Server
import Liblw.Proof.ResponseDelivery
import Liblw.Proof.HeadErrors
import Liblw.Proof.ServeReliance
import Liblw.Http.Connections
import Liblw.Proof.ConnectionCount
import Liblw.Proof.Numerals
import Liblw.Cli.Format
import Liblw.Proof.FlagFormat
import Liblw.Cli.Flags
import Liblw.Cli.Init
import Liblw.Proof.CommandLine
import Liblw.Net.Tls
import Liblw.Proof.TlsWrite
import Liblw.Proof.TlsRead
import Liblw.Proof.ServerLife
import Liblw.Net.Attachments
import Liblw.Proof.RouterAttachment
import Liblw.Memory.CircularQueue
import Liblw.Lib.Machine
import Liblw.Memory.QueueCalls
import Liblw.Proof.QueueFifo
import Liblw.Proof.QueueMoves
import Liblw.Co.Scheduler
import Liblw.Proof.SchedulerQueue
import Liblw.Co.Future
import Liblw.Co.PromiseChain
import Liblw.Proof.FutureCalls
import Liblw.Proof.PromiseChain
import Liblw.Co.Resolving
import Liblw.Lib.Simulation
import Liblw.Proof.Resolving
import Liblw.Proof.ResolvingView
import Liblw.Co.AwaitAll
import Liblw.Proof.AwaitAll
import Liblw.Co.Task
import Liblw.Proof.TaskCompletion
import Liblw.Co.Generator
import Liblw.Proof.GeneratorOrder
import Liblw.Net.ServerResource
import Liblw.Proof.ResourceConstruction
import Liblw.Proof.ResourceFailure
import Liblw.Http.TrieRuns
import Liblw.Proof.TrieShape
import Liblw.Proof.WalkRounds
import Liblw.Http.Segments
import Liblw.Http.MountFits
import Liblw.Proof.MountParts
import Liblw.Proof.MountSegments
import Liblw.Proof.RoutePieces
import Liblw.Proof.RouteForms
import Liblw.Proof.LiteralRoutes
import Liblw.Proof.RouteIndependence
import Liblw.Proof.ContentLength
import Liblw.Proof.BlobEncoding
import Liblw.Proof.DelimiterLoop
import Liblw.Proof.DelimiterSearch
import Liblw.Proof.Arrivals
import Liblw.Http.KeepAlive
import Liblw.Proof.KeepAlive
import Liblw.Proof.BlobReversal
import Liblw.Lib.StdString
import Liblw.Lib.Monitor
import Liblw.Io.StringBuffer
import Liblw.Proof.BufferQueue
import Liblw.ErrorStack
import Liblw.Proof.ErrorFrames
import Liblw.Mime.SerializedValue
import Liblw.Proof.IntegerReads
import Liblw.Lib.Iterating
import Liblw.Format.Hex
import Liblw.Proof.HexReading
import Liblw.Proof.NumberTokens
import Liblw.Lib.FirstOccurrences
import Liblw.Tuple
import Liblw.Proof.TupleLeaves
import Liblw.Co.Range
import Liblw.Proof.RangeSteps
import Liblw.Cli.Durations
import Liblw.Proof.DurationSums
import Liblw.Lib.Fuel
import Liblw.Net.Socket
import Liblw.Proof.SocketSend
import Liblw.Proof.InitRounds
import Liblw.Cli.LeftOver
import Liblw.Proof.ArgumentVector
import Liblw.Cli.Negation
import Liblw.Proof.FlagNegation
import Liblw.Proof.ParseComplete
import Liblw.Mime.Conveys
import Liblw.Proof.ValueText
import Liblw.Proof.ValueRoundTrip
import Liblw.Co.Polling
import Liblw.Proof.PollLedger
import Liblw.Proof.PollBatches
import Liblw.Lib.Ownership
import Liblw.Net.Descriptors
import Liblw.Proof.Descriptors
import Liblw.Http.Conversation
import Liblw.Proof.Conversation
import Liblw.Http.WrittenRequest
import Liblw.Proof.WrittenRequest
import Liblw.Net.TlsHandshake
import Liblw.Proof.HandshakeRounds
import Liblw.Proof.TlsHandshake
import Liblw.Memory.Buffer
import Liblw.Proof.BufferBlocks
import Liblw.Net.Receiving
import Liblw.Proof.Receiving
import Liblw.Co.GeneratorLoops
import Liblw.Proof.GeneratorLoops
import Liblw.Co.Sleeping
import Liblw.Proof.Sleeping
