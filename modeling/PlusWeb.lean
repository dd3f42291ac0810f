import PlusWeb.Library.ListSearch
import PlusWeb.Library.WildcardTable
import PlusWeb.Library.Action
import PlusWeb.Library.LineBlock
import PlusWeb.Library.Fragments
import PlusWeb.Library.Runs
import PlusWeb.Library.TwoRuns
import PlusWeb.StdTypes
import PlusWeb.Utils
import PlusWeb.Trie
import PlusWeb.HttpMessage
import PlusWeb.RouteRegistry
import PlusWeb.RequestTarget
import PlusWeb.Routing
import PlusWeb.RoutingTrace
import PlusWeb.ScopedMiddleware
import PlusWeb.RouterGuards
import PlusWeb.HandleRequest
import PlusWeb.ResponseCalls
import PlusWeb.ResponseHead
import PlusWeb.HttpParser
import PlusWeb.LlhttpContract
import PlusWeb.ByteMachine
import PlusWeb.ParserFraming
import PlusWeb.ParserDeliveries
import PlusWeb.EventLoop
import PlusWeb.ConnectionResponses
import PlusWeb.WriteBacklog
import PlusWeb.TargetRoundTrip
import PlusWeb.RouteParameters
import PlusWeb.HeaderBudget
import PlusWeb.NotFoundResponse
import PlusWeb.MiddlewareChain
import PlusWeb.MountedRouter
import PlusWeb.NestedMounts
import PlusWeb.NestedReachability
import PlusWeb.HeadMirrorsGet
import PlusWeb.WholePath
import PlusWeb.ReportedMessages
import PlusWeb.TrailerFields
import PlusWeb.HeaderNameCase
import PlusWeb.HandlerFailures
import PlusWeb.ResponseFraming
import PlusWeb.WasmContract
import PlusWeb.WasmDispatch
import PlusWeb.Utf8
import PlusWeb.RequestTexts
import PlusWeb.WasmDuplicates
import PlusWeb.WasmTotality
import PlusWeb.ConnLifetime
import PlusWeb.PercentCodec
import PlusWeb.ReceivedMessage
import PlusWeb.AbsoluteForm
import PlusWeb.ResponseSerialization
import PlusWeb.MountPrefixes
import PlusWeb.HeaderSpelling
import PlusWeb.PathRestored
import PlusWeb.MountOrder
import PlusWeb.Library.Cuts
import PlusWeb.SplitPieces
import PlusWeb.DecodeBounds
import PlusWeb.TrieBindings
import PlusWeb.TrieInvariant
import PlusWeb.TrieMarks
import PlusWeb.DumpOrder
import PlusWeb.SubmittedLengths
import PlusWeb.Shutdown
import PlusWeb.ServerLifecycle
import PlusWeb.ConnSimulation
import PlusWeb.ConnInterleaving
import PlusWeb.Library.PointerTree
import PlusWeb.NodeHeap
import PlusWeb.DeliveredRequests
import PlusWeb.RegistrationOrder
import PlusWeb.ConnTranscript
import PlusWeb.ClientView
import PlusWeb.WasmAgreement
