import PgConsul.Foundations.Bytes
import PgConsul.Foundations.Machine
import PgConsul.Foundations.Component
import PgConsul.Foundations.Settings
import PgConsul.Foundations.CString
import PgConsul.Foundations.Percent
import PgConsul.Foundations.JsonString
import PgConsul.Foundations.JsonText
import PgConsul.Foundations.Utf8
import PgConsul.Foundations.JsonUtf8
import PgConsul.Foundations.Regex
import PgConsul.Foundations.Base64
import PgConsul.Foundations.Lines
import PgConsul.Foundations.Stream
import PgConsul.Foundations.OrderedMap
import PgConsul.Foundations.Binary64
import PgConsul.Foundations.Nearest
import PgConsul.Platform
import PgConsul.B64.Decode
import PgConsul.B64.Encode
import PgConsul.B64.Meaning
import PgConsul.Boost.LexicalCast
import PgConsul.Json11.Value
import PgConsul.Json11.Comparison
import PgConsul.Json11.Dump
import PgConsul.Json11.OneLine
import PgConsul.Json11.Parser
import PgConsul.Json11.StringRoundTrip
import PgConsul.Json11.NumberText
import PgConsul.Json11.NumberRoundTrip
import PgConsul.Json11.StringGrammar
import PgConsul.Json11.RoundTrip
import PgConsul.Json11.Grammar
import PgConsul.Json11.DumpRoundTrip
import PgConsul.Json11.ParserErrors
import PgConsul.Json11.Utf8
import PgConsul.Cpr.Parameters
import PgConsul.Cpr.Session
import PgConsul.Cpr.Header
import PgConsul.Cpr.Messages
import PgConsul.Consul.Agent
import PgConsul.Consul.AgentRefinement
import PgConsul.Consul.KVPair
import PgConsul.Consul.KVPairs
import PgConsul.Consul.ValueWrapping
import PgConsul.Consul.Peer
import PgConsul.Consul.PeerGrammar
import PgConsul.Extension.Datum
import PgConsul.Extension.HostCheck
import PgConsul.Extension.Functions
import PgConsul.Extension.Requests
import PgConsul.Extension.Session
import PgConsul.Extension.Configuration
import PgConsul.Extension.AgentPing
import PgConsul.Extension.KvGetRequest
import PgConsul.Consul.KVPairFidelity
import PgConsul.Consul.ListDecoders
import PgConsul.Consul.PairsEncoding
import PgConsul.Consul.DecodedText
import PgConsul.Consul.Explanations
import PgConsul.Extension.KvGetResponse
import PgConsul.Extension.StatusLeader
import PgConsul.Extension.StatusPeers
import PgConsul.Extension.HostGrammar
import PgConsul.Extension.SetReturning
import PgConsul.Extension.Rows
import PgConsul.Extension.Contexts
import PgConsul.Extension.Server
import PgConsul.Extension.ServerRefinement
import PgConsul.Extension.TextEncoding
import PgConsul.Extension.Queries
import PgConsul.Extension.Interleaving
import PgConsul.Extension.Exchanges
import PgConsul.Playground.ConsulKv
import PgConsul.Playground.ConsulKvQuery
import PgConsul.Playground.Base64Mode
import PgConsul.Playground.ToolAgreement
import PgConsul.Playground.ConsulStatus
import PgConsul.Playground.StatusReport
import PgConsul.Playground.StatusRun
import PgConsul.Playground.OutputEncoding
import PgConsul.Playground.StatusAgreement
