import PgConsul.Consul.PeerGrammar
import PgConsul.Json11.OneLine
import PgConsul.Playground.ConsulKv

/-! # The consul-status command line tool

The tool asks an agent for its leader, its peers and itself, in this order and as far as `-s` says,
and stops at the first answer it cannot use. The answer about the agent itself is printed as one
line for each name of nine fixed tables. The log goes to standard output too, between the lines of
`std::cout`; of a message only the level and the text are kept, the form of its line is the logger's
own, and so is the notice it adds behind a fatal message.
-/
namespace PgConsul.Playground.ConsulStatus
set_option autoImplicit false
open Foundations Consul Cpr Json11 Extension

/-! ## The tables -/

/-- `std::map<ConsulKeyT, ConsulOidT>`, in the order of its keys; a description is never read. -/
structure ConsulOidLookupMapT where
  entries : List (Bytes × Bytes)
  ordered : (entries.map Prod.fst).Pairwise (· < ·)

def oids (names : List (String × String)) : List (Bytes × Bytes) :=
  names.map fun kv => (ascii kv.1, ascii kv.2)

def configConsulConfigToOidMap : ConsulOidLookupMapT where
  entries := oids [("ACLDatacenter", "acl_datacenter"), ("ACLDefaultPolicy", "acl_default_policy"),
    ("ACLDownPolicy", "acl_down_policy"), ("ACLTtl", "acl_ttl"), ("ACLTtlRaw", "acl_ttl_raw"),
    ("AdvertiseAddr", "advertise_addr"), ("AdvertiseAddrWan", "advertise_addr_wan"),
    ("Atlas_endpoint", "atlas_endpoint"), ("Atlas_infrastructure", "atlas_infrastructure"),
    ("Atlas_join", "atlas_join"), ("BindAddr", "bind_addr"), ("BootStrap", "bootstrap"),
    ("BootstrapExpect", "bootstrap_expect"), ("CAFile", "ca_file"), ("CertFile", "cert_file"),
    ("CheckUpdateInterval", "check_update_interval"), ("ClientAddr", "client_addr"),
    ("DNSRecursor", "dns_recursor"), ("DNSRecursorsefix", "dns_recursors"),
    ("DataDir", "data_dir"), ("Datacenter", "datacenter"),
    ("DisableAnonymousSignature", "disable_anonymous_signature"),
    ("DisableRemoteExec", "disable_remote_exec"), ("DisableUpdateCheck", "disable_update_check"),
    ("Disable_coordinates", "disable_coordinates"), ("DogStatsdAddr", "dog_statsd_addr"),
    ("DogStatsdTags", "dog_statsd_tags"), ("Domain", "domain"), ("EnableDebug", "enable_debug"),
    ("EnableSyslog", "enable_syslog"), ("HTTPAPIResponseHeaders", "http_api_response_headers"),
    ("KeyFile", "key_file"), ("LeaveOnTerm", "leave_on_term"), ("LogLevel", "log_level"),
    ("NodeName", "node_name"), ("PidFile", "pid_file"), ("Protocol", "protocol"),
    ("RejoinAfterLeave", "rejoin_after_leave"), ("RetryIntervalRaw", "retry_interval_raw"),
    ("RetryIntervalWanRaw", "retry_interval_wan_raw"), ("RetryJoin", "retry_join"),
    ("RetryJoinWan", "retry_join_wan"), ("RetryMaxAttempts", "retry_max_attempts"),
    ("RetryMaxAttemptsWan", "retry_max_attempts_wan"), ("Revision", "revision"),
    ("Server", "server"), ("ServerName", "server_name"), ("SessionTTLMin", "session_ttl_min"),
    ("SessionTTLMinRaw", "session_ttl_min_raw"), ("SkipLeaveOnInt", "skip_eave_on_int"),
    ("StartJoin", "start_join"), ("StartJoinWan", "start_join_wan"), ("StatsdAddr", "statsd_addr"),
    ("StatsiteAddr", "statsite_addr"), ("StatsitePrefix", "statsite_prefix"),
    ("SyslogFacility", "syslog_facility"), ("UIDir", "ui_dir"),
    ("VerifyIncoming", "verify_incoming"), ("VerifyOutgoing", "verify_outgoing"),
    ("VerifyServerHostname", "verify_server_hostname"), ("Version", "version"),
    ("VersionPrerelease", "version_prerelease"), ("Watches", "watches")]
  ordered := by decide +kernel

def configConsulConfigDnsToOidMap : ConsulOidLookupMapT where
  entries := oids [("AllowStale", "allow_stale"), ("EnableTruncate", "enable_truncate"),
    ("MaxStale", "max_stale"), ("NodeTTL", "node_ttl"), ("OnlyPassing", "only_passing"),
    ("ServiceTTL", "service_ttl")]
  ordered := by decide +kernel

def configConsulConfigAdvertiseAddrsToOidMap : ConsulOidLookupMapT where
  entries := oids [("RPC", "rpc"), ("RPCRaw", "rpc_raw"), ("SerfLan", "serf_lan"),
    ("SerfLanRaw", "serf_lan_raw"), ("SerfWan", "serf_wan"), ("SerfWanRaw", "serf_wan_raw")]
  ordered := by decide +kernel

def configConsulConfigPortsToOidMap : ConsulOidLookupMapT where
  entries := oids [("DNS", "dns"), ("HTTP", "http"), ("HTTPS", "https"), ("RPC", "rpc"),
    ("SerfLan", "serf_lan"), ("SerfWan", "serf_wan"), ("Server", "server")]
  ordered := by decide +kernel

def configConsulConfigAddressesToOidMap : ConsulOidLookupMapT where
  entries := oids [("DNS", "dns"), ("HTTP", "http"), ("HTTPS", "https"), ("RPC", "rpc")]
  ordered := by decide +kernel

def configConsulConfigUnixSocketsToOidMap : ConsulOidLookupMapT where
  entries := oids [("Group", "grp"), ("Perms", "perms"), ("User", "usr")]
  ordered := by decide +kernel

def configConsulCoordToOidMap : ConsulOidLookupMapT where
  entries := oids [("Adjustment", "adjustment"), ("Error", "error"), ("Height", "height"),
    ("Vec", "vec")]
  ordered := by decide +kernel

def configConsulMemberToOidMap : ConsulOidLookupMapT where
  entries := oids [("Addr", "addr"), ("DelegateCur", "delegate_cur"),
    ("DelegateMax", "delegate_max"), ("DelegateMin", "delegate_min"), ("Name", "name"),
    ("Port", "port"), ("ProtocolCur", "protocol_cur"), ("ProtocolMax", "protocol_max"),
    ("ProtocolMin", "protocol_min"), ("Status", "status")]
  ordered := by decide +kernel

def configConsulMemberTagsToOidMap : ConsulOidLookupMapT where
  entries := oids [("bootstrap", "bootstrap"), ("build", "build"), ("dc", "dc"), ("port", "port"),
    ("role", "role"), ("vsn", "vsn"), ("vsn_max", "vsn_max"), ("vsn_min", "vsn_min")]
  ordered := by decide +kernel

/-! ## Lines -/

/-- `json[key]` -/
def subscript (json : Json) (key : Bytes) : Json := (find key json.objectItems).getD .null

abbrev ConsulPrefixT := List Bytes

def formatConsulOidFullValue (path : ConsulPrefixT) (consulKey consulVal : Bytes) : Bytes :=
  (ascii ".").intercalate path ++ ascii "." ++ consulKey ++ ascii "=" ++ consulVal

def appendPrefix (path : ConsulPrefixT) (additionalSegment : Bytes) : ConsulPrefixT :=
  path ++ [additionalSegment]

/-- The loop of every function below. -/
def statusLines (table : ConsulOidLookupMapT) (cfg : Json) (path : ConsulPrefixT) : List Bytes :=
  table.entries.map fun kv => formatConsulOidFullValue path kv.2 (dump (subscript cfg kv.1))

def statusSelfConfigAdvertiseAddrs (cfg : Json) (basePrefix : ConsulPrefixT) : List Bytes :=
  statusLines configConsulConfigAdvertiseAddrsToOidMap cfg
    (appendPrefix basePrefix (ascii "advertise_addrs"))

def statusSelfConfigDns (cfg : Json) (basePrefix : ConsulPrefixT) : List Bytes :=
  statusLines configConsulConfigDnsToOidMap cfg (appendPrefix basePrefix (ascii "dns_config"))

def statusSelfConfigPorts (cfg : Json) (basePrefix : ConsulPrefixT) : List Bytes :=
  statusLines configConsulConfigPortsToOidMap cfg (appendPrefix basePrefix (ascii "ports"))

def statusSelfConfigAddresses (cfg : Json) (basePrefix : ConsulPrefixT) : List Bytes :=
  statusLines configConsulConfigAddressesToOidMap cfg (appendPrefix basePrefix (ascii "addresses"))

def statusSelfConfigUnixSockets (cfg : Json) (basePrefix : ConsulPrefixT) : List Bytes :=
  statusLines configConsulConfigUnixSocketsToOidMap cfg
    (appendPrefix basePrefix (ascii "unix_sockets"))

def statusSelfConfig (cfg : Json) (basePrefix : ConsulPrefixT) : List Bytes :=
  let path := appendPrefix basePrefix (ascii "config")
  statusLines configConsulConfigToOidMap cfg path ++
    statusSelfConfigDns (subscript cfg (ascii "DNSConfig")) path ++
    statusSelfConfigAdvertiseAddrs (subscript cfg (ascii "AdvertiseAddrs")) path ++
    statusSelfConfigPorts (subscript cfg (ascii "Ports")) path ++
    statusSelfConfigAddresses (subscript cfg (ascii "Addresses")) path ++
    statusSelfConfigUnixSockets (subscript cfg (ascii "UnixSockets")) path

def statusSelfCoord (cfg : Json) (basePrefix : ConsulPrefixT) : List Bytes :=
  statusLines configConsulCoordToOidMap cfg (appendPrefix basePrefix (ascii "coord"))

def statusSelfMemberTags (cfg : Json) (basePrefix : ConsulPrefixT) : List Bytes :=
  statusLines configConsulMemberTagsToOidMap cfg (appendPrefix basePrefix (ascii "tags"))

def statusSelfMember (cfg : Json) (basePrefix : ConsulPrefixT) : List Bytes :=
  let path := appendPrefix basePrefix (ascii "member")
  statusLines configConsulMemberToOidMap cfg path ++
    statusSelfMemberTags (subscript cfg (ascii "Tags")) path

/-! ## Standard output -/

inductive Level where
  | INFO
  | ERROR
  | FATAL
deriving DecidableEq

structure Message where
  level : Level
  text : Bytes
deriving DecidableEq

/-- A line of standard output, by `std::cout` or by the log. -/
inductive Line where
  | out (text : Bytes)
  | log (message : Message)
deriving DecidableEq

/-! ## The three answers -/

/-- What is written of an answer: its lines, and the messages behind them. -/
structure Printed where
  lines : List Bytes
  log : List Message := []

def Printed.output (printed : Printed) : List Line :=
  printed.lines.map .out ++ printed.log.map .log

/-- One of the three functions: its request, the agent it leaves, what it wrote and logged behind
that, and its return value. -/
structure Status extends Printed where
  request : Request
  agent : Agent
  exit : Exit

/-- What is written of a text, or the error that is logged. -/
abbrev Printer := Bytes → Except Bytes Printed

/-- The frame of the three functions. -/
def fetch (network : Network) (url : Bytes × Agent) (print : Printer) : Status :=
  let r := getFrom network url []
  match r.2 with
  | .error what =>
    ⟨⟨[], [⟨.FATAL, ascii "cpr threw an exception: " ++ cStr what⟩]⟩, r.1, url.2, .aborted⟩
  | .ok response =>
    if response.statusCode ≠ 200 then
      ⟨⟨[], [⟨.ERROR, ascii "consul returned error " ++ decimalInt response.statusCode⟩]⟩, r.1,
        url.2, .EX_TEMPFAIL⟩
    else
      match print response.text with
      | .error message => ⟨⟨[], [⟨.ERROR, message⟩]⟩, r.1, url.2, .EX_PROTOCOL⟩
      | .ok printed => ⟨printed, r.1, url.2, .EX_OK⟩

def printLeader (debugFlag : Bool) : Printer := fun text =>
  let leader := Peer.initFromText {} text []
  if leader.ok then
    .ok ⟨[ascii "Leader: " ++ leader.target.str],
      if debugFlag then
        [⟨.INFO, ascii "Host: " ++ leader.target.host⟩,
          ⟨.INFO, ascii "Port: " ++ decimal leader.target.port.toNat⟩,
          ⟨.INFO, ascii "JSON: " ++ leader.target.json⟩]
      else []⟩
  else .error (ascii "Failed to load leader from JSON: " ++ leader.err)

def printPeers : Printer := fun text =>
  let peers := initFromJsonPeers [] text []
  if peers.ok then
    .ok { lines := peers.target.map fun peer => ascii "JSON Peer: " ++ peer.json }
  else .error (ascii "Failed to load peers from JSON: " ++ peers.err)

def printSelf : Printer := fun text =>
  let parsed := parse text []
  let jsr := parsed.1
  if parsed.2 ≠ [] then .error (ascii "Unable to parse json: " ++ parsed.2)
  else
    let path := [ascii "consul", ascii "agent", ascii "status"]
    .ok {
      lines := statusSelfConfig (subscript jsr (ascii "Config")) path ++
        statusSelfCoord (subscript jsr (ascii "Coord")) path ++
        statusSelfMember (subscript jsr (ascii "Member")) path }

def statusLeader (debugFlag : Bool) (network : Network) (agent : Agent) : Status :=
  fetch network agent.statusLeaderUrl (printLeader debugFlag)

def statusPeers (network : Network) (agent : Agent) : Status :=
  fetch network agent.statusPeersUrl printPeers

def statusSelf (network : Network) (agent : Agent) : Status :=
  fetch network agent.selfUrl printSelf

/-! ## The command line -/

def statusValues : List Bytes := [ascii "all", ascii "leader", ascii "peers", ascii "self"]

structure CommandLine where
  debug : Bool
  host : Option Bytes
  port : Option UInt16
  status : Option Bytes
  status_constraint : ∀ v, status = some v → v ∈ statusValues

namespace StatusFlags

def NONE : Int32 := 0
def LEADER : Int32 := (1 : Int32) <<< 1
def PEERS : Int32 := (1 : Int32) <<< 2
def SELF : Int32 := (1 : Int32) <<< 3
def ALL : Int32 := 2147483647

end StatusFlags

/-- `statusFlags` behind the options, or the fatal message about another value. -/
def interpretStatus (c : CommandLine) : Except Message Int32 :=
  match c.status with
  | none => .ok (StatusFlags.NONE ||| StatusFlags.ALL)
  | some v =>
    if v = ascii "all" then .ok (StatusFlags.NONE ||| StatusFlags.ALL)
    else if v = ascii "leader" then .ok (StatusFlags.NONE ||| StatusFlags.LEADER)
    else if v = ascii "peers" then .ok (StatusFlags.NONE ||| StatusFlags.PEERS)
    else if v = ascii "self" then .ok (StatusFlags.NONE ||| StatusFlags.SELF)
    else .error ⟨.FATAL, ascii "Unsupported status type: " ++ v⟩

def agentOf (c : CommandLine) : Agent :=
  let agent : Agent := {}
  let agent := match c.host with
    | some host => (agent.setHost host).2
    | none => agent
  match c.port with
  | some port => (agent.setPort port).2
  | none => agent

/-! ## main -/

structure Report where
  requests : List Request
  output : List Line
  exit : Exit
deriving DecidableEq

/-- What `std::endl` ends. -/
def written (lines : List Bytes) : Bytes := lines.flatMap fun line => line ++ [chr '\n']

/-- `if (statusFlags & flag)`, the function, and the return at a failure. -/
def stage (flags flag : Int32) (status : Agent → Status) (rest : Agent → Report) (agent : Agent) :
    Report :=
  if flags &&& flag ≠ 0 then
    let ret := status agent
    if ret.exit ≠ .EX_OK then ⟨[ret.request], ret.output, ret.exit⟩
    else
      let later := rest ret.agent
      ⟨ret.request :: later.requests, ret.output ++ later.output, later.exit⟩
  else rest agent

def main (network : Network) (c : CommandLine) : Report :=
  match interpretStatus c with
  | .error message => ⟨[], [.log message], .aborted⟩
  | .ok statusFlags =>
    if statusFlags = StatusFlags.NONE then
      ⟨[], [.log ⟨.FATAL, ascii "No status type specified"⟩], .aborted⟩
    else
      stage statusFlags StatusFlags.LEADER (statusLeader c.debug network)
        (stage statusFlags StatusFlags.PEERS (statusPeers network)
          (stage statusFlags StatusFlags.SELF (statusSelf network) fun _ => ⟨[], [], .EX_OK⟩))
        (agentOf c)

end PgConsul.Playground.ConsulStatus
