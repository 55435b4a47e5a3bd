import PgConsul.Consul.AgentRefinement
import PgConsul.Consul.KVPairs
import PgConsul.Consul.Peer
import PgConsul.Cpr.Session
import PgConsul.Extension.Datum

/-! # The SQL functions

Every function takes the backend's agent and answers the requests it issued, the agent it leaves and
its result. `ereport(ERROR)` ends a function with a `PgError`; an exception of the HTTP client is
caught and becomes an error or, in the ping functions, the answer false.
-/
namespace PgConsul.Extension
set_option autoImplicit false
open Foundations Consul Cpr

inductive ErrCode where
  | FDW_UNABLE_TO_ESTABLISH_CONNECTION
  | FDW_REPLY_HANDLE
  | OBJECT_NOT_IN_PREREQUISITE_STATE
  /-- Raised by the server's input functions. -/
  | NUMERIC_VALUE_OUT_OF_RANGE
deriving DecidableEq

structure PgError where
  code : ErrCode
  message : Bytes
deriving DecidableEq

structure Called (α : Type) where
  requests : List Request
  agent : Agent
  result : α

/-- A request for one of the agent's URLs, with the agent's timeout. -/
def getFrom (network : Network) (url : Bytes × Agent) (content : Bytes) :
    Request × Except Bytes Response :=
  get network url.1 connectionClose url.2.timeoutMs.toNat content

/-! ## consul_agent_ping -/

def isAlive : Except Bytes Response → Bool
  | .ok r => r.statusCode = 200
  | .error _ => false

/-- What both ping functions do with their agent. -/
def pingSelf (network : Network) (agent : Agent) : Called Bool :=
  let selfUrl := agent.selfUrl
  let r := getFrom network selfUrl []
  ⟨[r.1], selfUrl.2, isAlive r.2⟩

def v1AgentPing0 (network : Network) (agent : Agent) : Called Bool := pingSelf network agent

/-- `consul::Agent::PortT port = PG_GETARG_INT32(1)`. -/
def narrowPort (port : Int32) : UInt16 := port.toUInt32.toUInt16

/-- `pg_consul_v1_agent_ping2`: the host is read as a C string, and `none` is a read that finds no
end. The agent is a local one. -/
def v1AgentPing2 (network : Network) (host : TextDatum) (port : Int32) : Option (Called Bool) :=
  host.constructed.map fun host => pingSelf network { host := host, port := narrowPort port }

def pingRequest (host : Bytes) (port timeoutMs : UInt16) : Request :=
  ⟨requestUrl (urlOf host port .selfUrl) [], connectionClose, timeoutMs.toNat⟩

/-! ## consul_kv_get -/

structure KvGetArgs where
  key : Option TextDatum
  recurse : Option Bool
  cluster : Option TextDatum

/-- The parameters `pg_consul_v1_kv_get` adds; three of them never are. -/
def kvGetContent (platform : Platform) (dcParam : Bytes) (recurseParam : Bool) : Bytes :=
  let casParam : UInt64 := 0
  let acquireParam : Bytes := []
  let flagsParam : UInt64 := 0
  let params : Bytes := []
  let params := if dcParam ≠ [] then addParameter platform params ⟨ascii "dc", dcParam⟩ else params
  let params := if recurseParam then addParameter platform params ⟨ascii "recurse", []⟩ else params
  let params :=
    if casParam ≠ 0 then addParameter platform params ⟨ascii "cas", indexStr casParam⟩ else params
  let params :=
    if flagsParam ≠ 0 then addParameter platform params ⟨ascii "flags", indexStr flagsParam⟩
    else params
  if acquireParam ≠ [] then addParameter platform params ⟨ascii "acquire", acquireParam⟩ else params

/-- The first call of `pg_consul_v1_kv_get`: the pairs it will return, or `none` for NULL. `memory`
is what the memory of the new pairs holds. -/
def v1KvGet (platform : Platform) (network : Network) (memory : ℕ → Indeterminate)
    (args : KvGetArgs) (agent : Agent) : Called (Except PgError (Option (List KVPair))) :=
  match args.key with
  | none => ⟨[], agent, .ok none⟩
  | some keyp =>
    let key := keyp.assigned
    let recurseParam := args.recurse.getD false
    let dcParam := (args.cluster.map (·.assigned)).getD []
    let kvUrl := agent.kvUrl key
    let r := getFrom network kvUrl (kvGetContent platform dcParam recurseParam)
    let result : Except PgError (Option (List KVPair)) :=
      match r.2 with
      | .error what =>
        .error ⟨.OBJECT_NOT_IN_PREREQUISITE_STATE, ascii "consul_kv_get() failed: " ++ cStr what⟩
      | .ok response =>
        if response.statusCode ≠ 200 then
          .error ⟨.FDW_UNABLE_TO_ESTABLISH_CONNECTION,
            ascii "consul_kv_get() returned error " ++ decimalInt response.statusCode⟩
        else
          let kvps := initFromJsonPairs platform memory [] response.text []
          if !kvps.ok then
            .error ⟨.FDW_REPLY_HANDLE, ascii "Failed to load KV pairs from JSON: " ++
              cStr kvps.err ++ ascii ": " ++ cStr response.text⟩
          else if !recurseParam ∧ 1 < kvps.target.length then
            .error ⟨.OBJECT_NOT_IN_PREREQUISITE_STATE,
              ascii "consul_kv_get() performed a non-recursive GET but received " ++
                decimal kvps.target.length ++ ascii " responses"⟩
          else .ok (some kvps.target)
    ⟨[r.1], kvUrl.2, result⟩

/-- A column buffer: the string and a NUL, of which `BuildTupleFromCStrings` reads a C string. -/
def column (s : Bytes) : Bytes := cStr (s ++ [0])

structure KvRow where
  key : Bytes
  value : Bytes
  flags : Bytes
  createIndex : Bytes
  modifyIndex : Bytes
  lockIndex : Bytes
  session : Bytes
deriving DecidableEq

/-- The row a later call of `pg_consul_v1_kv_get` builds of a pair. -/
def kvRow (kvp : KVPair) : KvRow where
  key := column kvp.key
  value := column kvp.value
  flags := column (indexStr kvp.flags)
  createIndex := column (indexStr kvp.createIndex)
  modifyIndex := column (indexStr kvp.modifyIndex)
  lockIndex := column (indexStr kvp.lockIndex)
  session := column kvp.session

/-! ## consul_status_leader -/

def connectionError (message : Bytes) (statusCode : ℤ) : PgError :=
  ⟨.FDW_UNABLE_TO_ESTABLISH_CONNECTION, message ++ decimalInt statusCode⟩

/-- `pg_consul_v1_status_leader`; `none` is NULL. -/
def v1StatusLeader (network : Network) (agent : Agent) :
    Called (Except PgError (Option Bytes)) :=
  let url := agent.statusLeaderUrl
  let r := getFrom network url []
  let result : Except PgError (Option Bytes) :=
    match r.2 with
    | .error what =>
      .error ⟨.OBJECT_NOT_IN_PREREQUISITE_STATE,
        ascii "consul_status_leader() failed: " ++ cStr what⟩
    | .ok response =>
      if response.statusCode ≠ 200 then
        .error (connectionError (ascii "consul_status_leader() returned error ")
          response.statusCode)
      else if response.text.length = 0 then .ok none
      else
        let leader := Peer.initFromText {} response.text []
        if !leader.ok then
          .error ⟨.FDW_REPLY_HANDLE, ascii "Failed to load leader from JSON: " ++ cStr leader.err⟩
        else .ok (some (cStr leader.target.str))
  ⟨[r.1], url.2, result⟩

/-! ## consul_status_peers -/

/-- The first call of `pg_consul_v1_status_peers`. The second request is issued only behind a leader
that decodes, and its decoder gets the error text of the first. -/
def v1StatusPeers (network : Network) (agent : Agent) : Called (Except PgError (List Peer)) :=
  let leaderUrl := agent.statusLeaderUrl
  let r := getFrom network leaderUrl []
  match r.2 with
  | .error what =>
    ⟨[r.1], leaderUrl.2, .error ⟨.OBJECT_NOT_IN_PREREQUISITE_STATE,
      ascii "consul_status_peers() failed: " ++ cStr what⟩⟩
  | .ok response =>
    if response.statusCode ≠ 200 then
      ⟨[r.1], leaderUrl.2, .error
        (connectionError (ascii "consul_status_leader() returned error ") response.statusCode)⟩
    else
      let leader := Peer.initFromText {} response.text []
      if !leader.ok then
        ⟨[r.1], leaderUrl.2, .error ⟨.FDW_REPLY_HANDLE,
          ascii "Failed to load leader from JSON: " ++ cStr leader.err⟩⟩
      else
        let peersUrl := leaderUrl.2.statusPeersUrl
        let s := getFrom network peersUrl []
        let result : Except PgError (List Peer) :=
          match s.2 with
          | .error what =>
            .error ⟨.OBJECT_NOT_IN_PREREQUISITE_STATE,
              ascii "consul_status_peers() failed: " ++ cStr what⟩
          | .ok response =>
            if response.statusCode ≠ 200 then
              .error (connectionError (ascii "consul_status_peers() returned error ")
                response.statusCode)
            else
              let peers := initFromJsonPeers [] response.text leader.err
              if !peers.ok then
                .error ⟨.FDW_REPLY_HANDLE, ascii "Failed to load peers from JSON: " ++
                  cStr peers.err ++ ascii ": " ++ cStr response.text⟩
              else .ok (markLeader leader.target peers.target)
        ⟨[r.1, s.1], peersUrl.2, result⟩

structure PeerRow where
  host : Bytes
  port : Bytes
  leader : Bytes
deriving DecidableEq

/-- The row a later call of `pg_consul_v1_status_peers` builds of a peer. -/
def peerRow (peer : Peer) : PeerRow where
  host := column peer.host
  port := column peer.portStr
  leader := column (if peer.leader then ascii "t" else ascii "f")

end PgConsul.Extension
