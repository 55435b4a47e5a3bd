import PgConsul.Boost.LexicalCast

/-! # The agent object

`Agent` keeps five memoised URLs beside its address. A getter takes the object and answers the URL
and the object it leaves; an empty memo field is one that is not filled. `MemoValid` is what every
operation keeps: a filled field is the URL of the current host and port.
-/
namespace PgConsul.Consul
set_option autoImplicit false
open Foundations

/-! ## URLs -/

inductive Endpoint where
  | kvEndpointUrlPrefix | nodesUrl | selfUrl | statusLeaderUrl | statusPeersUrl
deriving DecidableEq

/-- The path of an endpoint behind its first slash. -/
def Endpoint.path : Endpoint → Bytes
  | kvEndpointUrlPrefix => ascii "v1/kv/"
  | nodesUrl => ascii "v1/catalog/nodes"
  | selfUrl => ascii "v1/agent/self"
  | statusLeaderUrl => ascii "v1/status/leader"
  | statusPeersUrl => ascii "v1/status/peers"

def hostport (host : Bytes) (port : UInt16) : Bytes := host ++ chr ':' :: decimal port.toNat

/-- The URL a getter writes into its stream. -/
def urlOf (host : Bytes) (port : UInt16) (e : Endpoint) : Bytes :=
  ascii "http://" ++ hostport host port ++ chr '/' :: e.path

/-! ## The object -/

def DEFAULT_HOST : Bytes := ascii "127.0.0.1"
def DEFAULT_PORT : UInt16 := 8500
def DEFAULT_PORT_MIN : UInt16 := 1
def DEFAULT_PORT_MAX : UInt16 := 65535
def DEFAULT_TIMEOUT_MS : UInt16 := 1000
def DEFAULT_TIMEOUT_MS_MIN : UInt16 := 1
def DEFAULT_TIMEOUT_MS_MAX : UInt16 := 65535

structure Agent where
  timeoutMs : UInt16 := DEFAULT_TIMEOUT_MS
  host : Bytes := DEFAULT_HOST
  cluster : Bytes := []
  port : UInt16 := DEFAULT_PORT
  kvEndpointUrlPrefix_ : Bytes := []
  leaderUrl_ : Bytes := []
  nodesUrl_ : Bytes := []
  peersUrl_ : Bytes := []
  selfUrl_ : Bytes := []
deriving DecidableEq

namespace Agent

def memo (a : Agent) : Endpoint → Bytes
  | .kvEndpointUrlPrefix => a.kvEndpointUrlPrefix_
  | .nodesUrl => a.nodesUrl_
  | .selfUrl => a.selfUrl_
  | .statusLeaderUrl => a.leaderUrl_
  | .statusPeersUrl => a.peersUrl_

def setMemo (a : Agent) (e : Endpoint) (url : Bytes) : Agent :=
  match e with
  | .kvEndpointUrlPrefix => { a with kvEndpointUrlPrefix_ := url }
  | .nodesUrl => { a with nodesUrl_ := url }
  | .selfUrl => { a with selfUrl_ := url }
  | .statusLeaderUrl => { a with leaderUrl_ := url }
  | .statusPeersUrl => { a with peersUrl_ := url }

def invalidateMemoizedUrls (a : Agent) : Agent :=
  { a with kvEndpointUrlPrefix_ := [], leaderUrl_ := [], nodesUrl_ := [], peersUrl_ := [],
           selfUrl_ := [] }

/-! ## Getters -/

/-- The body the five getters share. -/
def memoized (e : Endpoint) (a : Agent) : Bytes × Agent :=
  if a.memo e = [] then
    let url := urlOf a.host a.port e
    (url, a.setMemo e url)
  else (a.memo e, a)

def kvEndpointUrlPrefix : Agent → Bytes × Agent := memoized .kvEndpointUrlPrefix
def nodesUrl : Agent → Bytes × Agent := memoized .nodesUrl
def selfUrl : Agent → Bytes × Agent := memoized .selfUrl
def statusLeaderUrl : Agent → Bytes × Agent := memoized .statusLeaderUrl
def statusPeersUrl : Agent → Bytes × Agent := memoized .statusPeersUrl

/-- The prefix is asked for twice: for `reserve` and for `assign`. -/
def kvUrl (key : Bytes) (a : Agent) : Bytes × Agent :=
  let reserved := a.kvEndpointUrlPrefix.2
  let assigned := reserved.kvEndpointUrlPrefix
  (assigned.1 ++ key, assigned.2)

def portStr (a : Agent) : Bytes := Boost.lcastPutUnsigned a.port.toNat

def timeoutStr (a : Agent) : Bytes := Boost.lcastPutUnsigned a.timeoutMs.toNat

/-! ## Mutators -/

def setCluster (cluster : Bytes) (a : Agent) : Bool × Agent := (true, { a with cluster := cluster })

def setHost (host : Bytes) (a : Agent) : Bool × Agent :=
  (true, { a.invalidateMemoizedUrls with host := host })

def setPort (port : UInt16) (a : Agent) : Bool × Agent :=
  (true, { a.invalidateMemoizedUrls with port := port })

/-- `setPort(const std::string&)`: the memo fields are gone before the conversion can throw. -/
def setPortStr (port : Bytes) (a : Agent) : Bool × Agent :=
  let a := a.invalidateMemoizedUrls
  match Boost.lexicalCastPort port with
  | some port => (true, { a with port := port })
  | none => (false, a)

def setTimeoutMs (timeoutMs : UInt16) (a : Agent) : Bool × Agent :=
  (true, { a with timeoutMs := timeoutMs })

def equal (a b : Agent) : Bool := a.host = b.host && a.port = b.port

/-! ## What the memo fields hold -/

/-- Every memo field is empty or the URL of the current host and port. -/
def MemoValid (a : Agent) : Prop := ∀ e, a.memo e = [] ∨ a.memo e = urlOf a.host a.port e

theorem memo_setMemo (a : Agent) (e : Endpoint) (url : Bytes) (e' : Endpoint) :
    (a.setMemo e url).memo e' = if e' = e then url else a.memo e' := by
  cases e <;> cases e' <;> rfl

@[simp] theorem setMemo_host (a : Agent) (e : Endpoint) (url : Bytes) :
    (a.setMemo e url).host = a.host := by
  cases e <;> rfl

@[simp] theorem setMemo_port (a : Agent) (e : Endpoint) (url : Bytes) :
    (a.setMemo e url).port = a.port := by
  cases e <;> rfl

@[simp] theorem setMemo_cluster (a : Agent) (e : Endpoint) (url : Bytes) :
    (a.setMemo e url).cluster = a.cluster := by
  cases e <;> rfl

@[simp] theorem setMemo_timeoutMs (a : Agent) (e : Endpoint) (url : Bytes) :
    (a.setMemo e url).timeoutMs = a.timeoutMs := by
  cases e <;> rfl

theorem memoValid_of_empty {a : Agent} (h : ∀ e, a.memo e = []) : a.MemoValid :=
  fun e => Or.inl (h e)

/-- What the constructors build. -/
theorem memoValid_new (host : Bytes) (port : UInt16) : MemoValid { host := host, port := port } := by
  intro e
  left
  cases e <;> rfl

theorem memo_invalidate (a : Agent) (e : Endpoint) : a.invalidateMemoizedUrls.memo e = [] := by
  cases e <;> rfl

theorem MemoValid.memoized {a : Agent} (h : a.MemoValid) (e : Endpoint) :
    (a.memoized e).2.MemoValid := by
  unfold Agent.memoized
  split
  · intro e'
    simp only [memo_setMemo, setMemo_host, setMemo_port]
    split
    · next he => exact Or.inr (he ▸ rfl)
    · exact h e'
  · exact h

theorem MemoValid.memoized_url {a : Agent} (h : a.MemoValid) (e : Endpoint) :
    (a.memoized e).1 = urlOf a.host a.port e := by
  unfold Agent.memoized
  split
  · rfl
  · next hfull => exact (h e).resolve_left hfull

@[simp] theorem memoized_host (a : Agent) (e : Endpoint) : (a.memoized e).2.host = a.host := by
  unfold memoized
  split <;> simp

@[simp] theorem memoized_port (a : Agent) (e : Endpoint) : (a.memoized e).2.port = a.port := by
  unfold memoized
  split <;> simp

@[simp] theorem memoized_cluster (a : Agent) (e : Endpoint) :
    (a.memoized e).2.cluster = a.cluster := by
  unfold memoized
  split <;> simp

@[simp] theorem memoized_timeoutMs (a : Agent) (e : Endpoint) :
    (a.memoized e).2.timeoutMs = a.timeoutMs := by
  unfold memoized
  split <;> simp

theorem MemoValid.kvUrl {a : Agent} (h : a.MemoValid) (key : Bytes) :
    (a.kvUrl key).2.MemoValid := (h.memoized .kvEndpointUrlPrefix).memoized .kvEndpointUrlPrefix

theorem MemoValid.kvUrl_url {a : Agent} (h : a.MemoValid) (key : Bytes) :
    (a.kvUrl key).1 = urlOf a.host a.port .kvEndpointUrlPrefix ++ key := by
  have hprefix := (h.memoized .kvEndpointUrlPrefix).memoized_url .kvEndpointUrlPrefix
  rw [memoized_host, memoized_port] at hprefix
  exact congrArg (· ++ key) hprefix

theorem MemoValid.setTimeoutMs {a : Agent} (h : a.MemoValid) (timeoutMs : UInt16) :
    (a.setTimeoutMs timeoutMs).2.MemoValid := fun e => h e

theorem MemoValid.setCluster {a : Agent} (h : a.MemoValid) (cluster : Bytes) :
    (a.setCluster cluster).2.MemoValid := fun e => h e

theorem setHost_memoValid (host : Bytes) (a : Agent) : (a.setHost host).2.MemoValid :=
  memoValid_of_empty fun e => memo_invalidate a e

theorem setPort_memoValid (port : UInt16) (a : Agent) : (a.setPort port).2.MemoValid :=
  memoValid_of_empty fun e => memo_invalidate a e

theorem setPortStr_memoValid (port : Bytes) (a : Agent) : (a.setPortStr port).2.MemoValid := by
  unfold setPortStr
  split
  · exact memoValid_of_empty fun e => memo_invalidate a e
  · exact memoValid_of_empty fun e => memo_invalidate a e

end Agent

end PgConsul.Consul
