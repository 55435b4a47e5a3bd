import PgConsul.Extension.Contexts
import PgConsul.Extension.Session
import PgConsul.Foundations.Component

/-! # The extension in a server

A query may call set-returning functions in several places, row by row in turn, and change settings
or call other functions of the extension between two rows. Every place is a call site with a context
of its own; the agent belongs to the backend, and all sites and the session share it. A server is the
session and its call sites.
-/
namespace PgConsul.Extension
set_option autoImplicit false
open Foundations Consul Cpr

/-! ## One visit -/

/-- What the server is told by a set-returning call; a row is the C strings of its buffers. -/
inductive Told where
  | row (columns : List (Option Bytes))
  | done
  | null
  | unsupported (message : Bytes)
  | error (error : PgError)
  | undefined
deriving DecidableEq

def SrfReply.told : SrfReply → Told
  | next values => .row (cells values)
  | done => .done
  | null => .null
  | unsupported message => .unsupported message
  | error e => .error e
  | undefined => .undefined

/-- The state of a site behind a visit, the requests sent by it and what the server is told. -/
structure Visit (σ : Type) where
  state : σ
  requests : List Request
  told : Told

/-- The state in which a visit calls its function. -/
def SetReturning.start {ι α : Type} (e : Entry ι) (s : SrfState α) : SrfState α :=
  { SetReturning.enter e s with requests := [] }

/-- A call at a site; the error of a call ends its query, and the context is given up. -/
def SetReturning.visit {ι α : Type} (f : SetReturning ι α) (e : Entry ι) (s : SrfState α) :
    Visit (SrfState α) :=
  let r := f.call e.call (SetReturning.start e s)
  ⟨if r.2.raises then { r.1 with fnExtra := none } else r.1, r.1.requests, r.2.told⟩

/-- The end of a query, or a new run of it: the context is given up. -/
def SrfState.close {α : Type} (s : SrfState α) : SrfState α := { s with fnExtra := none }

/-! ## The server -/

abbrev Site := ℕ

structure Server where
  session : Session
  kvGets : Site → SrfState KVPair
  statusPeers : Site → SrfState Peer

inductive Action where
  | session (e : Event)
  | kvGet (site : Site) (context : MemoryContext) (call : KvGetCall)
  | statusPeers (site : Site) (context : MemoryContext) (call : Invocation)
  | closeKvGet (site : Site)
  | closeStatusPeers (site : Site)

inductive ServerReply where
  | session (reply : Reply)
  | srf (requests : List Request) (told : Told)
  | closed

/-- The session with the agent a call leaves. -/
def Session.withAgent (s : Session) (agent : Agent) : Session :=
  { s with globals := { s.globals with pgConsulAgent := agent } }

def Server.step (platform : Platform) (inputs : InputFunctions) (s : Server) :
    Action → Server × ServerReply
  | .session e =>
    let r := s.session.step platform e
    ({ s with session := r.1 }, .session r.2)
  | .kvGet site context call =>
    let r := (kvGet platform inputs).visit ⟨s.session.agent, context, call⟩ (s.kvGets site)
    ({ s with session := s.session.withAgent r.state.agent
              kvGets := Function.update s.kvGets site r.state }, .srf r.requests r.told)
  | .statusPeers site context call =>
    let r := (Extension.statusPeers inputs).visit ⟨s.session.agent, context, call⟩
      (s.statusPeers site)
    ({ s with session := s.session.withAgent r.state.agent
              statusPeers := Function.update s.statusPeers site r.state }, .srf r.requests r.told)
  | .closeKvGet site =>
    ({ s with kvGets := Function.update s.kvGets site (s.kvGets site).close }, .closed)
  | .closeStatusPeers site =>
    ({ s with statusPeers := Function.update s.statusPeers site (s.statusPeers site).close },
      .closed)

def server (platform : Platform) (inputs : InputFunctions) : Machine Server Action ServerReply :=
  ⟨Server.step platform inputs⟩

/-- Behind `_PG_init`, with no query running. -/
def serverInit : Server where
  session := pgInit
  kvGets _ := { agent := {}, current := 0 }
  statusPeers _ := { agent := {}, current := 0 }

end PgConsul.Extension
