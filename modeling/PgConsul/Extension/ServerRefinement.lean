import PgConsul.Extension.Server

/-! # The server refines a plain one

The plain server keeps the three settings and, for every call site, the rows it still owes. It has no
agent but builds one for each call and throws it away, and it has no counters, cursors or buffers.
The server answers every action as the plain one does, `SHOW` included: of the host both show the
value, of the port and the timeout what stands in memory.
-/
namespace PgConsul.Extension
set_option autoImplicit false
open Foundations Consul Cpr

/-! ## The plain session -/

structure Configuration where
  agentHost : Bytes
  agentPort : Int32
  agentTimeoutMs : Int32

/-- The host, or what stands in memory. -/
def Configuration.shown (c : Configuration) (memory : Memory) : Variable → Option Bytes
  | .agent_host => some c.agentHost
  | .agent_port | .agent_timeout => readCString memory

/-- A new agent with the values of the settings. -/
def Configuration.agent (c : Configuration) : Agent where
  host := c.agentHost
  port := narrowPort c.agentPort
  timeoutMs := narrowPort c.agentTimeoutMs

def plainHost : Setting Configuration Bytes where
  check := hostSetting.check
  get c := c.agentHost
  put newHost c := { c with agentHost := newHost }
  assign _ c := c

def plainPort : Setting Configuration Int32 where
  check := portSetting.check
  get c := c.agentPort
  put newPort c := { c with agentPort := newPort }
  assign _ c := c

def plainTimeout : Setting Configuration Int32 where
  check := timeoutSetting.check
  get c := c.agentTimeoutMs
  put newvalue c := { c with agentTimeoutMs := newvalue }
  assign _ c := c

structure PlainSession where
  configuration : Configuration
  hostPast : Past Bytes
  portPast : Past Int32
  timeoutPast : Past Int32

def PlainSession.agent (s : PlainSession) : Agent := s.configuration.agent

def answered {α : Type} (c : Called α) (answer : α → Answer) : Reply :=
  ⟨c.requests, answer c.result⟩

def PlainSession.step (platform : Platform) (s : PlainSession) : Event → PlainSession × Reply
  | .host c =>
    let r := plainHost.step c s.configuration s.hostPast
    ({ s with configuration := r.2.1, hostPast := r.2.2 }, ⟨[], .changed r.1⟩)
  | .port c =>
    let r := plainPort.step c s.configuration s.portPast
    ({ s with configuration := r.2.1, portPast := r.2.2 }, ⟨[], .changed r.1⟩)
  | .timeout c =>
    let r := plainTimeout.step c s.configuration s.timeoutPast
    ({ s with configuration := r.2.1, timeoutPast := r.2.2 }, ⟨[], .changed r.1⟩)
  | .showVariable v memory => (s, ⟨[], .shown (s.configuration.shown memory v)⟩)
  | .ping0 network => (s, answered (v1AgentPing0 network s.agent) .ping)
  | .ping2 network host port =>
    match v1AgentPing2 network host port with
    | some c => (s, answered c .ping)
    | none => (s, ⟨[], .undefined⟩)
  | .kvGet network memory args =>
    (s, answered (v1KvGet platform network memory args s.agent) .pairs)
  | .statusLeader network => (s, answered (v1StatusLeader network s.agent) .leader)
  | .statusPeers network => (s, answered (v1StatusPeers network s.agent) .peers)

/-! ## The plain call sites -/

section Plain
variable {ι α : Type}

/-- The rows a run still owes; behind the last one it finishes, and at a row that is refused. -/
def SetReturning.emit (f : SetReturning ι α) (columns : α → List Bytes) :
    List α → Option (List α) × Told
  | [] => (none, .done)
  | x :: xs =>
    match f.build ((columns x).map some) with
    | some e => (none, .error e)
    | none => (some xs, .row ((columns x).map some))

/-- The server's 32-bit limit on the rows of a run. -/
def countable (objs : List α) : List α := objs.take (objs.length % 2 ^ 32)

/-- A call at a site that owes `owed`, or has no open run. -/
def SetReturning.plainVisit (f : SetReturning ι α) (columns : α → List Bytes) (agent : Agent)
    (i : ι) : Option (List α) → Visit (Option (List α))
  | some owed =>
    let r := f.emit columns owed
    ⟨r.1, [], r.2⟩
  | none =>
    if !f.composite i then
      ⟨none, [], .unsupported (ascii "function returning record called in context " ++
        ascii "that cannot accept type record")⟩
    else
      let r := f.load i agent
      match r.result with
      | .error e => ⟨none, r.requests, .error e⟩
      | .ok none => ⟨some [], r.requests, .null⟩
      | .ok (some objs) =>
        let e := f.emit columns (countable objs)
        ⟨e.1, r.requests, e.2⟩

end Plain

/-! ## The plain server -/

structure PlainServer where
  session : PlainSession
  kvGets : Site → Option (List KVPair)
  statusPeers : Site → Option (List Peer)

def PlainServer.step (platform : Platform) (inputs : InputFunctions) (s : PlainServer) :
    Action → PlainServer × ServerReply
  | .session e =>
    let r := s.session.step platform e
    ({ s with session := r.1 }, .session r.2)
  | .kvGet site _ call =>
    let r := (kvGet platform inputs).plainVisit kvColumns s.session.agent call (s.kvGets site)
    ({ s with kvGets := Function.update s.kvGets site r.state }, .srf r.requests r.told)
  | .statusPeers site _ call =>
    let r := (Extension.statusPeers inputs).plainVisit peerColumns s.session.agent call
      (s.statusPeers site)
    ({ s with statusPeers := Function.update s.statusPeers site r.state }, .srf r.requests r.told)
  | .closeKvGet site => ({ s with kvGets := Function.update s.kvGets site none }, .closed)
  | .closeStatusPeers site =>
    ({ s with statusPeers := Function.update s.statusPeers site none }, .closed)

def plainServer (platform : Platform) (inputs : InputFunctions) :
    Machine PlainServer Action ServerReply :=
  ⟨PlainServer.step platform inputs⟩

def plainInit : PlainServer where
  session :=
    { configuration := ⟨PG_CONSUL_AGENT_HOST_DEFAULT, PG_CONSUL_AGENT_PORT_DEFAULT,
        PG_CONSUL_AGENT_TIMEOUT_DEFAULT⟩
      hostPast := ⟨PG_CONSUL_AGENT_HOST_DEFAULT, []⟩
      portPast := ⟨PG_CONSUL_AGENT_PORT_DEFAULT, []⟩
      timeoutPast := ⟨PG_CONSUL_AGENT_TIMEOUT_DEFAULT, []⟩ }
  kvGets _ := none
  statusPeers _ := none

/-! ## Agents that answer alike -/

structure Alike (a b : Agent) : Prop where
  left : a.MemoValid
  right : b.MemoValid
  host : a.host = b.host
  port : a.port = b.port
  timeoutMs : a.timeoutMs = b.timeoutMs

/-- The requests and the result are the same; the agents left behind may differ. -/
def SameCall {α : Type} (c d : Called α) : Prop := c.requests = d.requests ∧ c.result = d.result

theorem sameCall_ite {α : Type} {P : Prop} [Decidable P] {c c' d d' : Called α}
    (h : SameCall c d) (h' : SameCall c' d') :
    SameCall (if P then c else c') (if P then d else d') := by
  split
  · exact h
  · exact h'

namespace Alike
variable {a b : Agent}

theorem memoized (h : Alike a b) (e : Endpoint) : Alike (a.memoized e).2 (b.memoized e).2 where
  left := h.left.memoized e
  right := h.right.memoized e
  host := by rw [Agent.memoized_host, Agent.memoized_host, h.host]
  port := by rw [Agent.memoized_port, Agent.memoized_port, h.port]
  timeoutMs := by rw [Agent.memoized_timeoutMs, Agent.memoized_timeoutMs, h.timeoutMs]

theorem getFrom (h : Alike a b) (network : Network) (e : Endpoint) (content : Bytes) :
    getFrom network (a.memoized e) content = getFrom network (b.memoized e) content := by
  simp only [Extension.getFrom, h.left.memoized_url, h.right.memoized_url, h.host, h.port,
    Agent.memoized_timeoutMs, h.timeoutMs]

theorem getFrom_key (h : Alike a b) (network : Network) (key content : Bytes) :
    Extension.getFrom network (a.kvUrl key) content =
      Extension.getFrom network (b.kvUrl key) content := by
  have htimeout : (a.kvUrl key).2.timeoutMs = (b.kvUrl key).2.timeoutMs :=
    ((h.memoized .kvEndpointUrlPrefix).memoized .kvEndpointUrlPrefix).timeoutMs
  simp only [Extension.getFrom, h.left.kvUrl_url, h.right.kvUrl_url, h.host, h.port, htimeout]

theorem pingSelf (h : Alike a b) (network : Network) :
    SameCall (pingSelf network a) (pingSelf network b) := by
  have hget := h.getFrom network .selfUrl []
  simp only [SameCall, Extension.pingSelf, Agent.selfUrl, hget, and_self]

theorem v1KvGet (h : Alike a b) (platform : Platform) (network : Network)
    (memory : ℕ → Indeterminate) (args : KvGetArgs) :
    SameCall (v1KvGet platform network memory args a)
      (v1KvGet platform network memory args b) := by
  unfold SameCall Extension.v1KvGet
  cases hkey : args.key with
  | none => exact ⟨rfl, rfl⟩
  | some keyp => simp only [h.getFrom_key, and_self]

theorem v1StatusLeader (h : Alike a b) (network : Network) :
    SameCall (v1StatusLeader network a) (v1StatusLeader network b) := by
  have hget := h.getFrom network .statusLeaderUrl []
  simp only [SameCall, Extension.v1StatusLeader, Agent.statusLeaderUrl, hget, and_self]

theorem v1StatusPeers (h : Alike a b) (network : Network) :
    SameCall (v1StatusPeers network a) (v1StatusPeers network b) := by
  have hget := h.getFrom network .statusLeaderUrl []
  have hnext := (h.memoized .statusLeaderUrl).getFrom network .statusPeersUrl []
  unfold Extension.v1StatusPeers
  simp only [Agent.statusLeaderUrl, Agent.statusPeersUrl, hget, hnext]
  cases (Extension.getFrom network (b.memoized .statusLeaderUrl) []).2 with
  | error what => exact ⟨rfl, rfl⟩
  | ok response => exact sameCall_ite ⟨rfl, rfl⟩ (sameCall_ite ⟨rfl, rfl⟩ ⟨rfl, rfl⟩)

end Alike

/-! ## Sessions -/

structure SameValues (g : Globals) (c : Configuration) : Prop where
  host : g.agentHostString = c.agentHost
  port : g.agentPort = c.agentPort
  timeout : g.agentTimeoutMs = c.agentTimeoutMs

structure Mirrors (s : Session) (p : PlainSession) : Prop where
  consistent : Consistent s
  values : SameValues s.globals p.configuration
  hostPast : s.hostPast = p.hostPast
  portPast : s.portPast = p.portPast
  timeoutPast : s.timeoutPast = p.timeoutPast

theorem narrowPort_eq {least most : UInt16} {value : Int32} {port : UInt16}
    (h : inBounds least most value = true) (hport : value.toInt = port.toNat) :
    port = narrowPort value := by
  apply UInt16.toNat_inj.mp
  have hnarrow := narrowPort_of_inBounds h
  omega

theorem Mirrors.alike {s : Session} {p : PlainSession} (h : Mirrors s p) :
    Alike s.agent p.agent where
  left := h.consistent.inStep.memoValid
  right := Agent.memoValid_of_empty fun e => by cases e <;> rfl
  host := h.consistent.inStep.host.trans h.values.host
  port := by
    have hport := narrowPort_eq h.consistent.port.current h.consistent.inStep.port
    exact hport.trans (congrArg narrowPort h.values.port)
  timeoutMs := by
    have htimeout := narrowPort_eq h.consistent.timeout.current h.consistent.inStep.timeout
    exact htimeout.trans (congrArg narrowPort h.values.timeout)

theorem SameValues.withAgent {g : Globals} {c : Configuration} (h : SameValues g c)
    (agent : Agent) : SameValues { g with pgConsulAgent := agent } c := ⟨h.host, h.port, h.timeout⟩

/-- A call leaves the session consistent and answers as with the plain agent. -/
theorem Mirrors.called {α : Type} {s : Session} {p : PlainSession} (h : Mirrors s p)
    {c d : Called α} (hc : Honours s.agent c) (hsame : SameCall c d) (answer : α → Answer) :
    Mirrors (s.called c answer).1 p ∧ (s.called c answer).2 = answered d answer := by
  refine ⟨⟨h.consistent.called hc answer, h.values.withAgent _, h.hostPast, h.portPast,
    h.timeoutPast⟩, ?_⟩
  simp only [Session.called, answered, hsame.1, hsame.2]

theorem Mirrors.shown {s : Session} {p : PlainSession} (h : Mirrors s p) (v : Variable)
    (memory : Memory) :
    Answer.shown ((v.showHook s.globals).read memory) =
      .shown (p.configuration.shown memory v) := by
  have haccepted := h.consistent.host.current
  cases v with
  | agent_host =>
    rw [Configuration.shown, ← h.values.host]
    exact congrArg (fun text => Answer.shown (some text))
      (cStr_eq_self (agentHostCheckHook_delimiter haccepted (by decide)))
  | agent_port | agent_timeout => rfl

theorem Mirrors.step {s : Session} {p : PlainSession} (h : Mirrors s p) (platform : Platform)
    (e : Event) :
    Mirrors (s.step platform e).1 (p.step platform e).1 ∧
      (s.step platform e).2 = (p.step platform e).2 := by
  have hconsistent : Consistent (s.step platform e).1 := h.consistent.step platform e
  have halike := h.alike
  have hmemo := halike.left
  cases e with
  | host c =>
    obtain ⟨haccepted, hvalues, hpast⟩ := Setting.step_related (v := hostSetting) (w := plainHost)
      (R := SameValues) (fun _ => rfl) (fun hv => hv.host)
      (fun _ hv => ⟨rfl, hv.port, hv.timeout⟩) h.values s.hostPast c
    rw [h.hostPast] at haccepted hvalues hpast
    simp only [Session.step, PlainSession.step, h.hostPast] at hconsistent ⊢
    exact ⟨⟨hconsistent, hvalues, hpast, h.portPast, h.timeoutPast⟩, by rw [haccepted]⟩
  | port c =>
    obtain ⟨haccepted, hvalues, hpast⟩ := Setting.step_related (v := portSetting) (w := plainPort)
      (R := SameValues) (fun _ => rfl) (fun hv => hv.port)
      (fun _ hv => ⟨hv.host, rfl, hv.timeout⟩) h.values s.portPast c
    rw [h.portPast] at haccepted hvalues hpast
    simp only [Session.step, PlainSession.step, h.portPast] at hconsistent ⊢
    exact ⟨⟨hconsistent, hvalues, h.hostPast, hpast, h.timeoutPast⟩, by rw [haccepted]⟩
  | timeout c =>
    obtain ⟨haccepted, hvalues, hpast⟩ := Setting.step_related (v := timeoutSetting)
      (w := plainTimeout) (R := SameValues) (fun _ => rfl) (fun hv => hv.timeout)
      (fun _ hv => ⟨hv.host, hv.port, rfl⟩) h.values s.timeoutPast c
    rw [h.timeoutPast] at haccepted hvalues hpast
    simp only [Session.step, PlainSession.step, h.timeoutPast] at hconsistent ⊢
    exact ⟨⟨hconsistent, hvalues, h.hostPast, h.portPast, hpast⟩, by rw [haccepted]⟩
  | showVariable v memory => exact ⟨h, congrArg _ (h.shown v memory)⟩
  | ping0 network => exact h.called (pingSelf_honours network hmemo) (halike.pingSelf network) .ping
  | ping2 network host port =>
    cases hcall : v1AgentPing2 network host port with
    | none =>
      simp only [Session.step, PlainSession.step, hcall]
      exact ⟨h, trivial⟩
    | some c =>
      simp only [Session.step, PlainSession.step, hcall]
      exact ⟨h, rfl⟩
  | kvGet network memory args =>
    exact h.called (v1KvGet_honours platform network memory args hmemo)
      (halike.v1KvGet platform network memory args) .pairs
  | statusLeader network =>
    exact h.called (v1StatusLeader_honours network hmemo) (halike.v1StatusLeader network) .leader
  | statusPeers network =>
    exact h.called (v1StatusPeers_honours network hmemo) (halike.v1StatusPeers network) .peers

theorem Mirrors.withAgent {s : Session} {p : PlainSession} (h : Mirrors s p) {agent : Agent}
    (hmemo : agent.MemoValid) (hsettings : agent.settings = s.agent.settings) :
    Mirrors (s.withAgent agent) p := by
  have hc : Honours s.agent (⟨[], agent, ()⟩ : Called Unit) :=
    ⟨hmemo, hsettings, fun r hr => absurd hr List.not_mem_nil⟩
  exact (h.called hc ⟨rfl, rfl⟩ fun _ => .undefined).1

/-! ## Visits -/

namespace SetReturning
variable {ι α : Type} {f : SetReturning ι α}

/-- The rows a site owes: those behind the cursor, up to the server's limit. -/
inductive Owes (s : SrfState α) : Option (List α) → Prop where
  | idle (fresh : s.fnExtra = none) : Owes s none
  | active {funcctx : FuncCallContext α} {fctx : Fctx α} (running : Running s funcctx fctx) :
      Owes s (some ((countable fctx.objs).drop fctx.iter))

theorem owes_nil {s : SrfState α} (h : ∃ funcctx, Running s funcctx ⟨[], 0⟩) : Owes s (some []) := by
  obtain ⟨funcctx, running⟩ := h
  exact .active running

/-- A row of the function is the columns of its element, whatever its buffers held before. -/
def Writes (f : SetReturning ι α) (columns : α → List Bytes) : Prop :=
  ∀ i obj, cells (f.values i obj) = (columns obj).map some

/-- The first call sends its requests to the agent it gets and answers by that agent's settings. -/
structure LoadsByAgent (f : SetReturning ι α) : Prop where
  honours : ∀ i {a : Agent}, a.MemoValid → Honours a (f.load i a)
  alike : ∀ i {a b : Agent}, Alike a b → SameCall (f.load i a) (f.load i b)

variable {columns : α → List Bytes}

/-- What the reply of a call and the state behind it come to at the server. -/
structure Emits (t : SrfState α) (r : SrfState α × SrfReply) (e : Option (List α) × Told) : Prop where
  owes : Owes (if r.2.raises then { r.1 with fnExtra := none } else r.1) e.1
  told : r.2.told = e.2
  agent : r.1.agent = t.agent
  requests : r.1.requests = t.requests

theorem length_countable (objs : List α) : (countable objs).length = objs.length % 2 ^ 32 := by
  rw [countable, List.length_take, min_eq_left (Nat.mod_le _ _)]

/-- The element at the cursor is the first that is owed. -/
theorem countable_drop {objs : List α} {k : ℕ} {obj : α} (hlt : k < objs.length % 2 ^ 32)
    (hobj : objs[k]? = some obj) :
    (countable objs).drop k = obj :: (countable objs).drop (k + 1) := by
  obtain ⟨hk, hget⟩ := List.getElem?_eq_some_iff.mp hobj
  rw [List.drop_eq_getElem_cons (length_countable objs ▸ hlt)]
  simp only [countable, List.getElem_take, hget]

/-- A row, the end, or the error of a row, and nothing else moves. -/
theorem Running.perCall_emit (hwrites : f.Writes columns) {t : SrfState α}
    {funcctx : FuncCallContext α} {fctx : Fctx α} (h : Running t funcctx fctx) (i : ι) :
    Emits t (f.perCall i t) (f.emit columns ((countable fctx.objs).drop fctx.iter)) := by
  have hlength := length_countable fctx.objs
  by_cases hlt : fctx.iter < fctx.objs.length % 2 ^ 32
  · obtain ⟨obj, hobj⟩ := exists_current hlt
    rw [countable_drop hlt hobj, emit, ← hwrites i obj]
    cases hbuild : f.build (cells (f.values i obj)) with
    | none =>
      obtain ⟨funcctx', hcall, hnext⟩ := h.perCall_next (f := f) i hlt hobj hbuild
      rw [hcall]
      exact ⟨.active hnext, rfl, rfl, rfl⟩
    | some e =>
      rw [h.perCall_error i hlt hobj hbuild]
      exact ⟨.idle rfl, rfl, rfl, rfl⟩
  · rw [List.drop_eq_nil_of_le (by omega), h.perCall_done i hlt]
    exact ⟨.idle rfl, rfl, rfl, rfl⟩

/-- What a visit keeps of the agent, and that it tells and sends what the plain visit does. -/
structure VisitMirrors (a : Agent) (v : Visit (SrfState α)) (p : Visit (Option (List α))) : Prop where
  owes : Owes v.state p.state
  requests : v.requests = p.requests
  told : v.told = p.told
  memoValid : v.state.agent.MemoValid
  settings : v.state.agent.settings = a.settings

theorem visit_raises {e : Entry ι} {s s' : SrfState α} {reply : SrfReply}
    (h : f.call e.call (start e s) = (s', reply))
    (hraises : reply.raises = true) :
    f.visit e s = ⟨{ s' with fnExtra := none }, s'.requests, reply.told⟩ := by
  rw [visit, h]
  simp only [hraises, if_true]

theorem visit_returns {e : Entry ι} {s s' : SrfState α} {reply : SrfReply}
    (h : f.call e.call (start e s) = (s', reply)) (hraises : reply.raises = false) :
    f.visit e s = ⟨s', s'.requests, reply.told⟩ := by
  rw [visit, h]
  simp only [hraises, Bool.false_eq_true, if_false]

/-- A visit that comes to the rows, behind a first call or at once. -/
theorem Running.visit_mirrors (hwrites : f.Writes columns) {a : Agent} {e : Entry ι}
    {s t : SrfState α} {funcctx : FuncCallContext α} {fctx : Fctx α}
    (h : Running t funcctx fctx)
    (hcall : f.call e.call (start e s) = f.perCall e.call t)
    (hmemo : t.agent.MemoValid) (hsettings : t.agent.settings = a.settings) :
    let r := f.emit columns ((countable fctx.objs).drop fctx.iter)
    VisitMirrors a (f.visit e s) ⟨r.1, t.requests, r.2⟩ := by
  obtain ⟨howes, htold, hagent, hrequests⟩ := h.perCall_emit hwrites e.call
  have hkept : (f.visit e s).state.agent = t.agent := by
    rw [visit, hcall]
    dsimp only
    split
    · exact hagent
    · exact hagent
  rw [← hcall] at howes htold hrequests
  exact ⟨howes, hrequests, htold, hkept ▸ hmemo, (congrArg Agent.settings hkept).trans hsettings⟩

theorem visit_mirrors (hwrites : f.Writes columns) (hloads : f.LoadsByAgent) {a b : Agent}
    (h : Alike a b) {s : SrfState α} {owed : Option (List α)} (howes : Owes s owed)
    (context : MemoryContext) (i : ι) :
    VisitMirrors a (f.visit ⟨a, context, i⟩ s) (f.plainVisit columns b i owed) := by
  cases howes with
  | @active funcctx fctx running =>
    have hentered : Running (start ⟨a, context, i⟩ s) funcctx fctx :=
      ⟨running.context, running.user, running.counted, running.limit, running.within⟩
    exact hentered.visit_mirrors hwrites (hentered.call_eq i) h.left rfl
  | idle fresh =>
    have hhonours := hloads.honours i h.left
    obtain ⟨hrequests, hresult⟩ := hloads.alike i h
    have hfirst : f.entered i (start ⟨a, context, i⟩ s) =
        f.firstCall i (start ⟨a, context, i⟩ s) := by
      rw [entered, show (start ⟨a, context, i⟩ s).fnExtra = none from fresh]
    rw [firstCall] at hfirst
    rw [plainVisit]
    cases hcomposite : f.composite i with
    | false =>
      simp only [hcomposite, Bool.not_false, if_true] at hfirst ⊢
      rw [visit_raises (by rw [call, hfirst]) rfl]
      exact ⟨.idle rfl, rfl, rfl, h.left, rfl⟩
    | true =>
      simp only [hcomposite, Bool.not_true, Bool.false_eq_true, if_false, ← hresult, ← hrequests,
        show (start ⟨a, context, i⟩ s).agent = a from rfl] at hfirst ⊢
      cases hload : (f.load i a).result with
      | error e =>
        rw [hload] at hfirst
        rw [visit_raises (by rw [call, hfirst]) rfl]
        exact ⟨.idle rfl, rfl, rfl, hhonours.memoValid, hhonours.settings⟩
      | ok loaded =>
        rw [hload] at hfirst
        cases loaded with
        | none =>
          rw [visit_returns (by rw [call, hfirst]) rfl]
          refine ⟨owes_nil ?_, rfl, rfl, hhonours.memoValid, hhonours.settings⟩
          exact ⟨_, rfl, rfl, rfl, rfl, Nat.zero_le _⟩
        | some objs =>
          obtain ⟨t, ht, running, hagent, hsent⟩ : ∃ t,
              f.entered i (start ⟨a, context, i⟩ s) = (t, none) ∧
                (∃ funcctx, Running t funcctx ⟨objs, 0⟩) ∧ t.agent = (f.load i a).agent ∧
                t.requests = (f.load i a).requests :=
            ⟨_, hfirst, ⟨_, rfl, rfl, rfl, rfl, Nat.zero_le _⟩, rfl, rfl⟩
          obtain ⟨funcctx, running⟩ := running
          have hmirrors := running.visit_mirrors (a := a) (e := ⟨a, context, i⟩) (s := s) hwrites
            (by rw [call, ht]) (hagent ▸ hhonours.memoValid) (hagent ▸ hhonours.settings)
          rw [hsent] at hmirrors
          exact hmirrors

end SetReturning

theorem kvGet_writes (platform : Platform) (inputs : InputFunctions) :
    (kvGet platform inputs).Writes kvColumns :=
  fun i kvp => kvRow_of_kvGetValues i.memory kvp

theorem statusPeers_writes (inputs : InputFunctions) : (statusPeers inputs).Writes peerColumns :=
  fun i peer => peerRow_of_statusPeersValues i.memory peer

theorem kvGet_loadsByAgent (platform : Platform) (inputs : InputFunctions) :
    (kvGet platform inputs).LoadsByAgent where
  honours i _ h := v1KvGet_honours platform i.network i.pairs i.args h
  alike i _ _ h := h.v1KvGet platform i.network i.pairs i.args

theorem statusPeers_loadsByAgent (inputs : InputFunctions) :
    (statusPeers inputs).LoadsByAgent where
  honours i _ h := by
    have hpeers := v1StatusPeers_honours i.network h
    exact ⟨hpeers.memoValid, hpeers.settings, hpeers.requests⟩
  alike i _ _ h := by
    have hpeers := h.v1StatusPeers i.network
    exact ⟨hpeers.1, congrArg (Except.map some) hpeers.2⟩

/-! ## Servers -/

structure ServerMirrors (s : Server) (p : PlainServer) : Prop where
  session : Mirrors s.session p.session
  kvGets : ∀ site, SetReturning.Owes (s.kvGets site) (p.kvGets site)
  statusPeers : ∀ site, SetReturning.Owes (s.statusPeers site) (p.statusPeers site)

/-- A change of one site. -/
theorem owes_update {α : Type} {sites : Site → SrfState α} {owed : Site → Option (List α)}
    (h : ∀ site, SetReturning.Owes (sites site) (owed site)) (site : Site) {s : SrfState α}
    {o : Option (List α)} (hsite : SetReturning.Owes s o) (site' : Site) :
    SetReturning.Owes (Function.update sites site s site') (Function.update owed site o site') := by
  by_cases heq : site' = site
  · rw [heq, Function.update_self, Function.update_self]
    exact hsite
  · rw [Function.update_of_ne heq, Function.update_of_ne heq]
    exact h site'

theorem ServerMirrors.step {s : Server} {p : PlainServer} (h : ServerMirrors s p)
    (platform : Platform) (inputs : InputFunctions) (a : Action) :
    ServerMirrors (s.step platform inputs a).1 (p.step platform inputs a).1 ∧
      (s.step platform inputs a).2 = (p.step platform inputs a).2 := by
  cases a with
  | session e =>
    obtain ⟨hmirrors, hreply⟩ := h.session.step platform e
    exact ⟨⟨hmirrors, h.kvGets, h.statusPeers⟩, congrArg ServerReply.session hreply⟩
  | kvGet site context call =>
    have hvisit := SetReturning.visit_mirrors (kvGet_writes platform inputs)
      (kvGet_loadsByAgent platform inputs) h.session.alike (h.kvGets site) context call
    refine ⟨⟨?_, owes_update h.kvGets site hvisit.owes, h.statusPeers⟩, ?_⟩
    · exact h.session.withAgent hvisit.memoValid hvisit.settings
    · exact congrArg₂ ServerReply.srf hvisit.requests hvisit.told
  | statusPeers site context call =>
    have hvisit := SetReturning.visit_mirrors (statusPeers_writes inputs)
      (statusPeers_loadsByAgent inputs) h.session.alike (h.statusPeers site) context call
    refine ⟨⟨?_, h.kvGets, owes_update h.statusPeers site hvisit.owes⟩, ?_⟩
    · exact h.session.withAgent hvisit.memoValid hvisit.settings
    · exact congrArg₂ ServerReply.srf hvisit.requests hvisit.told
  | closeKvGet site =>
    exact ⟨⟨h.session, owes_update h.kvGets site (.idle rfl), h.statusPeers⟩, rfl⟩
  | closeStatusPeers site =>
    exact ⟨⟨h.session, h.kvGets, owes_update h.statusPeers site (.idle rfl)⟩, rfl⟩

theorem server_simulates (platform : Platform) (inputs : InputFunctions) :
    Machine.Simulates (server platform inputs) (plainServer platform inputs) ServerMirrors where
  related a h := (h.step platform inputs a).1
  answers a h := (h.step platform inputs a).2

theorem serverInit_mirrors : ServerMirrors serverInit plainInit where
  session := ⟨consistent_pgInit, ⟨rfl, rfl, rfl⟩, rfl, rfl, rfl⟩
  kvGets _ := .idle rfl
  statusPeers _ := .idle rfl

/-- **The extension answers every run of actions as the plain server does**: the memoised agent and
the contexts of the set-returning functions never show. -/
theorem server_refines_plain (platform : Platform) (inputs : InputFunctions)
    (actions : List Action) :
    (server platform inputs).outputs serverInit actions =
      (plainServer platform inputs).outputs plainInit actions :=
  (server_simulates platform inputs).outputs serverInit_mirrors actions

end PgConsul.Extension
