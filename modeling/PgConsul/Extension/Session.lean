import PgConsul.Extension.HostCheck
import PgConsul.Extension.Requests
import PgConsul.Foundations.Settings

/-! # A backend session

The extension keeps its configuration twice: in the variables of the three settings and in the
agent object. A session is a machine over changes of the settings, `SHOW` and calls of the SQL
functions, and `Consistent` is what every step keeps: variables and agent agree, and hold admitted
values.
-/
namespace PgConsul.Extension
set_option autoImplicit false
open Foundations Consul Cpr

/-! ## The static variables and their hooks -/

structure Globals where
  agentHostString : Bytes
  agentPort : Int32
  agentTimeoutMs : Int32
  pgConsulAgent : Agent

/-- `pg_consul_agent_host_assign_hook`. -/
def agentHostAssignHook (newHost : Bytes) (g : Globals) : Globals :=
  { g with agentHostString := newHost, pgConsulAgent := (g.pgConsulAgent.setHost newHost).2 }

/-- `pg_consul_agent_port_assign_hook`, which narrows the port twice. -/
def agentPortAssignHook (newPort : Int32) (g : Globals) : Globals :=
  { g with agentPort := Int32.ofNat (narrowPort newPort).toNat
           pgConsulAgent := (g.pgConsulAgent.setPort (narrowPort newPort)).2 }

/-- `pg_consul_agent_timeout_assign_hook`; `TimeoutT` is as wide as `PortT`. -/
def agentTimeoutAssignHook (newvalue : Int32) (g : Globals) : Globals :=
  { g with pgConsulAgent := (g.pgConsulAgent.setTimeoutMs (narrowPort newvalue)).2 }

def agentHostShowHook (g : Globals) : CharPtr := .live g.agentHostString

/-- `return pgConsulAgent.portStr().c_str()`: the string is gone when the hook returns. -/
def agentPortShowHook (g : Globals) : CharPtr := .dangling g.pgConsulAgent.portStr

def agentTimeoutShowHook (g : Globals) : CharPtr := .dangling g.pgConsulAgent.timeoutStr

/-! ## The settings -/

def hostSetting : Setting Globals Bytes where
  check newHost := agentHostCheckHookPtr (some newHost)
  get g := g.agentHostString
  put newHost g := { g with agentHostString := newHost }
  assign := agentHostAssignHook

/-- The bounds given to `DefineCustomIntVariable`. -/
def inBounds (least most : UInt16) (value : Int32) : Bool :=
  (least.toNat : ℤ) ≤ value.toInt && value.toInt ≤ (most.toNat : ℤ)

def portSetting : Setting Globals Int32 where
  check := inBounds DEFAULT_PORT_MIN DEFAULT_PORT_MAX
  get g := g.agentPort
  put newPort g := { g with agentPort := newPort }
  assign := agentPortAssignHook

def timeoutSetting : Setting Globals Int32 where
  check := inBounds DEFAULT_TIMEOUT_MS_MIN DEFAULT_TIMEOUT_MS_MAX
  get g := g.agentTimeoutMs
  put newvalue g := { g with agentTimeoutMs := newvalue }
  assign := agentTimeoutAssignHook

inductive Variable where
  | agent_host
  | agent_port
  | agent_timeout

def Variable.showHook : Variable → Globals → CharPtr
  | agent_host => agentHostShowHook
  | agent_port => agentPortShowHook
  | agent_timeout => agentTimeoutShowHook

def PG_CONSUL_AGENT_HOST_DEFAULT : Bytes := ascii "127.0.0.1"

def PG_CONSUL_AGENT_PORT_DEFAULT : Int32 := 8500

def PG_CONSUL_AGENT_TIMEOUT_DEFAULT : Int32 := 1000

/-! ## The machine -/

structure Session where
  globals : Globals
  hostPast : Past Bytes
  portPast : Past Int32
  timeoutPast : Past Int32

/-- The static initialisers and `_PG_init`, which stores the three boot values; they pass their
checks (`consistent_pgInit`). -/
def pgInit : Session where
  globals :=
    timeoutSetting.apply PG_CONSUL_AGENT_TIMEOUT_DEFAULT
      (portSetting.apply PG_CONSUL_AGENT_PORT_DEFAULT
        (hostSetting.apply PG_CONSUL_AGENT_HOST_DEFAULT
          { agentHostString := DEFAULT_HOST, agentPort := 8500, agentTimeoutMs := 0,
            pgConsulAgent := {} }))
  hostPast := ⟨PG_CONSUL_AGENT_HOST_DEFAULT, []⟩
  portPast := ⟨PG_CONSUL_AGENT_PORT_DEFAULT, []⟩
  timeoutPast := ⟨PG_CONSUL_AGENT_TIMEOUT_DEFAULT, []⟩

inductive Event where
  | host (c : Change Bytes)
  | port (c : Change Int32)
  | timeout (c : Change Int32)
  /-- `SHOW`; `memory` stands where a destroyed string was when the server reads it. -/
  | showVariable (v : Variable) (memory : Memory)
  | ping0 (network : Network)
  | ping2 (network : Network) (host : TextDatum) (port : Int32)
  | kvGet (network : Network) (memory : ℕ → Indeterminate) (args : KvGetArgs)
  | statusLeader (network : Network)
  | statusPeers (network : Network)

inductive Answer where
  | changed (accepted : Bool)
  /-- `none` is a read that finds no end. -/
  | shown (text : Option Bytes)
  | ping (alive : Bool)
  | pairs (result : Except PgError (Option (List KVPair)))
  | leader (result : Except PgError (Option Bytes))
  | peers (result : Except PgError (List Peer))
  | undefined

structure Reply where
  requests : List Request
  answer : Answer

def Session.agent (s : Session) : Agent := s.globals.pgConsulAgent

def Session.called {α : Type} (s : Session) (c : Called α) (answer : α → Answer) :
    Session × Reply :=
  ({ s with globals := { s.globals with pgConsulAgent := c.agent } },
    ⟨c.requests, answer c.result⟩)

def Session.step (platform : Platform) (s : Session) : Event → Session × Reply
  | .host c =>
    let r := hostSetting.step c s.globals s.hostPast
    ({ s with globals := r.2.1, hostPast := r.2.2 }, ⟨[], .changed r.1⟩)
  | .port c =>
    let r := portSetting.step c s.globals s.portPast
    ({ s with globals := r.2.1, portPast := r.2.2 }, ⟨[], .changed r.1⟩)
  | .timeout c =>
    let r := timeoutSetting.step c s.globals s.timeoutPast
    ({ s with globals := r.2.1, timeoutPast := r.2.2 }, ⟨[], .changed r.1⟩)
  | .showVariable v memory => (s, ⟨[], .shown ((v.showHook s.globals).read memory)⟩)
  | .ping0 network => s.called (v1AgentPing0 network s.agent) .ping
  | .ping2 network host port =>
    match v1AgentPing2 network host port with
    | some c => (s, ⟨c.requests, .ping c.result⟩)
    | none => (s, ⟨[], .undefined⟩)
  | .kvGet network memory args =>
    s.called (v1KvGet platform network memory args s.agent) .pairs
  | .statusLeader network => s.called (v1StatusLeader network s.agent) .leader
  | .statusPeers network => s.called (v1StatusPeers network s.agent) .peers

def backend (platform : Platform) : Machine Session Event Reply := ⟨Session.step platform⟩

/-! ## The invariant -/

structure InStep (g : Globals) : Prop where
  memoValid : g.pgConsulAgent.MemoValid
  host : g.pgConsulAgent.host = g.agentHostString
  port : g.agentPort.toInt = g.pgConsulAgent.port.toNat
  timeout : g.agentTimeoutMs.toInt = g.pgConsulAgent.timeoutMs.toNat

/-- Every variable holds an admitted value and the agent agrees. -/
structure Consistent (s : Session) : Prop where
  host : hostSetting.Admitted s.globals s.hostPast
  port : portSetting.Admitted s.globals s.portPast
  timeout : timeoutSetting.Admitted s.globals s.timeoutPast
  inStep : InStep s.globals

theorem inBounds_iff (least most : UInt16) (value : Int32) :
    inBounds least most value = true ↔
      (least.toNat : ℤ) ≤ value.toInt ∧ value.toInt ≤ (most.toNat : ℤ) := by
  simp [inBounds]

theorem narrowPort_toNat (value : Int32) :
    (narrowPort value).toNat = value.toUInt32.toNat % 2 ^ 16 := by
  simp [narrowPort]

/-- **Narrowing an admitted value loses nothing.** -/
theorem narrowPort_of_inBounds {least most : UInt16} {value : Int32}
    (h : inBounds least most value = true) : value.toInt = (narrowPort value).toNat := by
  obtain ⟨hleast, hmost⟩ := (inBounds_iff least most value).mp h
  have hlt := most.toNat_lt
  rw [narrowPort_toNat]
  rcases Boost.int32_cases value with ⟨hint, -⟩ | ⟨hint, hbig⟩
  · omega
  · have := value.toUInt32.toNat_lt
    omega

theorem InStep.hostApply {g : Globals} (h : InStep g) (newHost : Bytes) :
    InStep (hostSetting.apply newHost g) where
  memoValid := g.pgConsulAgent.setHost_memoValid newHost
  host := rfl
  port := h.port
  timeout := h.timeout

theorem InStep.portApply {g : Globals} (h : InStep g) {newPort : Int32}
    (hport : portSetting.check newPort = true) : InStep (portSetting.apply newPort g) where
  memoValid := g.pgConsulAgent.setPort_memoValid (narrowPort newPort)
  host := h.host
  port := narrowPort_of_inBounds hport
  timeout := h.timeout

theorem InStep.timeoutApply {g : Globals} (h : InStep g) {newvalue : Int32}
    (htimeout : timeoutSetting.check newvalue = true) :
    InStep (timeoutSetting.apply newvalue g) where
  memoValid := h.memoValid.setTimeoutMs (narrowPort newvalue)
  host := h.host
  port := h.port
  timeout := narrowPort_of_inBounds htimeout

theorem Consistent.called {α : Type} {s : Session} (h : Consistent s) {c : Called α}
    (hc : Honours s.agent c) (answer : α → Answer) : Consistent (s.called c answer).1 where
  host := ⟨h.host.current, h.host.reset, h.host.saved⟩
  port := ⟨h.port.current, h.port.reset, h.port.saved⟩
  timeout := ⟨h.timeout.current, h.timeout.reset, h.timeout.saved⟩
  inStep :=
    { memoValid := hc.memoValid
      host := (congrArg PlainAgent.host hc.settings).trans h.inStep.host
      port := by
        have hport : c.agent.port = s.agent.port := congrArg PlainAgent.port hc.settings
        change s.globals.agentPort.toInt = c.agent.port.toNat
        rw [hport]
        exact h.inStep.port
      timeout := by
        have htimeout : c.agent.timeoutMs = s.agent.timeoutMs :=
          congrArg PlainAgent.timeoutMs hc.settings
        change s.globals.agentTimeoutMs.toInt = c.agent.timeoutMs.toNat
        rw [htimeout]
        exact h.inStep.timeout }

/-- **Every step keeps the session consistent.** -/
theorem Consistent.step {s : Session} (h : Consistent s) (platform : Platform) (e : Event) :
    Consistent ((backend platform).step s e).1 := by
  have hmemo : s.agent.MemoValid := h.inStep.memoValid
  cases e with
  | host c =>
    exact
      { host := Setting.step_admitted (fun _ _ _ => rfl) h.host c
        port := Setting.Admitted.step_other (fun _ _ => rfl) h.host h.port c
        timeout := Setting.Admitted.step_other (fun _ _ => rfl) h.host h.timeout c
        inStep := Setting.step_invariant (fun a _ _ hg => hg.hostApply a) h.host h.inStep c }
  | port c =>
    exact
      { host := Setting.Admitted.step_other (fun _ _ => rfl) h.port h.host c
        port := Setting.step_admitted (fun _ _ _ => rfl) h.port c
        timeout := Setting.Admitted.step_other (fun _ _ => rfl) h.port h.timeout c
        inStep := Setting.step_invariant (fun _ _ ha hg => hg.portApply ha) h.port h.inStep c }
  | timeout c =>
    exact
      { host := Setting.Admitted.step_other (fun _ _ => rfl) h.timeout h.host c
        port := Setting.Admitted.step_other (fun _ _ => rfl) h.timeout h.port c
        timeout := Setting.step_admitted (fun _ _ _ => rfl) h.timeout c
        inStep :=
          Setting.step_invariant (fun _ _ ha hg => hg.timeoutApply ha) h.timeout h.inStep c }
  | showVariable v memory => exact h
  | ping0 network => exact h.called (pingSelf_honours network hmemo) .ping
  | ping2 network host port =>
    simp only [backend, Session.step]
    split
    · exact h
    · exact h
  | kvGet network memory args =>
    exact h.called (v1KvGet_honours platform network memory args hmemo) .pairs
  | statusLeader network => exact h.called (v1StatusLeader_honours network hmemo) .leader
  | statusPeers network => exact h.called (v1StatusPeers_honours network hmemo) .peers

theorem consistent_pgInit : Consistent pgInit where
  host :=
    { current := agentHostCheckHook_default
      reset := agentHostCheckHook_default
      saved := fun _ ha => absurd ha List.not_mem_nil }
  port := ⟨by decide, by decide, fun _ ha => absurd ha List.not_mem_nil⟩
  timeout := ⟨by decide, by decide, fun _ ha => absurd ha List.not_mem_nil⟩
  inStep :=
    { memoValid := (Agent.setPort_memoValid _ _).setTimeoutMs _
      host := rfl
      port := by decide
      timeout := by decide }

theorem consistent_run (platform : Platform) (events : List Event) :
    Consistent ((backend platform).run pgInit events) :=
  (backend platform).run_invariant (fun _ e h => h.step platform e) consistent_pgInit events

theorem consistent_trace (platform : Platform) (events : List Event) :
    ∀ p ∈ (backend platform).trace pgInit events, Consistent p.1 :=
  (backend platform).trace_invariant (fun _ e h => h.step platform e) consistent_pgInit events

end PgConsul.Extension
