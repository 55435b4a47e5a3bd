import PgConsul.Consul.Agent
import PgConsul.Foundations.Machine

/-! # The memoised agent refines a plain one

The plain agent stores what a caller set and computes every URL afresh. Both are machines over the
same operations, and `MemoValid` together with equal settings is a simulation between them.
-/
namespace PgConsul.Consul
set_option autoImplicit false
open Foundations

inductive Op where
  | setHost (host : Bytes)
  | setPort (port : UInt16)
  | setPortStr (port : Bytes)
  | setCluster (cluster : Bytes)
  | setTimeoutMs (timeoutMs : UInt16)
  | kvEndpointUrlPrefix
  | kvUrl (key : Bytes)
  | nodesUrl
  | selfUrl
  | statusLeaderUrl
  | statusPeersUrl
deriving DecidableEq

inductive Ret where
  | status (ok : Bool)
  | url (url : Bytes)
deriving DecidableEq

/-! ## The two machines -/

def asStatus (r : Bool × Agent) : Agent × Ret := (r.2, .status r.1)

def asUrl (r : Bytes × Agent) : Agent × Ret := (r.2, .url r.1)

def Agent.step (a : Agent) : Op → Agent × Ret
  | .setHost host => asStatus (a.setHost host)
  | .setPort port => asStatus (a.setPort port)
  | .setPortStr port => asStatus (a.setPortStr port)
  | .setCluster cluster => asStatus (a.setCluster cluster)
  | .setTimeoutMs timeoutMs => asStatus (a.setTimeoutMs timeoutMs)
  | .kvEndpointUrlPrefix => asUrl a.kvEndpointUrlPrefix
  | .kvUrl key => asUrl (a.kvUrl key)
  | .nodesUrl => asUrl a.nodesUrl
  | .selfUrl => asUrl a.selfUrl
  | .statusLeaderUrl => asUrl a.statusLeaderUrl
  | .statusPeersUrl => asUrl a.statusPeersUrl

def memoising : Machine Agent Op Ret := ⟨Agent.step⟩

/-- The abstract agent: its settings and nothing else. -/
structure PlainAgent where
  host : Bytes
  port : UInt16
  cluster : Bytes
  timeoutMs : UInt16
deriving DecidableEq

namespace PlainAgent

def url (p : PlainAgent) (e : Endpoint) : Bytes := urlOf p.host p.port e

def step (p : PlainAgent) : Op → PlainAgent × Ret
  | .setHost host => ({ p with host := host }, .status true)
  | .setPort port => ({ p with port := port }, .status true)
  | .setPortStr text =>
    match Boost.lexicalCastPort text with
    | some port => ({ p with port := port }, .status true)
    | none => (p, .status false)
  | .setCluster cluster => ({ p with cluster := cluster }, .status true)
  | .setTimeoutMs timeoutMs => ({ p with timeoutMs := timeoutMs }, .status true)
  | .kvEndpointUrlPrefix => (p, .url (p.url .kvEndpointUrlPrefix))
  | .kvUrl key => (p, .url (p.url .kvEndpointUrlPrefix ++ key))
  | .nodesUrl => (p, .url (p.url .nodesUrl))
  | .selfUrl => (p, .url (p.url .selfUrl))
  | .statusLeaderUrl => (p, .url (p.url .statusLeaderUrl))
  | .statusPeersUrl => (p, .url (p.url .statusPeersUrl))

end PlainAgent

def plain : Machine PlainAgent Op Ret := ⟨PlainAgent.step⟩

/-! ## The simulation -/

def Agent.settings (a : Agent) : PlainAgent := ⟨a.host, a.port, a.cluster, a.timeoutMs⟩

/-- The memo fields are valid and the plain agent holds the settings, cluster and timeout included. -/
def Refines (a : Agent) (p : PlainAgent) : Prop := a.MemoValid ∧ a.settings = p

theorem refines_settings {a : Agent} (h : a.MemoValid) : Refines a a.settings := ⟨h, rfl⟩

theorem Agent.memoized_settings (a : Agent) (e : Endpoint) :
    (a.memoized e).2.settings = a.settings := by
  simp [Agent.settings]

theorem step_memoized {a : Agent} (h : a.MemoValid) (e : Endpoint) :
    Refines (asUrl (a.memoized e)).1 a.settings ∧
      (asUrl (a.memoized e)).2 = .url (a.settings.url e) :=
  ⟨⟨h.memoized e, a.memoized_settings e⟩, congrArg Ret.url (h.memoized_url e)⟩

/-- One operation keeps the agents related and is answered alike. -/
theorem refines_step {a : Agent} (h : a.MemoValid) (op : Op) :
    Refines (a.step op).1 (a.settings.step op).1 ∧ (a.step op).2 = (a.settings.step op).2 := by
  cases op with
  | setHost host => exact ⟨⟨a.setHost_memoValid host, rfl⟩, rfl⟩
  | setPort port => exact ⟨⟨a.setPort_memoValid port, rfl⟩, rfl⟩
  | setPortStr text =>
    have hvalid := a.setPortStr_memoValid text
    simp only [Agent.step, asStatus, PlainAgent.step, Refines]
    refine ⟨⟨hvalid, ?_⟩, ?_⟩
    · unfold Agent.setPortStr
      cases Boost.lexicalCastPort text <;> rfl
    · unfold Agent.setPortStr
      cases Boost.lexicalCastPort text <;> rfl
  | setCluster cluster => exact ⟨⟨h.setCluster cluster, rfl⟩, rfl⟩
  | setTimeoutMs timeoutMs => exact ⟨⟨h.setTimeoutMs timeoutMs, rfl⟩, rfl⟩
  | kvEndpointUrlPrefix => exact step_memoized h .kvEndpointUrlPrefix
  | kvUrl key =>
    have hsettings : (a.kvUrl key).2.settings = a.settings :=
      (Agent.memoized_settings _ _).trans (Agent.memoized_settings _ _)
    exact ⟨⟨h.kvUrl key, hsettings⟩, congrArg Ret.url (h.kvUrl_url key)⟩
  | nodesUrl => exact step_memoized h .nodesUrl
  | selfUrl => exact step_memoized h .selfUrl
  | statusLeaderUrl => exact step_memoized h .statusLeaderUrl
  | statusPeersUrl => exact step_memoized h .statusPeersUrl

theorem memoising_simulates : Machine.Simulates memoising plain Refines where
  related := by
    rintro a p op ⟨h, rfl⟩
    exact (refines_step h op).1
  answers := by
    rintro a p op ⟨h, rfl⟩
    exact (refines_step h op).2

/-! ## Every agent the program can build -/

/-- A constructor call; a copy takes the memo fields of an agent with a history along. -/
inductive Construction where
  | default
  | ofHost (host : Bytes)
  | ofPort (port : UInt16)
  | ofHostPort (host : Bytes) (port : UInt16)
  | copy (of : Construction) (history : List Op)

namespace Construction

def agent : Construction → Agent
  | default => {}
  | ofHost host => { host := host }
  | ofPort port => { port := port }
  | ofHostPort host port => { host := host, port := port }
  | copy of history => memoising.run of.agent history

def plainAgent : Construction → PlainAgent
  | default => ⟨DEFAULT_HOST, DEFAULT_PORT, [], DEFAULT_TIMEOUT_MS⟩
  | ofHost host => ⟨host, DEFAULT_PORT, [], DEFAULT_TIMEOUT_MS⟩
  | ofPort port => ⟨DEFAULT_HOST, port, [], DEFAULT_TIMEOUT_MS⟩
  | ofHostPort host port => ⟨host, port, [], DEFAULT_TIMEOUT_MS⟩
  | copy of history => plain.run of.plainAgent history

theorem refines (c : Construction) : Refines c.agent c.plainAgent := by
  induction c with
  | default => exact ⟨Agent.memoValid_new _ _, rfl⟩
  | ofHost host => exact ⟨Agent.memoValid_new host _, rfl⟩
  | ofPort port => exact ⟨Agent.memoValid_new _ port, rfl⟩
  | ofHostPort host port => exact ⟨Agent.memoValid_new host port, rfl⟩
  | copy of history ih => exact memoising_simulates.run ih history

def after (c : Construction) (ops : List Op) : Agent := memoising.run c.agent ops

theorem after_refines (c : Construction) (ops : List Op) :
    Refines (c.after ops) (plain.run c.plainAgent ops) :=
  memoising_simulates.run c.refines ops

end Construction

/-! ## The refinement -/

theorem outputs_of_settings {a b : Agent} (ha : a.MemoValid) (hb : b.MemoValid)
    (h : a.settings = b.settings) (ops : List Op) :
    memoising.outputs a ops = memoising.outputs b ops := by
  rw [memoising_simulates.outputs (refines_settings ha) ops,
    memoising_simulates.outputs (refines_settings hb) ops, h]

theorem Agent.setPortStr_refused {a : Agent} {text : Bytes} (h : (a.setPortStr text).1 = false) :
    (a.setPortStr text).2.settings = a.settings := by
  unfold Agent.setPortStr at h ⊢
  cases hcast : Boost.lexicalCastPort text with
  | none => rfl
  | some port =>
    rw [hcast] at h
    exact Bool.noConfusion h

theorem Agent.equal_iff (a b : Agent) : a.equal b = true ↔ a.host = b.host ∧ a.port = b.port := by
  simp [Agent.equal]

/-- **The memoised agent refines the plain one**: every call is answered alike, the memo fields are
valid and the settings those of the plain agent at all times, a refused port changes no later answer,
and equal agents have equal URLs. -/
theorem memoised_agent_refines_plain :
    (∀ (c : Construction) (ops : List Op),
      memoising.outputs c.agent ops = plain.outputs c.plainAgent ops ∧
        Refines (c.after ops) (plain.run c.plainAgent ops)) ∧
      (∀ (c : Construction) (ops : List Op) (text : Bytes),
        ((c.after ops).setPortStr text).1 = false →
          ((c.after ops).setPortStr text).2.host = (c.after ops).host ∧
            ((c.after ops).setPortStr text).2.port = (c.after ops).port ∧
            ∀ later, memoising.outputs ((c.after ops).setPortStr text).2 later =
              memoising.outputs (c.after ops) later) ∧
      ∀ (c c' : Construction) (ops ops' : List Op),
        (c.after ops).equal (c'.after ops') = true →
          (∀ e, ((c.after ops).memoized e).1 = ((c'.after ops').memoized e).1) ∧
            ∀ key, ((c.after ops).kvUrl key).1 = ((c'.after ops').kvUrl key).1 := by
  refine ⟨fun c ops => ⟨?_, c.after_refines ops⟩, fun c ops text hrefused => ?_,
    fun c c' ops ops' hequal => ?_⟩
  · exact memoising_simulates.outputs c.refines ops
  · have hsettings := Agent.setPortStr_refused hrefused
    refine ⟨congrArg PlainAgent.host hsettings, congrArg PlainAgent.port hsettings, ?_⟩
    exact outputs_of_settings (Agent.setPortStr_memoValid text _) (c.after_refines ops).1 hsettings
  · obtain ⟨hhost, hport⟩ := (Agent.equal_iff _ _).mp hequal
    have hvalid := (c.after_refines ops).1
    have hvalid' := (c'.after_refines ops').1
    refine ⟨fun e => ?_, fun key => ?_⟩
    · rw [hvalid.memoized_url, hvalid'.memoized_url, hhost, hport]
    · rw [hvalid.kvUrl_url, hvalid'.kvUrl_url, hhost, hport]

end PgConsul.Consul
