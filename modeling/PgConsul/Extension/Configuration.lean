import PgConsul.Extension.Session

/-! # Requests follow the configuration

In every reachable session the variables and the agent agree, so every request of the backend's agent
goes to the configured host and port. What `SHOW` shows as the port is another matter: the hook
returns a pointer into a destroyed string. So is the timeout: `consul_agent_ping(host, port)` takes it
from an agent of its own.
-/
namespace PgConsul.Extension
set_option autoImplicit false
open Foundations Consul Cpr

/-! ## Host and port -/

def Event.asksBackendAgent : Event → Bool
  | .ping2 .. => false
  | _ => true

theorem step_addressed {s : Session} (h : Consistent s) (platform : Platform) {e : Event}
    (he : e.asksBackendAgent = true) :
    ∀ r ∈ ((backend platform).step s e).2.requests, Addressed s.agent r := by
  have hmemo : s.agent.MemoValid := h.inStep.memoValid
  cases e with
  | host c => exact fun r hr => absurd hr List.not_mem_nil
  | port c => exact fun r hr => absurd hr List.not_mem_nil
  | timeout c => exact fun r hr => absurd hr List.not_mem_nil
  | showVariable v memory => exact fun r hr => absurd hr List.not_mem_nil
  | ping0 network => exact (pingSelf_honours network hmemo).requests
  | ping2 network host port => exact Bool.noConfusion he
  | kvGet network memory args =>
    exact (v1KvGet_honours platform network memory args hmemo).requests
  | statusLeader network => exact (v1StatusLeader_honours network hmemo).requests
  | statusPeers network => exact (v1StatusPeers_honours network hmemo).requests

/-- An accepted host and a port are an authority without userinfo. -/
theorem parse_hostport {host : Bytes} (h : agentHostCheckHook host = true) (port : UInt16) :
    Authority.parse (hostport host port) = ⟨none, host, some (decimal port.toNat)⟩ :=
  Authority.parse_hostport (agentHostCheckHook_delimiter h (by decide))
    (not_mem_decimal (by decide) _) (not_mem_decimal (by decide) _)

theorem Addressed.uri {agent : Agent} {r : Request} (hr : Addressed agent r)
    (h : agentHostCheckHook agent.host = true) :
    ∃ u, Uri.parse r.url = some u ∧ u.scheme = ascii "http" ∧
      u.authority = ⟨none, agent.host, some (decimal agent.port.toNat)⟩ ∧
      ascii "/v1/" <+: u.path := by
  obtain ⟨e, tail, content, hurl⟩ := hr.url
  have hnul : 0 ∉ agent.host := agentHostCheckHook_delimiter h (by decide)
  have hauthority := agentHostCheckHook_inAuthority h
  obtain ⟨rest, hrest⟩ := requestUrl_urlOf hnul agent.port e tail content
  obtain ⟨path, hpath⟩ := path_v1 e
  have hparse := parse_urlOf hauthority agent.port e rest
  rw [← hrest, ← hurl] at hparse
  refine ⟨_, hparse, rfl, parse_hostport h agent.port, ?_⟩
  refine ⟨path ++ rest.takeWhile inPath, ?_⟩
  rw [hpath, show ascii "/v1/" = chr '/' :: ascii "v1/" by decide]
  simp

/-- Where a request in a session goes and how long it waits. -/
structure Configured (s : Session) (r : Request) : Prop where
  timeout : (r.timeout : ℤ) = s.globals.agentTimeoutMs.toInt
  uri : ∃ u, Uri.parse r.url = some u ∧ u.scheme = ascii "http" ∧ u.authority.userinfo = none ∧
    u.authority.host = s.globals.agentHostString ∧
    u.authority.port = some (decimalInt s.globals.agentPort.toInt) ∧ ascii "/v1/" <+: u.path

theorem Consistent.portStr {s : Session} (h : Consistent s) :
    s.agent.portStr = decimalInt s.globals.agentPort.toInt := by
  have hport : s.globals.agentPort.toInt = s.agent.port.toNat := h.inStep.port
  rw [hport, decimalInt, if_neg (by omega), Int.natAbs_natCast]
  exact Boost.lcastPutUnsigned_eq _

theorem Consistent.configured {s : Session} (h : Consistent s) {r : Request}
    (hr : Addressed s.agent r) : Configured s r := by
  have hhost : s.agent.host = s.globals.agentHostString := h.inStep.host
  have haccepted : agentHostCheckHook s.agent.host = true := hhost ▸ h.host.current
  have hport : decimal s.agent.port.toNat = decimalInt s.globals.agentPort.toInt :=
    (Boost.lcastPutUnsigned_eq _).symm.trans h.portStr
  obtain ⟨u, hparse, hscheme, hauthority, hpath⟩ := hr.uri haccepted
  refine ⟨?_, u, hparse, hscheme, ?_, ?_, ?_, hpath⟩
  · rw [hr.timeout]
    exact h.inStep.timeout.symm
  · rw [hauthority]
  · rw [hauthority, ← hhost]
  · rw [hauthority, ← hport]

/-- The variables hold admitted values, and the agent has the same. -/
structure VariablesAgree (s : Session) : Prop where
  host : s.globals.agentHostString = s.agent.host
  accepted : agentHostCheckHook s.globals.agentHostString = true
  port : s.globals.agentPort.toInt = s.agent.port.toNat
  bounds : 1 ≤ s.globals.agentPort.toInt ∧ s.globals.agentPort.toInt ≤ 65535

theorem Consistent.variablesAgree {s : Session} (h : Consistent s) : VariablesAgree s where
  host := h.inStep.host.symm
  accepted := h.host.current
  port := h.inStep.port
  bounds := (inBounds_iff _ _ _).mp h.port.current

/-! ## What `SHOW` shows -/

/-- The request goes to the host and the port that are shown while `memory` stands where the hooks'
strings were. -/
def SentToShown (memory : Memory) (g : Globals) (r : Request) : Prop :=
  ∃ u port, Uri.parse r.url = some u ∧ u.scheme = ascii "http" ∧ u.authority.userinfo = none ∧
    (agentHostShowHook g).read memory = some u.authority.host ∧
    u.authority.port = some port ∧ (agentPortShowHook g).read memory = some port ∧
    ascii "/v1/" <+: u.path

/-- In this session the variables and the agent agree, and this event's requests of the backend's
agent go to what is shown. -/
structure Follows (platform : Platform) (memory : Memory) (s : Session) (e : Event) : Prop where
  agree : VariablesAgree s
  requests : e.asksBackendAgent = true → ∀ r ∈ ((backend platform).step s e).2.requests,
    SentToShown memory s.globals r

theorem sentToShown_iff {s : Session} (h : Consistent s) (memory : Memory) {r : Request}
    (hr : Configured s r) :
    SentToShown memory s.globals r ↔ (agentPortShowHook s.globals).Intact memory := by
  obtain ⟨u, hparse, hscheme, huserinfo, hhost, hport, hpath⟩ := hr.uri
  have hpointee : (agentPortShowHook s.globals).pointee =
      decimalInt s.globals.agentPort.toInt := h.portStr
  have hshown : (agentHostShowHook s.globals).read memory = some u.authority.host := by
    rw [hhost]
    exact congrArg some (cStr_eq_self (agentHostCheckHook_delimiter h.host.current (by decide)))
  rw [CharPtr.Intact, hpointee]
  constructor
  · rintro ⟨u', port, hparse', -, -, -, hport', hread, -⟩
    obtain rfl : u = u' := Option.some.inj (hparse.symm.trans hparse')
    obtain rfl := Option.some.inj (hport.symm.trans hport')
    exact hread
  · intro hread
    exact ⟨u, _, hparse, hscheme, huserinfo, hshown, hport, hread, hpath⟩

theorem follows_iff {s : Session} (h : Consistent s) (platform : Platform) (memory : Memory)
    (e : Event) :
    Follows platform memory s e ↔
      (e.asksBackendAgent = true → ((backend platform).step s e).2.requests ≠ [] →
        (agentPortShowHook s.globals).Intact memory) := by
  constructor
  · intro hfollows hasks hsends
    obtain ⟨r, hr⟩ := List.exists_mem_of_ne_nil _ hsends
    have hconfigured := h.configured (step_addressed h platform hasks r hr)
    exact (sentToShown_iff h memory hconfigured).mp (hfollows.requests hasks r hr)
  · intro hintact
    refine ⟨h.variablesAgree, fun hasks r hr => ?_⟩
    have hconfigured := h.configured (step_addressed h platform hasks r hr)
    exact (sentToShown_iff h memory hconfigured).mpr (hintact hasks (List.ne_nil_of_mem hr))

/-- **Over every run the variables and the agent agree and every request goes where the variables
say; it goes where `SHOW` says exactly when the storage of the string that the port hook destroys
still holds the port, at every request.** -/
theorem requests_follow_configuration_iff (platform : Platform) (events : List Event)
    (memory : ℕ → Memory) :
    let steps := (backend platform).trace pgInit events
    VariablesAgree ((backend platform).run pgInit events) ∧
      (∀ p ∈ steps, p.2.asksBackendAgent = true →
        ∀ r ∈ ((backend platform).step p.1 p.2).2.requests, Configured p.1 r) ∧
      ((∀ (j : ℕ) (p : Session × Event), steps[j]? = some p →
          Follows platform (memory j) p.1 p.2) ↔
        ∀ (j : ℕ) (p : Session × Event), steps[j]? = some p → p.2.asksBackendAgent = true →
          ((backend platform).step p.1 p.2).2.requests ≠ [] →
            (agentPortShowHook p.1.globals).Intact (memory j)) := by
  intro steps
  have hconsistent := consistent_trace platform events
  refine ⟨(consistent_run platform events).variablesAgree, fun p hp hasks r hr => ?_, ?_⟩
  · have h := hconsistent p hp
    exact h.configured (step_addressed h platform hasks r hr)
  · refine forall_congr' fun j => forall_congr' fun p => forall_congr' fun hp => ?_
    exact follows_iff (hconsistent p (List.mem_of_getElem? hp)) platform (memory j) p.2

/-- Behind a ping of the configured agent on port 8500 the storage holds zeros, and `SHOW` shows
nothing. -/
theorem port_shown_empty :
    (((backend .amd64).run pgInit [.ping0 fun _ => .answered 200 []]).step .amd64
        (.showVariable .agent_port fun _ => 0)).2.answer = .shown (some []) ∧
      ¬ ∀ (platform : Platform) (events : List Event) (memory : ℕ → Memory) (j : ℕ)
        (p : Session × Event), ((backend platform).trace pgInit events)[j]? = some p →
          Follows platform (memory j) p.1 p.2 := by
  have hempty : readCString (fun _ => 0) = some [] := readFrom_at_nul _ _ 0 rfl
  refine ⟨congrArg Answer.shown hempty, fun h => ?_⟩
  have hfollows := h .amd64 [.ping0 fun _ => .answered 200 []] (fun _ _ => 0) 0 _ rfl
  have hintact : readCString (fun _ => 0) = some (pgInit.agent.portStr) :=
    (follows_iff consistent_pgInit .amd64 _ _).mp hfollows rfl (by decide)
  rw [hempty] at hintact
  exact absurd (Option.some.inj hintact) (by decide)

/-! ## Timeout -/

/-- The calls that ask an agent of their own: `consul_agent_ping(host, port)`, when its host argument
can be read. -/
def Event.asksLocalAgent : Event → Bool
  | .ping2 _ hostArg _ => hostArg.constructed.isSome
  | _ => false

theorem step_ping2 (platform : Platform) (s : Session) (network : Network) {host : TextDatum}
    {name : Bytes} (h : host.constructed = some name) (port : Int32) :
    ((backend platform).step s (.ping2 network host port)).2.requests =
      [pingRequest name (narrowPort port) DEFAULT_TIMEOUT_MS] := by
  simp only [backend, Session.step, v1AgentPing2, h, Option.map_some]
  exact pingSelf_requests network (Agent.memoValid_new name (narrowPort port))

theorem step_timeout_iff {s : Session} (h : Consistent s) (platform : Platform) (e : Event) :
    (∀ r ∈ ((backend platform).step s e).2.requests,
        (r.timeout : ℤ) = s.globals.agentTimeoutMs.toInt) ↔
      (e.asksLocalAgent = true → s.globals.agentTimeoutMs = 1000) := by
  have hbackend : e.asksBackendAgent = true →
      ∀ r ∈ ((backend platform).step s e).2.requests,
        (r.timeout : ℤ) = s.globals.agentTimeoutMs.toInt := by
    intro he r hr
    rw [(step_addressed h platform he r hr).timeout]
    exact h.inStep.timeout.symm
  cases e with
  | ping2 network host port =>
    cases hread : host.constructed with
    | none => simp [Event.asksLocalAgent, hread, backend, Session.step, v1AgentPing2]
    | some name =>
      rw [step_ping2 platform s network hread port]
      simp only [List.mem_singleton, forall_eq, Event.asksLocalAgent, hread, Option.isSome_some,
        forall_const]
      constructor
      · intro htimeout
        apply Int32.toInt_inj.mp
        exact htimeout.symm
      · intro htimeout
        rw [htimeout]
        rfl
  | host | port | timeout | showVariable | ping0 | kvGet | statusLeader | statusPeers =>
    exact ⟨fun _ he => Bool.noConfusion he, fun _ => hbackend rfl⟩

/-- **Every request of a run waits for the configured time exactly when every
`consul_agent_ping(host, port)` of the run is called while that time is the default one.** -/
theorem timeouts_follow_configuration_iff (platform : Platform) (events : List Event) :
    (∀ p ∈ (backend platform).trace pgInit events,
        ∀ r ∈ ((backend platform).step p.1 p.2).2.requests,
          (r.timeout : ℤ) = p.1.globals.agentTimeoutMs.toInt ∧ 1 ≤ r.timeout ∧
            r.timeout ≤ 65535) ↔
      ∀ p ∈ (backend platform).trace pgInit events,
        p.2.asksLocalAgent = true → p.1.globals.agentTimeoutMs = 1000 := by
  have hconsistent := consistent_trace platform events
  constructor
  · intro h p hp
    exact (step_timeout_iff (hconsistent p hp) platform p.2).mp fun r hr => (h p hp r hr).1
  · intro h p hp r hr
    have htimeout := (step_timeout_iff (hconsistent p hp) platform p.2).mpr (h p hp) r hr
    have hbounds := (inBounds_iff _ _ _).mp (hconsistent p hp).timeout.current
    have hleast : (DEFAULT_TIMEOUT_MS_MIN.toNat : ℤ) = 1 := rfl
    have hmost : (DEFAULT_TIMEOUT_MS_MAX.toNat : ℤ) = 65535 := rfl
    simp only [timeoutSetting] at hbounds
    omega

/-- `SET consul.agent_timeout = '10ms'` and `consul_agent_ping('127.0.0.1', 8500)`: the request waits
for a second. -/
theorem timeouts_do_not_follow_configuration :
    ¬ ∀ p ∈ (backend .amd64).trace pgInit
        [.timeout (.set 10), .ping2 (fun _ => .answered 200 []) (localhost fun _ => 0) 8500],
      ∀ r ∈ ((backend .amd64).step p.1 p.2).2.requests,
        (r.timeout : ℤ) = p.1.globals.agentTimeoutMs.toInt ∧ 1 ≤ r.timeout ∧
          r.timeout ≤ 65535 := by
  intro h
  have hread := ((localhost fun _ => 0).constructed_eq_iff (by decide)).mpr rfl
  have hrequests := step_ping2 .amd64 ((backend .amd64).run pgInit [.timeout (.set 10)])
    (fun _ => .answered 200 []) hread 8500
  have hlast := h _ (List.mem_cons_of_mem _ List.mem_cons_self) _
    (hrequests ▸ List.mem_singleton.mpr rfl)
  exact absurd hlast.1 (by decide)

end PgConsul.Extension
