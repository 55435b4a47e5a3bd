import PgConsul.Extension.Configuration

/-! # Pinging another agent

`consul_agent_ping(host, port)` reads its host as a C string and narrows its port to 16 bits, where
the settings of the same name read a terminated string and refuse a port out of range. The results
say for which arguments the two agree.
-/
namespace PgConsul.Extension
set_option autoImplicit false
open Foundations Consul Cpr

/-! ## The URL of a ping -/

/-- The URL of the agent at that very host and port. -/
def selfUrlAt (host : Bytes) (port : ℤ) : Bytes :=
  ascii "http://" ++ (host ++ chr ':' :: decimalInt port) ++ ascii "/v1/agent/self"

theorem pingRequest_url {host : Bytes} (h : 0 ∉ host) (port timeoutMs : UInt16) :
    (pingRequest host port timeoutMs).url = selfUrlAt host port.toNat := by
  have hnat : decimalInt port.toNat = decimal port.toNat := by
    rw [decimalInt, if_neg (by omega), Int.natAbs_natCast]
  have hpath : ascii "/v1/agent/self" = chr '/' :: Endpoint.selfUrl.path := by decide
  have hurl := cStr_eq_self (zero_not_mem_urlOf h port .selfUrl)
  simp only [pingRequest, requestUrl, ne_eq, not_true_eq_false, if_false]
  rw [hurl, urlOf, hostport, selfUrlAt, hnat, hpath]

theorem decimalInt_inj {n : ℕ} {i : ℤ} (h : decimalInt n = decimalInt i) : (n : ℤ) = i := by
  rw [decimalInt, if_neg (by omega), Int.natAbs_natCast] at h
  unfold decimalInt at h
  split at h
  · exact absurd (h ▸ List.mem_cons_self) (not_mem_decimal (by decide) n)
  · have := decimal_inj h
    omega

theorem colon_not_mem_decimalInt (i : ℤ) : chr ':' ∉ decimalInt i := by
  have hdecimal : chr ':' ∉ decimal i.natAbs := not_mem_decimal (by decide) _
  have hminus : chr ':' ≠ chr '-' := by decide
  unfold decimalInt
  split
  · simp only [List.mem_cons, not_or]
    exact ⟨hminus, hdecimal⟩
  · exact hdecimal

theorem selfUrlAt_inj {host host' : Bytes} {n : ℕ} {port : ℤ}
    (h : selfUrlAt host n = selfUrlAt host' port) : host = host' ∧ (n : ℤ) = port := by
  have hhostport := List.append_cancel_left (List.append_cancel_right h)
  obtain ⟨hhost, hport⟩ := append_sep_inj (colon_not_mem_decimalInt _)
    (colon_not_mem_decimalInt _) hhostport
  exact ⟨hhost, decimalInt_inj hport⟩

/-! ## The configured ping -/

def configure (platform : Platform) (s : Session) (host : Bytes) (port : Int32) : Session :=
  (backend platform).run s [.host (.set host), .port (.set port)]

/-- What `consul_agent_ping()` requests of that session. -/
def configuredPing (platform : Platform) (network : Network) (s : Session) (host : Bytes)
    (port : Int32) : List Request :=
  ((backend platform).step (configure platform s host port) (.ping0 network)).2.requests

def urls (requests : List Request) : List Bytes := requests.map (·.url)

theorem configure_agent (platform : Platform) (s : Session) {host : Bytes} {port : Int32}
    (hhost : agentHostCheckHook host = true) (hport : portSetting.check port = true) :
    (configure platform s host port).agent.host = host ∧
      (configure platform s host port).agent.port = narrowPort port := by
  have hcheck : hostSetting.check host = true := hhost
  simp only [configure, Machine.run, backend, Session.step, Setting.step, hcheck, hport, if_true]
  exact ⟨rfl, rfl⟩

theorem configuredPing_urls {s : Session} (h : Consistent s) (platform : Platform)
    (network : Network) {host : Bytes} {port : Int32} (hhost : agentHostCheckHook host = true)
    (hport : portSetting.check port = true) :
    urls (configuredPing platform network s host port) = [selfUrlAt host port.toInt] := by
  have hconsistent : Consistent (configure platform s host port) :=
    (h.step platform (.host (.set host))).step platform (.port (.set port))
  have hnul : 0 ∉ host := agentHostCheckHook_delimiter hhost (by decide)
  have hrequests : configuredPing platform network s host port = _ :=
    pingSelf_requests network hconsistent.inStep.memoValid
  obtain ⟨hagenthost, hagentport⟩ := configure_agent platform s hhost hport
  rw [hrequests, urls, List.map_singleton, hagenthost, hagentport, pingRequest_url hnul,
    narrowPort_of_inBounds hport]

/-! ## Agreement -/

/-- Where `SET` accepts the port, the ping requests what the configured one does; elsewhere it
answers false and requests nothing of another address; and it answers true only when that very
address answered 200. -/
structure PingAgrees (platform : Platform) (network : Network) (host : TextDatum)
    (port : Int32) : Prop where
  accepted : portSetting.check port = true →
    ∃ c, v1AgentPing2 network host port = some c ∧
      ∀ events, urls c.requests =
        urls (configuredPing platform network ((backend platform).run pgInit events) host.payload
          port)
  refused : portSetting.check port = false →
    ∃ c, v1AgentPing2 network host port = some c ∧ c.result = false ∧
      ∀ r ∈ c.requests, r.url = selfUrlAt host.payload port.toInt
  truthful : ∀ c, v1AgentPing2 network host port = some c → c.result = true →
    ∃ r ∈ c.requests, r.url = selfUrlAt host.payload port.toInt ∧
      ∃ body, network r = .answered 200 body

def localPing (name : Bytes) (port : Int32) : Request :=
  pingRequest name (narrowPort port) DEFAULT_TIMEOUT_MS

theorem v1AgentPing2_read (network : Network) {host : TextDatum} {name : Bytes}
    (h : host.constructed = some name) (port : Int32) :
    ∃ c, v1AgentPing2 network host port = some c ∧ c.requests = [localPing name port] ∧
      c.result = answers200 (network (localPing name port)) := by
  have hmemo := Agent.memoValid_new name (narrowPort port)
  exact ⟨_, by rw [v1AgentPing2, h, Option.map_some], pingSelf_requests network hmemo,
    pingSelf_result network hmemo⟩

theorem portSetting_check_iff (port : Int32) :
    portSetting.check port = true ↔ 1 ≤ port.toInt ∧ port.toInt ≤ 65535 := inBounds_iff _ _ port

theorem narrowPort_exact_iff (port : Int32) :
    ((narrowPort port).toNat : ℤ) = port.toInt ↔ portSetting.check port = true ∨ port = 0 := by
  have hlt := (narrowPort port).toNat_lt
  constructor
  · intro h
    rcases eq_or_ne port.toInt 0 with h0 | h0
    · exact Or.inr (Int32.toInt_inj.mp h0)
    · left
      rw [portSetting_check_iff]
      omega
  · rintro (h | rfl)
    · exact (narrowPort_of_inBounds h).symm
    · rfl

theorem localPing_url {name : Bytes} (h : 0 ∉ name) (port : Int32) :
    (localPing name port).url = selfUrlAt name (narrowPort port).toNat := pingRequest_url h _ _

/-- The request goes to the address given exactly when the host was read as it is and the port
survives the narrowing. -/
theorem localPing_url_iff {name host : Bytes} (h : 0 ∉ name) (port : Int32) :
    (localPing name port).url = selfUrlAt host port.toInt ↔
      name = host ∧ ((narrowPort port).toNat : ℤ) = port.toInt := by
  rw [localPing_url h]
  constructor
  · exact selfUrlAt_inj
  · rintro ⟨rfl, hport⟩
    rw [hport]

theorem answers200_iff (transfer : Transfer) :
    answers200 transfer = true ↔ ∃ body, transfer = .answered 200 body := by
  cases transfer with
  | answered responseCode body => simp [answers200]
  | threw what => simp [answers200]

/-- Where the two agree, the call asked the address it was given and no other. -/
theorem PingAgrees.addressed {platform : Platform} {network : Network} {host : TextDatum}
    {port : Int32} (hagrees : PingAgrees platform network host port)
    (h : agentHostCheckHook host.payload = true) :
    ∃ c, v1AgentPing2 network host port = some c ∧
      (∀ r ∈ c.requests, r.url = selfUrlAt host.payload port.toInt) ∧
      (portSetting.check port = false → c.result = false) := by
  cases hport : portSetting.check port with
  | true =>
    obtain ⟨c, hc, hurls⟩ := hagrees.accepted hport
    have hlist : urls c.requests = [selfUrlAt host.payload port.toInt] :=
      (hurls []).trans (configuredPing_urls consistent_pgInit platform network h hport)
    refine ⟨c, hc, ?_, fun hfalse => Bool.noConfusion hfalse⟩
    intro r hr
    have hmem : r.url ∈ urls c.requests := List.mem_map_of_mem hr
    rw [hlist, List.mem_singleton] at hmem
    exact hmem
  | false =>
    obtain ⟨c, hc, hfalse, hrequests⟩ := hagrees.refused hport
    exact ⟨c, hc, hrequests, fun _ => hfalse⟩

/-- A call that asks the address it was given agrees, if it is refused or silent where `SET`
refuses the port. -/
theorem pingAgrees_of_addressed (platform : Platform) {network : Network} {host : TextDatum}
    {port : Int32} (h : agentHostCheckHook host.payload = true)
    (hread : host.constructed = some host.payload)
    (hurl : (localPing host.payload port).url = selfUrlAt host.payload port.toInt)
    (hsilent : portSetting.check port = false →
      answers200 (network (localPing host.payload port)) = false) :
    PingAgrees platform network host port := by
  obtain ⟨c, hc, hrequests, hresult⟩ := v1AgentPing2_read network hread port
  have hurls : urls c.requests = [selfUrlAt host.payload port.toInt] := by
    rw [urls, hrequests, List.map_singleton, hurl]
  refine ⟨fun haccepted => ⟨c, hc, fun events => ?_⟩,
    fun hrefused => ⟨c, hc, hresult.trans (hsilent hrefused), ?_⟩, ?_⟩
  · rw [hurls, configuredPing_urls (consistent_run platform events) platform network h haccepted]
  · intro r hr
    rw [hrequests, List.mem_singleton] at hr
    rw [hr, hurl]
  · intro c' hc' htrue
    obtain rfl : c = c' := Option.some.inj (hc.symm.trans hc')
    refine ⟨localPing host.payload port, by simp [hrequests], hurl, ?_⟩
    exact (answers200_iff _).mp (hresult.symm.trans htrue)

/-- **`consul_agent_ping(host, port)` agrees with the configured path exactly when a NUL follows the
host's bytes and the port is one that `SET` accepts, or 0 with nothing answering there.** -/
theorem ping2_agrees_iff (platform : Platform) (network : Network) {host : TextDatum}
    (port : Int32) (h : agentHostCheckHook host.payload = true) :
    PingAgrees platform network host port ↔
      host.behind 0 = 0 ∧
        ((1 ≤ port.toInt ∧ port.toInt ≤ 65535) ∨
          (port = 0 ∧ answers200 (network (localPing host.payload port)) = false)) := by
  have hnul : 0 ∉ host.payload := agentHostCheckHook_delimiter h (by decide)
  rw [← portSetting_check_iff]
  constructor
  · intro hagrees
    obtain ⟨c, hc, hrequests, hsilent⟩ := hagrees.addressed h
    obtain ⟨name, hread, -⟩ := Option.map_eq_some_iff.mp hc
    obtain ⟨c', hc', hrequests', hresult'⟩ := v1AgentPing2_read network hread port
    obtain rfl : c' = c := Option.some.inj (hc'.symm.trans hc)
    have hurl := hrequests (localPing name port) (by simp [hrequests'])
    obtain ⟨rfl, hexact⟩ :=
      (localPing_url_iff (TextDatum.zero_not_mem_constructed hread) port).mp hurl
    refine ⟨(host.constructed_eq_iff hnul).mp hread, ?_⟩
    cases hcheck : portSetting.check port with
    | true => exact Or.inl rfl
    | false =>
      have hzero := ((narrowPort_exact_iff port).mp hexact).resolve_left (by simp [hcheck])
      exact Or.inr ⟨hzero, hresult' ▸ hsilent hcheck⟩
  · rintro ⟨hbehind, hport⟩
    have hexact : ((narrowPort port).toNat : ℤ) = port.toInt :=
      (narrowPort_exact_iff port).mpr (hport.imp_right And.left)
    refine pingAgrees_of_addressed platform h ((host.constructed_eq_iff hnul).mpr hbehind)
      ((localPing_url_iff hnul port).mpr ⟨rfl, hexact⟩) ?_
    intro hrefused
    cases hport with
    | inl haccepted => exact Bool.noConfusion (haccepted.symm.trans hrefused)
    | inr hzero => exact hzero.2

theorem ping2_agrees_localhost :
    PingAgrees .amd64 (fun _ => .answered 200 []) (localhost fun _ => 0) 8500 :=
  (ping2_agrees_iff .amd64 (fun _ => .answered 200 []) 8500 agentHostCheckHook_default).mpr
    ⟨rfl, Or.inl (by decide)⟩

/-- `consul_agent_ping('127.0.0.1', 74036)` asks port 8500 and answers true. -/
theorem ping2_disagrees_wrapped :
    agentHostCheckHook (localhost fun _ => 0).payload = true ∧
      ¬ PingAgrees .amd64 (fun _ => .answered 200 []) (localhost fun _ => 0) 74036 := by
  refine ⟨agentHostCheckHook_default, ?_⟩
  intro h
  have hread := ((localhost fun _ => 0).constructed_eq_iff (by decide)).mpr rfl
  obtain ⟨c, hc, hrequests, hresult⟩ :=
    v1AgentPing2_read (fun _ => .answered 200 []) hread 74036
  obtain ⟨c', hc', hfalse, -⟩ := h.refused (by decide)
  obtain rfl : c = c' := Option.some.inj (hc.symm.trans hc')
  rw [hresult] at hfalse
  exact absurd hfalse (by decide)

/-! ## What lies behind an argument -/

theorem v1KvGet_behind (platform : Platform) (network : Network) (memory : ℕ → Indeterminate)
    (args : KvGetArgs) (agent : Agent) {d d' : TextDatum} (h : d'.payload = d.payload) :
    v1KvGet platform network memory { args with key := some d' } agent =
        v1KvGet platform network memory { args with key := some d } agent ∧
      v1KvGet platform network memory { args with cluster := some d' } agent =
        v1KvGet platform network memory { args with cluster := some d } agent := by
  have hassigned : d'.assigned = d.assigned := by rw [d'.assigned_eq, d.assigned_eq, h]
  constructor
  · simp only [v1KvGet, hassigned]
  · simp only [v1KvGet, Option.map_some, hassigned]

/-- **The host of `consul_agent_ping(host, port)` is its argument, in two memories, exactly when a
NUL follows the argument's bytes in both**; the arguments of `consul_kv_get` never depend on what
follows them. -/
theorem ping2_host_iff (d d' : TextDatum) (hpayload : d'.payload = d.payload)
    (hnul : 0 ∉ d.payload) :
    ((d.constructed = some d.payload ∧ d'.constructed = some d.payload ∧
        ∀ network port, (v1AgentPing2 network d' port).map (fun c => urls c.requests) =
          (v1AgentPing2 network d port).map fun c => urls c.requests) ↔
      d.behind 0 = 0 ∧ d'.behind 0 = 0) ∧
    (d.assigned = d.payload ∧ d'.assigned = d.payload ∧
      ∀ platform network memory (args : KvGetArgs) agent,
        v1KvGet platform network memory { args with key := some d' } agent =
            v1KvGet platform network memory { args with key := some d } agent ∧
          v1KvGet platform network memory { args with cluster := some d' } agent =
            v1KvGet platform network memory { args with cluster := some d } agent) := by
  have hd := d.constructed_eq_iff hnul
  have hd' : d'.constructed = some d.payload ↔ d'.behind 0 = 0 := by
    have := d'.constructed_eq_iff (hpayload.symm ▸ hnul)
    rwa [hpayload] at this
  refine ⟨⟨?_, ?_⟩, d.assigned_eq, d'.assigned_eq.trans hpayload, ?_⟩
  · rintro ⟨hread, hread', -⟩
    exact ⟨hd.mp hread, hd'.mp hread'⟩
  · rintro ⟨hbehind, hbehind'⟩
    have hread := hd.mpr hbehind
    have hread' := hd'.mpr hbehind'
    exact ⟨hread, hread', fun network port => by rw [v1AgentPing2, v1AgentPing2, hread, hread']⟩
  · exact fun platform network memory args agent =>
      v1KvGet_behind platform network memory args agent hpayload

theorem ping2_host_localhost :
    (localhost fun _ => 0).constructed = some (ascii "127.0.0.1") ∧
      (localhost fun i => if i = 0 then 0 else 7).constructed = some (ascii "127.0.0.1") ∧
      ∀ network port,
        (v1AgentPing2 network (localhost fun i => if i = 0 then 0 else 7) port).map
            (fun c => urls c.requests) =
          (v1AgentPing2 network (localhost fun _ => 0) port).map fun c => urls c.requests :=
  (ping2_host_iff (localhost fun _ => 0) (localhost fun i => if i = 0 then 0 else 7) rfl
    (by decide)).1.mpr ⟨rfl, rfl⟩

theorem ping2_host_stray :
    ((localhost fun i => if i = 0 then chr '2' else 0).payload = (localhost fun _ => 0).payload ∧
        0 ∉ (localhost fun _ => 0).payload) ∧
      (v1AgentPing2 (fun _ => .answered 200 []) (localhost fun _ => 0) 8500).map
          (fun c => urls c.requests) = some [ascii "http://127.0.0.1:8500/v1/agent/self"] ∧
      (v1AgentPing2 (fun _ => .answered 200 [])
          (localhost fun i => if i = 0 then chr '2' else 0) 8500).map
          (fun c => urls c.requests) = some [ascii "http://127.0.0.12:8500/v1/agent/self"] := by
  decide +kernel

end PgConsul.Extension
