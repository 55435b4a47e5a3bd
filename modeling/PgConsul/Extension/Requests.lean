import PgConsul.Extension.Functions

/-! # What the requests look like

Every function of the extension asks the agent it is given for its URLs and its timeout and leaves
the agent's settings alone. `Honours` says so for one call; the URL of such a request is cut into
its components here.
-/
namespace PgConsul.Extension
set_option autoImplicit false
open Foundations Consul Cpr

/-! ## One call -/

/-- The request goes to a URL of this address and waits this long. -/
structure Addressed (agent : Agent) (r : Request) : Prop where
  timeout : r.timeout = agent.timeoutMs.toNat
  url : ∃ e tail content, r.url = requestUrl (urlOf agent.host agent.port e ++ tail) content

/-- A call that keeps the agent's memo fields and settings and sends its requests to it. -/
structure Honours {α : Type} (agent : Agent) (c : Called α) : Prop where
  memoValid : c.agent.MemoValid
  settings : c.agent.settings = agent.settings
  requests : ∀ r ∈ c.requests, Addressed agent r

theorem getFrom_addressed (network : Network) {agent : Agent} (h : agent.MemoValid) (e : Endpoint)
    (content : Bytes) : Addressed agent (getFrom network (agent.memoized e) content).1 where
  timeout := by simp [getFrom]
  url := ⟨e, [], content, by simp [getFrom, h.memoized_url]⟩

theorem getFrom_result (network : Network) (url : Bytes × Agent) (content : Bytes) :
    (getFrom network url content).2 =
      match network (getFrom network url content).1 with
      | .threw what => .error what
      | .answered responseCode body => .ok ⟨responseCode, parseResponse body⟩ := by
  unfold getFrom
  rw [get_request]
  unfold Cpr.get
  dsimp only
  cases network ⟨requestUrl url.1 content, connectionClose, url.2.timeoutMs.toNat⟩ <;> rfl

theorem pingSelf_requests (network : Network) {agent : Agent} (h : agent.MemoValid) :
    (pingSelf network agent).requests =
      [pingRequest agent.host agent.port agent.timeoutMs] := by
  simp [pingSelf, getFrom, Agent.selfUrl, h.memoized_url, pingRequest]

def answers200 : Transfer → Bool
  | .answered responseCode _ => responseCode = 200
  | .threw _ => false

theorem isAlive_get (network : Network) (url : Bytes) (header : List (Bytes × Bytes))
    (timeout : ℕ) (content : Bytes) :
    isAlive (Cpr.get network url header timeout content).2 =
      answers200 (network ⟨requestUrl url content, header, timeout⟩) := by
  unfold Cpr.get
  simp only
  cases network ⟨requestUrl url content, header, timeout⟩ <;> rfl

theorem pingSelf_result (network : Network) {agent : Agent} (h : agent.MemoValid) :
    (pingSelf network agent).result =
      answers200 (network (pingRequest agent.host agent.port agent.timeoutMs)) := by
  simp [pingSelf, getFrom, isAlive_get, Agent.selfUrl, h.memoized_url, pingRequest]

theorem pingSelf_honours (network : Network) {agent : Agent} (h : agent.MemoValid) :
    Honours agent (pingSelf network agent) where
  memoValid := h.memoized .selfUrl
  settings := agent.memoized_settings .selfUrl
  requests := by
    intro r hr
    rw [pingSelf, List.mem_singleton] at hr
    exact hr ▸ getFrom_addressed network h .selfUrl []

/-- The strings the arguments of `consul_kv_get` stand for: NULL is no recursion and no cluster. -/
def KvGetArgs.recurseParam (args : KvGetArgs) : Bool := args.recurse.getD false

def KvGetArgs.dcParam (args : KvGetArgs) : Bytes := (args.cluster.map (·.payload)).getD []

theorem v1KvGet_requests (platform : Platform) (network : Network) (memory : ℕ → Indeterminate)
    {args : KvGetArgs} {agent : Agent} (h : agent.MemoValid) {keyp : TextDatum}
    (hkey : args.key = some keyp) :
    (v1KvGet platform network memory args agent).requests =
      [{ url := requestUrl (urlOf agent.host agent.port .kvEndpointUrlPrefix ++ keyp.payload)
          (kvGetContent platform args.dcParam args.recurseParam)
         header := connectionClose
         timeout := agent.timeoutMs.toNat }] := by
  have htimeout : (agent.kvUrl keyp.payload).2.timeoutMs = agent.timeoutMs := by
    simp [Agent.kvUrl, Agent.kvEndpointUrlPrefix]
  have hcluster : (args.cluster.map (·.assigned)).getD [] = args.dcParam := by
    rw [KvGetArgs.dcParam]
    cases args.cluster <;> simp [TextDatum.assigned_eq]
  unfold v1KvGet
  rw [hkey]
  simp only [keyp.assigned_eq, hcluster, getFrom, get_request, h.kvUrl_url, htimeout]
  rfl

theorem v1KvGet_honours (platform : Platform) (network : Network) (memory : ℕ → Indeterminate)
    (args : KvGetArgs) {agent : Agent} (h : agent.MemoValid) :
    Honours agent (v1KvGet platform network memory args agent) := by
  cases hkey : args.key with
  | none =>
    unfold v1KvGet
    rw [hkey]
    exact ⟨h, rfl, fun r hr => absurd hr List.not_mem_nil⟩
  | some keyp =>
    have hagent : (v1KvGet platform network memory args agent).agent =
        (agent.kvUrl keyp.assigned).2 := by
      unfold v1KvGet
      rw [hkey]
    refine ⟨hagent ▸ h.kvUrl _, ?_, ?_⟩
    · rw [hagent]
      exact (Agent.memoized_settings _ _).trans (Agent.memoized_settings _ _)
    · intro r hr
      rw [v1KvGet_requests platform network memory h hkey, List.mem_singleton] at hr
      subst hr
      exact ⟨rfl, .kvEndpointUrlPrefix, _, _, rfl⟩

theorem v1StatusLeader_honours (network : Network) {agent : Agent} (h : agent.MemoValid) :
    Honours agent (v1StatusLeader network agent) where
  memoValid := h.memoized .statusLeaderUrl
  settings := agent.memoized_settings .statusLeaderUrl
  requests := by
    intro r hr
    rw [v1StatusLeader, List.mem_singleton] at hr
    exact hr ▸ getFrom_addressed network h .statusLeaderUrl []

/-- The second request is addressed as the first: the first left the settings alone. -/
theorem v1StatusPeers_honours (network : Network) {agent : Agent} (h : agent.MemoValid) :
    Honours agent (v1StatusPeers network agent) := by
  have hleader := h.memoized .statusLeaderUrl
  have hfirst := getFrom_addressed network h .statusLeaderUrl []
  have hsecond : Addressed agent
      (getFrom network ((agent.memoized .statusLeaderUrl).2.memoized .statusPeersUrl) []).1 := by
    obtain ⟨htimeout, e, tail, content, hurl⟩ :=
      getFrom_addressed network hleader .statusPeersUrl []
    simp only [Agent.memoized_timeoutMs, Agent.memoized_host, Agent.memoized_port] at htimeout hurl
    exact ⟨htimeout, e, tail, content, hurl⟩
  have hone : ∀ result : Except PgError (List Peer), Honours agent
      ⟨[(getFrom network (agent.memoized .statusLeaderUrl) []).1],
        (agent.memoized .statusLeaderUrl).2, result⟩ := by
    intro result
    refine ⟨hleader, agent.memoized_settings .statusLeaderUrl, ?_⟩
    intro r hr
    rw [List.mem_singleton] at hr
    exact hr ▸ hfirst
  unfold v1StatusPeers
  simp only
  split
  · exact hone _
  · split
    · exact hone _
    · split
      · exact hone _
      · refine ⟨hleader.memoized .statusPeersUrl, ?_, ?_⟩
        · exact (Agent.memoized_settings _ _).trans (Agent.memoized_settings _ _)
        · intro r hr
          simp only [List.mem_cons, List.not_mem_nil, or_false] at hr
          rcases hr with rfl | rfl
          · exact hfirst
          · exact hsecond

/-! ## The components of a URL -/

theorem path_bytes (e : Endpoint) : ∀ b ∈ e.path, inPath b = true ∧ b ≠ 0 := by
  cases e <;> decide +kernel

theorem path_v1 (e : Endpoint) : ∃ rest, e.path = ascii "v1/" ++ rest := by
  cases e
  · exact ⟨ascii "kv/", by decide⟩
  · exact ⟨ascii "catalog/nodes", by decide⟩
  · exact ⟨ascii "agent/self", by decide⟩
  · exact ⟨ascii "status/leader", by decide⟩
  · exact ⟨ascii "status/peers", by decide⟩

theorem zero_not_mem_urlOf {host : Bytes} (h : 0 ∉ host) (port : UInt16) (e : Endpoint) :
    0 ∉ urlOf host port e := by
  have hport : 0 ∉ decimal port.toNat := not_mem_decimal (by decide) _
  have hpath : 0 ∉ e.path := fun hmem => (path_bytes e 0 hmem).2 rfl
  have hscheme : (0 : UInt8) ∉ ascii "http://" := by decide
  have hsep : (0 : UInt8) ≠ chr ':' ∧ (0 : UInt8) ≠ chr '/' := by decide
  simp only [urlOf, hostport, List.mem_append, List.mem_cons, not_or]
  exact ⟨⟨hscheme, h, hsep.1, hport⟩, hsep.2, hpath⟩

theorem requestUrl_urlOf {host : Bytes} (h : 0 ∉ host) (port : UInt16) (e : Endpoint)
    (tail content : Bytes) :
    ∃ rest, requestUrl (urlOf host port e ++ tail) content = urlOf host port e ++ rest := by
  have hurl := zero_not_mem_urlOf h port e
  unfold requestUrl
  split
  · exact ⟨_, by rw [List.append_assoc, List.append_assoc, cStr_append hurl]⟩
  · exact ⟨_, cStr_append hurl tail⟩

theorem inAuthority_hostport {host : Bytes} (h : ∀ b ∈ host, inAuthority b = true)
    (port : UInt16) : ∀ b ∈ hostport host port, inAuthority b = true := by
  intro b hb
  simp only [hostport, List.mem_append, List.mem_cons] at hb
  rcases hb with hb | rfl | hb
  · exact h b hb
  · decide
  · have hdelim : ∀ d, isDigit d = false → b ≠ d := by
      rintro d hd rfl
      exact not_mem_decimal hd _ hb
    simp only [inAuthority, inPath, Bool.and_eq_true, decide_eq_true_eq]
    exact ⟨hdelim _ rfl, hdelim _ rfl, hdelim _ rfl⟩

theorem parse_urlOf {host : Bytes} (h : ∀ b ∈ host, inAuthority b = true) (port : UInt16)
    (e : Endpoint) (rest : Bytes) :
    Uri.parse (urlOf host port e ++ rest) =
      some
        { scheme := ascii "http"
          authority := Authority.parse (hostport host port)
          path := chr '/' :: (e.path ++ rest.takeWhile inPath)
          query := queryOf (rest.dropWhile inPath)
          fragment := fragmentOf (rest.dropWhile inPath) } := by
  have hpath : ∀ b ∈ e.path, inPath b = true := fun b hb => (path_bytes e b hb).1
  rw [urlOf, List.append_assoc, List.cons_append,
    Uri.parse_http _ (inAuthority_hostport h port), List.takeWhile_append_of_pos hpath,
    List.dropWhile_append_of_pos hpath]

/-! ## A key and a query behind an endpoint -/

/-- What stands behind the endpoint's URL: the key, and the query if there is one. -/
def keyTail (key content : Bytes) : Bytes :=
  key ++ if content = [] then [] else chr '?' :: content

theorem requestUrl_key {host key content : Bytes} (hhost : 0 ∉ host) (hkey : 0 ∉ key)
    (hcontent : 0 ∉ content) (port : UInt16) (e : Endpoint) :
    requestUrl (urlOf host port e ++ key) content = urlOf host port e ++ keyTail key content := by
  have hnul : 0 ∉ urlOf host port e := zero_not_mem_urlOf hhost port e
  have hsep : (0 : UInt8) ≠ chr '?' := by decide
  unfold requestUrl keyTail
  by_cases hempty : content = []
  · simp only [hempty, ne_eq, not_true_eq_false, if_false, if_true, List.append_nil]
    apply cStr_eq_self
    simp only [List.mem_append, not_or]
    exact ⟨hnul, hkey⟩
  · simp only [hempty, ne_eq, not_false_eq_true, if_true, if_false]
    rw [cStr_eq_self]
    · simp
    · simp only [List.mem_append, List.mem_singleton, not_or]
      exact ⟨⟨⟨hnul, hkey⟩, hsep⟩, hcontent⟩

theorem takeWhile_keyTail (key content : Bytes) :
    (keyTail key content).takeWhile inPath = key.takeWhile inPath := by
  have hquery : (if content = [] then [] else chr '?' :: content).takeWhile inPath = [] := by
    split
    · rfl
    · exact List.takeWhile_cons_of_neg (by decide)
  rw [keyTail, List.takeWhile_append, hquery, List.append_nil]
  split
  · next hall => exact (List.takeWhile_prefix inPath).eq_of_length hall |>.symm
  · rfl

theorem parse_keyTail {host : Bytes} (h : ∀ b ∈ host, inAuthority b = true) (port : UInt16)
    (key content : Bytes) :
    Uri.parse (urlOf host port .kvEndpointUrlPrefix ++ keyTail key content) =
      some
        { scheme := ascii "http"
          authority := Authority.parse (hostport host port)
          path := ascii "/v1/kv/" ++ key.takeWhile inPath
          query := queryOf ((keyTail key content).dropWhile inPath)
          fragment := fragmentOf ((keyTail key content).dropWhile inPath) } := by
  have hpath : ascii "/v1/kv/" = chr '/' :: Endpoint.kvEndpointUrlPrefix.path := by decide
  rw [parse_urlOf h, takeWhile_keyTail, hpath, List.cons_append]

/-- Behind a key that ends no path the URL's query is the content. -/
theorem parameters_keyTail (platform : Platform) {key : Bytes}
    (hkey : ∀ b ∈ key, inPath b = true) (ps : List Parameter) {u : Uri}
    (hquery : u.query = queryOf ((keyTail key (content platform ps)).dropWhile inPath)) :
    u.parameters = queryPairs (content platform ps) := by
  have hhash := forall_ne_of_not_mem (hash_not_mem_content platform ps)
  rw [keyTail, List.dropWhile_append_of_pos hkey] at hquery
  rw [Uri.parameters, hquery]
  by_cases hempty : content platform ps = []
  · rw [hempty]
    rfl
  · rw [if_neg hempty, List.dropWhile_cons_of_neg (by decide)]
    simp only [queryOf, if_true, List.takeWhile_eq_self_iff.mpr hhash]

end PgConsul.Extension
