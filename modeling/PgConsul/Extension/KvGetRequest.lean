import PgConsul.Extension.HostCheck
import PgConsul.Extension.Requests

/-! # The URL of consul_kv_get

The parameters are escaped and the key is not. The path and the query of the URL stand for the
arguments exactly when the key holds no byte that means something in a URL's path.
-/
namespace PgConsul.Extension
set_option autoImplicit false
open Foundations Consul Cpr

/-! ## Parameters -/

def kvGetParameters (dcParam : Bytes) (recurseParam : Bool) : List Parameter :=
  (if dcParam = [] then [] else [⟨ascii "dc", dcParam⟩]) ++
    if recurseParam then [⟨ascii "recurse", []⟩] else []

theorem kvGetContent_eq (platform : Platform) (dcParam : Bytes) (recurseParam : Bool) :
    kvGetContent platform dcParam recurseParam =
      content platform (kvGetParameters dcParam recurseParam) := by
  by_cases hdc : dcParam = [] <;> cases recurseParam <;>
    simp [kvGetContent, kvGetParameters, content, hdc]

def pairs (ps : List Parameter) : List (Bytes × Bytes) := ps.map fun p => (p.key, p.value)

theorem queryPairs_kvGetContent (platform : Platform) (dcParam : Bytes) (recurseParam : Bool) :
    queryPairs (kvGetContent platform dcParam recurseParam) =
      some (pairs (kvGetParameters dcParam recurseParam)) := by
  rw [kvGetContent_eq]
  apply queryPairs_content
  intro p hp
  have hnames : ascii "dc" ≠ [] ∧ ascii "recurse" ≠ [] := by decide
  simp only [kvGetParameters, List.mem_append] at hp
  rcases hp with hp | hp
  · split at hp
    · cases hp
    · rw [List.mem_singleton] at hp
      exact hp ▸ hnames.1
  · split at hp
    · rw [List.mem_singleton] at hp
      exact hp ▸ hnames.2
    · cases hp

theorem kvGetParameters_inj {dcParam dcParam' : Bytes} {recurseParam recurseParam' : Bool}
    (h : pairs (kvGetParameters dcParam recurseParam) =
      pairs (kvGetParameters dcParam' recurseParam')) :
    dcParam = dcParam' ∧ recurseParam = recurseParam' := by
  have hnames : ascii "dc" ≠ ascii "recurse" := by decide
  by_cases hdc : dcParam = [] <;> by_cases hdc' : dcParam' = [] <;> cases recurseParam <;>
    cases recurseParam' <;> simp_all [pairs, kvGetParameters]

/-! ## The URL -/

/-- A call with a key; a PostgreSQL text holds no NUL. -/
structure KvQuery where
  key : TextDatum
  recurse : Option Bool
  cluster : Option TextDatum
  key_text : 0 ∉ key.payload
  cluster_text : ∀ c, cluster = some c → 0 ∉ c.payload

namespace KvQuery

def args (q : KvQuery) : KvGetArgs := ⟨some q.key, q.recurse, q.cluster⟩

/-- The arguments as strings: NULL is no recursion, or the empty cluster. -/
def triple (q : KvQuery) : Bytes × Bool × Bytes :=
  (q.key.payload, q.args.recurseParam, q.args.dcParam)

def urls (platform : Platform) (agent : Agent) (q : KvQuery) (network : Network)
    (memory : ℕ → Indeterminate) : List Bytes :=
  (v1KvGet platform network memory q.args agent).requests.map (·.url)

/-- What follows the endpoint's URL: the key, and the query if there is one. -/
def tail (platform : Platform) (q : KvQuery) : Bytes :=
  q.key.payload ++
    if kvGetContent platform q.args.dcParam q.args.recurseParam = [] then []
    else chr '?' :: kvGetContent platform q.args.dcParam q.args.recurseParam

/-- The path decodes to the key's path and the query to the parameters asked for. -/
def Faithful (platform : Platform) (agent : Agent) (q : KvQuery) : Prop :=
  ∀ network memory, ∃ u uri, q.urls platform agent network memory = [u] ∧ Uri.parse u = some uri ∧
    percentDecode uri.path = some (ascii "/v1/kv/" ++ q.key.payload) ∧
    uri.parameters = some (pairs (kvGetParameters q.args.dcParam q.args.recurseParam))

end KvQuery

/-- No byte of the host ends the authority, and none ends the C string. -/
def CleanHost (host : Bytes) : Prop := ∀ b ∈ host, inAuthority b = true ∧ b ≠ 0

theorem cleanHost_of_accepted {host : Bytes} (h : agentHostCheckHook host = true) :
    CleanHost host := by
  intro b hb
  refine ⟨agentHostCheckHook_inAuthority h b hb, ?_⟩
  rintro rfl
  exact agentHostCheckHook_delimiter h (by decide) hb

section Url
variable {platform : Platform} {agent : Agent}

theorem kvGet_urls (hmemo : agent.MemoValid) (hhost : CleanHost agent.host) (q : KvQuery)
    (network : Network) (memory : ℕ → Indeterminate) :
    q.urls platform agent network memory =
      [urlOf agent.host agent.port .kvEndpointUrlPrefix ++ q.tail platform] := by
  have hnul : 0 ∉ agent.host := fun hmem => (hhost 0 hmem).2 rfl
  have hcontent : 0 ∉ kvGetContent platform q.args.dcParam q.args.recurseParam := by
    rw [kvGetContent_eq]
    exact zero_not_mem_content platform _
  have hrequests := v1KvGet_requests platform network memory hmemo (show q.args.key = q.key by rfl)
  rw [KvQuery.urls, hrequests, List.map_singleton]
  exact congrArg (· :: []) (requestUrl_key hnul q.key_text hcontent _ _)

theorem parse_kvGet (hhost : CleanHost agent.host) (q : KvQuery) :
    Uri.parse (urlOf agent.host agent.port .kvEndpointUrlPrefix ++ q.tail platform) =
      some
        { scheme := ascii "http"
          authority := Authority.parse (hostport agent.host agent.port)
          path := ascii "/v1/kv/" ++ q.key.payload.takeWhile inPath
          query := queryOf ((q.tail platform).dropWhile inPath)
          fragment := fragmentOf ((q.tail platform).dropWhile inPath) } :=
  parse_keyTail (fun b hb => (hhost b hb).1) _ _ _

theorem parameters_kvGet {q : KvQuery} (hkey : ∀ b ∈ q.key.payload, inPath b = true) (u : Uri)
    (hquery : u.query = queryOf ((q.tail platform).dropWhile inPath)) :
    u.parameters = some (pairs (kvGetParameters q.args.dcParam q.args.recurseParam)) := by
  rw [← queryPairs_kvGetContent platform]
  rw [KvQuery.tail, kvGetContent_eq] at hquery
  rw [kvGetContent_eq]
  exact parameters_keyTail platform hkey _ hquery

theorem inPath_iff (b : UInt8) : inPath b = true ↔ b ≠ chr '?' ∧ b ≠ chr '#' := by
  simp [inPath]

/-- **One call is encoded faithfully exactly when its key holds no `%`, no `?` and no `#`.** -/
theorem faithful_iff (hmemo : agent.MemoValid) (hhost : CleanHost agent.host) (q : KvQuery) :
    q.Faithful platform agent ↔ ∀ d ∈ ascii "%?#", d ∉ q.key.payload := by
  have hdelims : ascii "%?#" = [chr '%', chr '?', chr '#'] := by decide
  simp only [hdelims, List.mem_cons, List.not_mem_nil, or_false, forall_eq_or_imp, forall_eq]
  constructor
  · intro hfaithful
    obtain ⟨u, uri, hurls, hparse, hpath, -⟩ :=
      hfaithful (fun _ => .answered 200 []) fun _ => ⟨0, 0, 0, 0⟩
    rw [kvGet_urls hmemo hhost, List.singleton_inj] at hurls
    rw [← hurls, parse_kvGet hhost, Option.some_inj] at hparse
    subst hparse
    -- decoding never lengthens, so nothing was cut off and nothing was decoded
    obtain ⟨hlength, hshorter⟩ := percentDecode_length hpath
    simp only [List.length_append] at hlength hshorter
    have huncut : q.key.payload.takeWhile inPath = q.key.payload :=
      (List.takeWhile_prefix inPath).eq_of_length_le (by omega)
    have hinPath := List.takeWhile_eq_self_iff.mp huncut
    rw [huncut] at hshorter
    refine ⟨fun hpercent => ?_, fun hquestion => ?_, fun hhash => ?_⟩
    · exact absurd (hshorter (List.mem_append_right _ hpercent)) (lt_irrefl _)
    · exact ((inPath_iff _).mp (hinPath _ hquestion)).1 rfl
    · exact ((inPath_iff _).mp (hinPath _ hhash)).2 rfl
  · rintro ⟨hpercent, hquestion, hhash⟩ network memory
    have hinPath : ∀ b ∈ q.key.payload, inPath b = true := by
      intro b hb
      rw [inPath_iff]
      exact ⟨fun h => hquestion (h ▸ hb), fun h => hhash (h ▸ hb)⟩
    have huncut := List.takeWhile_eq_self_iff.mpr hinPath
    refine ⟨_, _, kvGet_urls hmemo hhost q network memory, parse_kvGet hhost q, ?_,
      parameters_kvGet hinPath _ rfl⟩
    have hescape : chr '%' ∉ ascii "/v1/kv/" := by decide
    simp only [huncut]
    apply percentDecode_of_no_escape
    simp only [List.mem_append, not_or]
    exact ⟨hescape, hpercent⟩

theorem triple_of_faithful {q q' : KvQuery} (h : q.Faithful platform agent)
    (h' : q'.Faithful platform agent) {network network' : Network}
    {memory memory' : ℕ → Indeterminate}
    (hurls : q.urls platform agent network memory = q'.urls platform agent network' memory') :
    q.triple = q'.triple := by
  obtain ⟨u, uri, hu, hparse, hpath, hparameters⟩ := h network memory
  obtain ⟨u', uri', hu', hparse', hpath', hparameters'⟩ := h' network' memory'
  obtain rfl : u = u' := List.singleton_inj.mp (hu.symm.trans (hurls.trans hu'))
  obtain rfl : uri = uri' := Option.some_inj.mp (hparse.symm.trans hparse')
  have hkey := List.append_cancel_left (Option.some_inj.mp (hpath.symm.trans hpath'))
  obtain ⟨hdc, hrecurse⟩ :=
    kvGetParameters_inj (Option.some_inj.mp (hparameters.symm.trans hparameters'))
  simp only [KvQuery.triple, hkey, hdc, hrecurse]

/-- **The request encoding is faithful and injective on a set of calls exactly when no key in the
set holds a `%`, a `?` or a `#`.** -/
theorem kv_get_encoding_iff (platform : Platform) {agent : Agent} (hmemo : agent.MemoValid)
    (hhost : CleanHost agent.host) (S : Set KvQuery) :
    ((∀ q ∈ S, q.Faithful platform agent) ∧
        ∀ q ∈ S, ∀ q' ∈ S, ∀ network memory network' memory',
          q.urls platform agent network memory = q'.urls platform agent network' memory' →
            q.triple = q'.triple) ↔
      ∀ q ∈ S, ∀ d ∈ ascii "%?#", d ∉ q.key.payload := by
  constructor
  · rintro ⟨hfaithful, -⟩ q hq
    exact (faithful_iff hmemo hhost q).mp (hfaithful q hq)
  · intro hclean
    have hfaithful : ∀ q ∈ S, q.Faithful platform agent :=
      fun q hq => (faithful_iff hmemo hhost q).mpr (hclean q hq)
    exact ⟨hfaithful, fun q hq q' hq' network memory network' memory' hurls =>
      triple_of_faithful (hfaithful q hq) (hfaithful q' hq') hurls⟩

end Url

def queryOfA (recurse : Bool) : KvQuery where
  key := textA
  recurse := some recurse
  cluster := none
  key_text := by decide
  cluster_text := by simp

def queryOfARecurse : KvQuery where
  key := ⟨52, ascii "a?recurse", fun _ => 0, by decide⟩
  recurse := none
  cluster := none
  key_text := by decide
  cluster_text := by simp

theorem kv_get_encoding_a :
    (∀ q ∈ Set.range queryOfA, q.Faithful .amd64 {}) ∧
      ∀ q ∈ Set.range queryOfA, ∀ q' ∈ Set.range queryOfA,
        ∀ network memory network' memory',
          q.urls .amd64 {} network memory = q'.urls .amd64 {} network' memory' →
            q.triple = q'.triple := by
  refine (kv_get_encoding_iff .amd64 (Agent.memoValid_new _ _)
    (cleanHost_of_accepted agentHostCheckHook_default) _).mpr ?_
  rintro q ⟨recurse, rfl⟩
  exact (by decide +kernel : ∀ d ∈ ascii "%?#", d ∉ ascii "a")

/-- Two different calls with one URL. -/
theorem kv_get_encoding_collides :
    queryOfARecurse.triple ≠ (queryOfA true).triple ∧
      queryOfARecurse.urls .amd64 {} (fun _ => .answered 200 []) (fun _ => ⟨0, 0, 0, 0⟩) =
        (queryOfA true).urls .amd64 {} (fun _ => .answered 200 []) fun _ => ⟨0, 0, 0, 0⟩ := by
  decide +kernel

end PgConsul.Extension
