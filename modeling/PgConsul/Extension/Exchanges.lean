import PgConsul.Cpr.Header
import PgConsul.Extension.Requests

/-! # What the headers of an answer decide

No function of the extension looks at a header, but the client reads them all before it returns, and
an exception there ends the call. An agent that answers 200 is dead to a ping, and its leader an
error, when one line of its header ends in the colon.
-/
namespace PgConsul.Extension
set_option autoImplicit false
open Foundations Consul Cpr

/-- The answers are what the client makes of these exchanges, none of which it reads beyond its
strings and lists. -/
def Served (lib : StdLib) (exchange : Request → Exchange) (network : Network) : Prop :=
  ∀ r, (exchange r).transfer lib = some (network r)

/-- Every line of the header can be read. -/
def HeadersReadable (x : Exchange) : Prop :=
  ∀ line ∈ readLines (chr '\n') x.headers.flatten, Readable line

section Served
variable {lib : StdLib} {exchange : Request → Exchange} {network : Network}

theorem Served.twoFields (h : Served lib exchange network) (r : Request) :
    ∀ nc ∈ (exchange r).cookies, TwoFields nc := by
  intro nc hnc
  have hdefined := h r
  rw [Exchange.transfer, makeResponse] at hdefined
  cases hcookies : (exchange r).cookies.mapM readCookie with
  | error e =>
    rw [hcookies, mapM_readCookie_error hcookies] at hdefined
    cases hdefined
  | ok ps => exact (readCookie_ok_iff nc).mp ((mapM_ok_iff _ _).mp ⟨ps, hcookies⟩ nc hnc)

/-- A request is answered when the header of its answer can be read, and throws otherwise. -/
theorem Served.cases (h : Served lib exchange network) (r : Request) :
    (HeadersReadable (exchange r) ∧
        network r = .answered (exchange r).responseCode (exchange r).body.flatten) ∨
      (¬ HeadersReadable (exchange r) ∧ ∃ what, network r = .threw what) := by
  by_cases hread : HeadersReadable (exchange r)
  · have hanswer := (transfer_answered_iff lib (exchange r) _ _).mpr
      ⟨h.twoFields r, hread, rfl, rfl⟩
    rw [h r, Option.some_inj] at hanswer
    exact .inl ⟨hread, hanswer⟩
  · refine .inr ⟨hread, ?_⟩
    have htransfer := h r
    cases hr : network r with
    | threw what => exact ⟨what, rfl⟩
    | answered responseCode body =>
      rw [hr] at htransfer
      exact absurd ((transfer_answered_iff lib (exchange r) _ _).mp htransfer).2.1 hread

/-- What a function sees of its request. -/
theorem Served.getFrom (h : Served lib exchange network) (url : Bytes × Agent) (content : Bytes) :
    let r := Extension.getFrom network url content
    (HeadersReadable (exchange r.1) ∧
        r.2 = .ok ⟨(exchange r.1).responseCode, parseResponse (exchange r.1).body.flatten⟩) ∨
      (¬ HeadersReadable (exchange r.1) ∧ ∃ what, r.2 = .error what) := by
  intro r
  have hresult : r.2 = _ := getFrom_result network url content
  rw [hresult]
  rcases h.cases r.1 with ⟨hread, hanswer⟩ | ⟨hread, what, hthrew⟩
  · exact .inl ⟨hread, by rw [hanswer]⟩
  · exact .inr ⟨hread, what, by rw [hthrew]⟩

theorem pingSelf_headers (h : Served lib exchange network) (agent : Agent) :
    (pingSelf network agent).result = true ↔ ∀ r ∈ (pingSelf network agent).requests,
      HeadersReadable (exchange r) ∧ (exchange r).responseCode = 200 := by
  rw [pingSelf, List.forall_mem_singleton]
  rcases h.getFrom agent.selfUrl [] with ⟨hread, hresult⟩ | ⟨hread, what, hresult⟩
  · rw [hresult, isAlive, decide_eq_true_eq, and_iff_right hread]
  · rw [hresult, isAlive]
    exact iff_of_false Bool.false_ne_true fun hcode => hread hcode.1

/-- The error into which an exception of the client is turned. -/
def PrerequisiteError {α : Type} (result : Except PgError α) : Prop :=
  ∃ message, result = .error ⟨.OBJECT_NOT_IN_PREREQUISITE_STATE, message⟩

@[simp] theorem prerequisiteError_ok {α : Type} (a : α) :
    ¬ PrerequisiteError (.ok a : Except PgError α) := by
  rintro ⟨message, h⟩
  cases h

@[simp] theorem prerequisiteError_error {α : Type} (e : PgError) :
    PrerequisiteError (.error e : Except PgError α) ↔
      e.code = .OBJECT_NOT_IN_PREREQUISITE_STATE := by
  obtain ⟨code, message⟩ := e
  simp [PrerequisiteError]

/-- The header of one of the answers cannot be read. -/
def Unreadable (exchange : Request → Exchange) (requests : List Request) : Prop :=
  ∃ r ∈ requests, ¬ HeadersReadable (exchange r)

theorem unreadable_singleton (r : Request) :
    Unreadable exchange [r] ↔ ¬ HeadersReadable (exchange r) := by
  simp [Unreadable]

theorem v1StatusLeader_headers (h : Served lib exchange network) (agent : Agent) :
    PrerequisiteError (v1StatusLeader network agent).result ↔
      Unreadable exchange (v1StatusLeader network agent).requests := by
  rw [v1StatusLeader, unreadable_singleton]
  rcases h.getFrom agent.statusLeaderUrl [] with ⟨hread, hresult⟩ | ⟨hread, what, hresult⟩
  · simp only [hresult]
    refine iff_of_false ?_ (not_not.mpr hread)
    split
    · simp [connectionError]
    · split
      · simp
      · split <;> simp
  · simp only [hresult]
    exact iff_of_true ⟨_, rfl⟩ hread

theorem v1StatusPeers_headers (h : Served lib exchange network) (agent : Agent) :
    PrerequisiteError (v1StatusPeers network agent).result ↔
      Unreadable exchange (v1StatusPeers network agent).requests := by
  rw [v1StatusPeers]
  rcases h.getFrom agent.statusLeaderUrl [] with ⟨hread, hresult⟩ | ⟨hread, what, hresult⟩
  · have hfirst : ∀ e : PgError, e.code ≠ .OBJECT_NOT_IN_PREREQUISITE_STATE →
        (PrerequisiteError (.error e : Except PgError (List Peer)) ↔
          Unreadable exchange [(Extension.getFrom network agent.statusLeaderUrl []).1]) := by
      intro e he
      rw [unreadable_singleton, prerequisiteError_error]
      exact iff_of_false he (not_not.mpr hread)
    simp only [hresult]
    split
    · exact hfirst _ (by simp [connectionError])
    · split
      · exact hfirst _ (by simp)
      · -- the second request is sent
        have hpair : ∀ r, Unreadable exchange
            [(Extension.getFrom network agent.statusLeaderUrl []).1, r] ↔
              ¬ HeadersReadable (exchange r) := by
          simp [Unreadable, hread]
        rw [hpair]
        rcases h.getFrom agent.statusLeaderUrl.2.statusPeersUrl [] with
          ⟨hread', hresult'⟩ | ⟨hread', what, hresult'⟩
        · simp only [hresult']
          refine iff_of_false ?_ (not_not.mpr hread')
          split
          · simp [connectionError]
          · split <;> simp
        · simp only [hresult']
          exact iff_of_true ⟨_, rfl⟩ hread'
  · simp only [hresult]
    exact iff_of_true ⟨_, rfl⟩ ((unreadable_singleton _).mpr hread)

theorem v1KvGet_headers (h : Served lib exchange network) (platform : Platform)
    (memory : ℕ → Indeterminate) {args : KvGetArgs} (hrecurse : args.recurseParam = true)
    (agent : Agent) :
    PrerequisiteError (v1KvGet platform network memory args agent).result ↔
      Unreadable exchange (v1KvGet platform network memory args agent).requests := by
  rw [v1KvGet]
  cases args.key with
  | none => simp [Unreadable]
  | some keyp =>
    rw [KvGetArgs.recurseParam] at hrecurse
    simp only [hrecurse]
    rw [unreadable_singleton]
    rcases h.getFrom (agent.kvUrl keyp.assigned)
        (kvGetContent platform ((args.cluster.map (·.assigned)).getD []) true) with
      ⟨hread, hresult⟩ | ⟨hread, what, hresult⟩
    · simp only [hresult]
      refine iff_of_false ?_ (not_not.mpr hread)
      split
      · simp
      · split <;> simp
    · simp only [hresult]
      exact iff_of_true ⟨_, rfl⟩ hread

end Served

/-- **What the headers decide**: a ping answers true exactly when the code is 200 and every header
line has two characters behind its first colon; the other functions end with the error for an
exception exactly when a line of one of their answers has not. -/
theorem headers_decide {lib : StdLib} {exchange : Request → Exchange} {network : Network}
    (h : Served lib exchange network) (agent : Agent) :
    (∀ ping, (ping = v1AgentPing0 network agent ∨
        ∃ host port, v1AgentPing2 network host port = some ping) →
      (ping.result = true ↔ ∀ r ∈ ping.requests,
        HeadersReadable (exchange r) ∧ (exchange r).responseCode = 200)) ∧
      (PrerequisiteError (v1StatusLeader network agent).result ↔
        Unreadable exchange (v1StatusLeader network agent).requests) ∧
      (PrerequisiteError (v1StatusPeers network agent).result ↔
        Unreadable exchange (v1StatusPeers network agent).requests) ∧
      ∀ platform memory args, KvGetArgs.recurseParam args = true →
        (PrerequisiteError (v1KvGet platform network memory args agent).result ↔
          Unreadable exchange (v1KvGet platform network memory args agent).requests) := by
  refine ⟨?_, v1StatusLeader_headers h agent, v1StatusPeers_headers h agent,
    fun platform memory args hrecurse => v1KvGet_headers h platform memory hrecurse agent⟩
  rintro ping (rfl | ⟨host, port, hping⟩)
  · exact pingSelf_headers h agent
  · obtain ⟨host', -, rfl⟩ := Option.map_eq_some_iff.mp hping
    exact pingSelf_headers h _

/-- An answer with a header line that ends in its colon. -/
def answerBare : Exchange := ⟨200, [ascii "HTTP/1.1 200 OK\r\n", ascii "X:\n"], [ascii "\"\""], []⟩

/-- The agent answers 200, and the ping is false. -/
theorem headers_decide_bare :
    let network : Network := fun _ => .threw (StdLib.gnu.substrWhat 3 2)
    (v1AgentPing0 network {}).result = false ∧
      PrerequisiteError (v1StatusLeader network {}).result := by
  intro network
  have hserved : Served .gnu (fun _ => answerBare) network := by
    have htransfer : answerBare.transfer .gnu = some (.threw (StdLib.gnu.substrWhat 3 2)) := by
      decide +kernel
    exact fun _ => htransfer
  have hbare : ¬ HeadersReadable answerBare := by
    intro hread
    have hline := hread (ascii "X:") (by decide +kernel) (ascii "X") [] (by decide) (by decide)
    exact absurd hline (by decide)
  obtain ⟨hping, hleader, -⟩ := headers_decide hserved {}
  refine ⟨?_, hleader.mpr ⟨_, List.mem_singleton_self _, hbare⟩⟩
  rw [Bool.eq_false_iff, Ne, hping _ (.inl rfl)]
  exact fun hall => hbare (hall _ (List.mem_singleton_self _)).1

end PgConsul.Extension
