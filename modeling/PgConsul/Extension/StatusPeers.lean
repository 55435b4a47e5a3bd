import PgConsul.Consul.ListDecoders
import PgConsul.Extension.StatusLeader

/-! # The leader among the peers

`pg_consul_v1_status_peers` asks for the leader and then for the peers, and marks the first peer
equal to the leader. The two answers may be of different moments.
-/
namespace PgConsul.Extension
set_option autoImplicit false
open Foundations Consul Cpr Json11

/-! ## Marking -/

theorem markLeader_host_port (leader : Peer) (peers : List Peer) :
    (markLeader leader peers).map (fun p => (p.host, p.port)) =
      peers.map (fun p => (p.host, p.port)) := by
  induction peers with
  | nil => rfl
  | cons peer peers ih =>
    rw [markLeader]
    split
    · rfl
    · rw [List.map_cons, ih, List.map_cons]

theorem markLeader_absent {leader : Peer} {peers : List Peer}
    (h : ∀ p ∈ peers, p.equal leader = false) : markLeader leader peers = peers := by
  induction peers with
  | nil => rfl
  | cons peer peers ih =>
    rw [List.forall_mem_cons] at h
    rw [markLeader, if_neg (by simp [h.1]), ih h.2]

/-- Only the first equal peer is marked. -/
theorem markLeader_first {leader : Peer} {before behind : List Peer} {p : Peer}
    (hbefore : ∀ q ∈ before, q.equal leader = false) (hp : p.equal leader = true) :
    markLeader leader (before ++ p :: behind) =
      before ++ { p with leader := true } :: behind := by
  induction before with
  | nil => rw [List.nil_append, markLeader, if_pos hp, List.nil_append]
  | cons q before ih =>
    rw [List.forall_mem_cons] at hbefore
    rw [List.cons_append, markLeader, if_neg (by simp [hbefore.1]), ih hbefore.2, List.cons_append]

/-- A list with an equal peer, cut at the first one. -/
theorem exists_first_equal {leader : Peer} {peers : List Peer}
    (h : ∃ p ∈ peers, p.equal leader = true) :
    ∃ before p behind, peers = before ++ p :: behind ∧
      (∀ q ∈ before, q.equal leader = false) ∧ p.equal leader = true := by
  induction peers with
  | nil =>
    obtain ⟨p, hp, -⟩ := h
    cases hp
  | cons q peers ih =>
    by_cases hq : q.equal leader = true
    · exact ⟨[], q, peers, rfl, fun _ hmem => absurd hmem List.not_mem_nil, hq⟩
    · obtain ⟨p, hmem, hp⟩ := h
      have hrest : ∃ p ∈ peers, p.equal leader = true := by
        cases List.mem_cons.mp hmem with
        | inl heq => exact absurd (heq ▸ hp) hq
        | inr hmem => exact ⟨p, hmem, hp⟩
      obtain ⟨before, p, behind, rfl, hbefore, hp⟩ := ih hrest
      refine ⟨q :: before, p, behind, rfl, ?_, hp⟩
      rw [List.forall_mem_cons]
      exact ⟨by simpa using hq, hbefore⟩

/-! ## Decoded peers -/

theorem decoded_leader {s : Bytes} (h : Peer.Accepts (.string s)) :
    (Peer.decoded (.string s)).leader = false := by
  by_cases hs : s = []
  · subst hs
    rfl
  · obtain ⟨t, rfl⟩ := Peer.peerText_of_accepted hs h
    rw [Peer.decoded, Peer.initFromJson_peerText]
    rfl

/-- A string that names no host: empty, or no host and the port 0. -/
def NoHost (s : Bytes) : Prop :=
  s = [] ∨ ∃ t : PeerText, t.text = s ∧ t.host = [] ∧ numeral t.digits = 0

theorem wrap_eq_zero_iff (t : PeerText) :
    UInt16.ofNat (t.sign.wrap 16 (numeral t.digits)) = 0 ↔ numeral t.digits = 0 := by
  have hfits := t.fits
  rw [← UInt16.toNat_inj, UInt16.toNat_ofNat']
  have hzero : (0 : UInt16).toNat = 0 := rfl
  cases t.sign <;> simp only [Boost.Sign.wrap] <;> omega

/-- The default peer is what a string without a host decodes to. -/
theorem decoded_default_iff {s : Bytes} (h : Peer.Accepts (.string s)) :
    (Peer.decoded (.string s)).equal {} = true ↔ NoHost s := by
  by_cases hs : s = []
  · subst hs
    exact ⟨fun _ => .inl rfl, fun _ => rfl⟩
  · obtain ⟨t, rfl⟩ := Peer.peerText_of_accepted hs h
    rw [Peer.decoded, Peer.initFromJson_peerText, Peer.equal_iff]
    constructor
    · rintro ⟨hhost, hport⟩
      exact .inr ⟨t, rfl, hhost, (wrap_eq_zero_iff t).mp hport⟩
    · rintro (hempty | ⟨t', htext, hhost, hdigits⟩)
      · exact absurd hempty hs
      · rw [PeerText.text_inj htext] at hhost hdigits
        exact ⟨hhost, (wrap_eq_zero_iff t).mpr hdigits⟩

/-! ## The rows of two answers -/

/-- The answers to the two requests of a call, both with status 200. -/
structure Answers (network : Network) (agent : Agent) (leaderBody peersBody : Bytes) : Prop where
  leader : network (getFrom network agent.statusLeaderUrl []).1 = .answered 200 leaderBody
  peers : network (getFrom network agent.statusLeaderUrl.2.statusPeersUrl []).1 =
    .answered 200 peersBody

/-- Both answers decode: the leader from the string `l`, the peers from the array `arr`. -/
structure Decode (leaderBody peersBody l : Bytes) (arr : List Json) : Prop where
  leader : StringBody leaderBody l
  leader_ok : Peer.Accepts (.string l)
  peers : parseText (parseResponse peersBody) = .ok (.array arr)
  peers_ne_nil : arr ≠ []
  peers_ok : ∀ j ∈ arr, Peer.Accepts j

theorem v1StatusPeers_answered {network : Network} {agent : Agent} {leaderBody peersBody l : Bytes}
    {arr : List Json} (hanswers : Answers network agent leaderBody peersBody)
    (hdecode : Decode leaderBody peersBody l arr) :
    (v1StatusPeers network agent).result =
      .ok (markLeader (Peer.decoded (.string l)) (arr.map Peer.decoded)) := by
  have hleader := get_answered hanswers.leader
  have hpeers := get_answered hanswers.peers
  have hdecoded : ({} : Peer).initFromJson (.string l) [] =
      ⟨true, Peer.decoded (.string l), []⟩ :=
    (Peer.initFromJson_err {} (.string l) []).1 hdecode.leader_ok
  have hlist := initFromJsonPeers_eq hdecode.peers hdecode.peers_ne_nil hdecode.peers_ok
  unfold v1StatusPeers
  simp only [getFrom] at hleader hpeers ⊢
  simp only [hleader, Peer.initFromText_string hdecode.leader.parse, hdecoded]
  simp [hpeers, hlist]

/-- The rows are the peers, and of these exactly the first one equal to the leader is marked; none
is when the leader's string is empty or no peer is equal. -/
structure LeaderMarked (l : Bytes) (peers rows : List Peer) : Prop where
  same : rows.map (fun p => (p.host, p.port)) = peers.map fun p => (p.host, p.port)
  noLeader : l = [] → ∀ row ∈ rows, row.leader = false
  marked : l ≠ [] → (∃ p ∈ peers, p.equal (Peer.decoded (.string l)) = true) →
    ∃ before row behind, rows = before ++ row :: behind ∧ row.leader = true ∧
      row.equal (Peer.decoded (.string l)) = true ∧
      (∀ q ∈ before, q.leader = false ∧ q.equal (Peer.decoded (.string l)) = false) ∧
      ∀ q ∈ behind, q.leader = false
  absent : l ≠ [] → (∀ p ∈ peers, p.equal (Peer.decoded (.string l)) = false) →
    ∀ row ∈ rows, row.leader = false

/-- The marking is right as soon as an empty leader is equal to no peer. -/
theorem leaderMarked_markLeader {l : Bytes} {peers : List Peer}
    (hunmarked : ∀ p ∈ peers, p.leader = false) :
    LeaderMarked l peers (markLeader (Peer.decoded (.string l)) peers) ↔
      (l = [] → ∀ p ∈ peers, p.equal {} = false) := by
  constructor
  · rintro h rfl p hp
    by_contra hequal
    obtain ⟨before, first, behind, rfl, hbefore, hfirst⟩ :=
      @exists_first_equal {} _ ⟨p, hp, by simpa using hequal⟩
    have hrows : markLeader {} (before ++ first :: behind) =
        before ++ { first with leader := true } :: behind := markLeader_first hbefore hfirst
    have hmarked := h.noLeader rfl { first with leader := true } (by
      rw [show Peer.decoded (.string []) = {} from rfl, hrows]
      simp)
    cases hmarked
  · intro hempty
    refine ⟨markLeader_host_port _ peers, ?_, ?_, ?_⟩
    · rintro rfl
      have habsent := markLeader_absent (hempty rfl)
      rw [show Peer.decoded (.string []) = {} from rfl, habsent]
      exact hunmarked
    · intro _ hequal
      obtain ⟨before, first, behind, rfl, hbefore, hfirst⟩ := exists_first_equal hequal
      refine ⟨before, { first with leader := true }, behind, markLeader_first hbefore hfirst, rfl,
        hfirst, fun q hq => ⟨hunmarked q (by simp [hq]), hbefore q hq⟩,
        fun q hq => hunmarked q (by simp [hq])⟩
    · intro _ habsent
      rw [markLeader_absent habsent]
      exact hunmarked

/-- The columns of a row whose host has no NUL. -/
def Shows (peer : Peer) : Prop :=
  0 ∉ peer.host → (peerRow peer).host = peer.host ∧ (peerRow peer).port = decimal peer.port.toNat ∧
    (peerRow peer).leader = if peer.leader then ascii "t" else ascii "f"

theorem shows_peerRow (peer : Peer) : Shows peer := by
  intro hnul
  have hport : column peer.portStr = decimal peer.port.toNat := by
    rw [Peer.portStr, Boost.lcastPutUnsigned_eq]
    exact (cStr_terminated_iff _).mpr (not_mem_decimal (by decide) _)
  have hleader : ∀ b : Bool, column (if b then ascii "t" else ascii "f") =
      if b then ascii "t" else ascii "f" := by decide
  exact ⟨(cStr_terminated_iff _).mpr hnul, hport, hleader peer.leader⟩

/-- **The leader is marked right exactly when an answer without a leader comes with no peer that
names no host.** -/
theorem leader_marked_iff {network : Network} {agent : Agent} {leaderBody peersBody l : Bytes}
    {arr : List Json} (hanswers : Answers network agent leaderBody peersBody)
    (hdecode : Decode leaderBody peersBody l arr) :
    ∃ rows, (v1StatusPeers network agent).result = .ok rows ∧ (∀ row ∈ rows, Shows row) ∧
      (LeaderMarked l (arr.map Peer.decoded) rows ↔
        (l = [] → ∀ j ∈ arr, ¬ NoHost j.stringValue)) := by
  refine ⟨_, v1StatusPeers_answered hanswers hdecode, fun row _ => shows_peerRow row, ?_⟩
  have hunmarked : ∀ p ∈ arr.map Peer.decoded, p.leader = false := by
    intro p hp
    obtain ⟨j, hj, rfl⟩ := List.mem_map.mp hp
    obtain ⟨s, rfl⟩ := Peer.accepts_string (hdecode.peers_ok j hj)
    exact decoded_leader (hdecode.peers_ok _ hj)
  rw [leaderMarked_markLeader hunmarked, List.forall_mem_map]
  refine imp_congr_right fun _ => forall₂_congr fun j hj => ?_
  obtain ⟨s, rfl⟩ := Peer.accepts_string (hdecode.peers_ok j hj)
  rw [← Bool.not_eq_true, decoded_default_iff (hdecode.peers_ok _ hj)]
  rfl

/-- An agent that answers the two requests with these bodies. -/
def statusNetwork (leaderBody peersBody : Bytes) : Network := fun r =>
  if r.url.getLast? = some (chr 'r') then .answered 200 leaderBody else .answered 200 peersBody

def answerPeers : Bytes := ascii "[\"a:1\", \"b:2\", \"b:2\"]"

def peersArray : List Json :=
  [.string (ascii "a:1"), .string (ascii "b:2"), .string (ascii "b:2")]

theorem leader_marked_duplicate :
    ∃ rows, (v1StatusPeers (statusNetwork (ascii "\"b:2\"") answerPeers) {}).result = .ok rows ∧
      (∀ row ∈ rows, Shows row) ∧
      (LeaderMarked (ascii "b:2") (peersArray.map Peer.decoded) rows ↔
        (ascii "b:2" = [] → ∀ j ∈ peersArray, ¬ NoHost j.stringValue)) := by
  have hanswers : Answers (statusNetwork (ascii "\"b:2\"") answerPeers) {} (ascii "\"b:2\"")
      answerPeers := ⟨by decide +kernel, by decide +kernel⟩
  have hdecode : Decode (ascii "\"b:2\"") answerPeers (ascii "b:2") peersArray :=
    ⟨.inl (by decide +kernel), by unfold Peer.Accepts; decide +kernel, by decide +kernel,
      by decide, by unfold Peer.Accepts; decide +kernel⟩
  exact leader_marked_iff hanswers hdecode

/-- Without a leader an empty entry among the peers is marked. -/
theorem no_leader_marked :
    Decode (ascii "\"\"") (ascii "[\"a:1\", \"\"]") []
        [.string (ascii "a:1"), .string []] ∧
      ∃ rows, (v1StatusPeers (statusNetwork (ascii "\"\"") (ascii "[\"a:1\", \"\"]")) {}).result =
          .ok rows ∧
        ¬ LeaderMarked [] ([Json.string (ascii "a:1"), .string []].map Peer.decoded) rows := by
  refine ⟨⟨.inl (by decide +kernel), by unfold Peer.Accepts; decide +kernel, by decide +kernel,
    by decide, by unfold Peer.Accepts; decide +kernel⟩,
    [⟨ascii "a", 1, false⟩, ⟨[], 0, true⟩], by decide +kernel, fun h => ?_⟩
  have hmarked := h.noLeader rfl ⟨[], 0, true⟩ (by decide)
  cases hmarked

end PgConsul.Extension
