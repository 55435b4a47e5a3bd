import PgConsul.Consul.Explanations
import PgConsul.Extension.StatusPeers
import PgConsul.Playground.ConsulStatus

/-! # The tool and the functions report the same cluster

`consul-status` asks for the leader and for the peers in two functions, `consul_status_peers` in one.
From the same agent and the same answers both get to the same peers, or neither gets to any.
-/
namespace PgConsul.Playground.ConsulStatus
set_option autoImplicit false
open Foundations Consul Cpr Extension

/-! ## Rows -/

theorem mem_markLeader {leader row : Peer} {peers : List Peer}
    (hplain : ∀ p ∈ peers, p.leader = false) (h : row ∈ markLeader leader peers)
    (hrow : row.leader = true) : row.host = leader.host ∧ row.port = leader.port := by
  induction peers with
  | nil => cases h
  | cons peer peers ih =>
    rw [List.forall_mem_cons] at hplain
    have hother : ∀ p, p.leader = false → row ≠ p := by
      rintro p hp rfl
      rw [hp] at hrow
      cases hrow
    rw [markLeader] at h
    split at h
    · next hequal =>
      rcases List.mem_cons.mp h with rfl | h
      · exact (Peer.equal_iff _ _).mp hequal
      · exact absurd rfl (hother row (hplain.2 row h))
    · rcases List.mem_cons.mp h with rfl | h
      · exact absurd rfl (hother row hplain.1)
      · exact ih hplain.2 h

theorem peers_plain {text : Bytes} (h : (initFromJsonPeers [] text []).ok = true) :
    ∀ p ∈ (initFromJsonPeers [] text []).target, p.leader = false := by
  cases hparse : Json11.parseText text with
  | error message =>
    obtain ⟨herror, hne⟩ := parse_error hparse
    rw [initFromJsonPeers, herror, if_pos hne] at h
    cases h
  | ok j =>
    obtain ⟨arr, rfl, hne, haccepts⟩ := initFromJsonPeers_accepts hparse h
    rw [initFromJsonPeers_eq hparse hne haccepts]
    intro p hp
    obtain ⟨e, he, rfl⟩ := List.mem_map.mp hp
    obtain ⟨s, rfl⟩ := Peer.accepts_string (haccepts e he)
    exact decoded_leader (haccepts _ he)

/-- The leader bit is not written. -/
theorem json_markLeader (leader : Peer) (peers : List Peer) :
    (markLeader leader peers).map (fun p => ascii "JSON Peer: " ++ p.json) =
      peers.map fun p => ascii "JSON Peer: " ++ p.json := by
  have hjson : ∀ ps : List Peer, ps.map (fun p => ascii "JSON Peer: " ++ p.json) =
      (ps.map fun p => (p.host, p.port)).map fun hp =>
        ascii "JSON Peer: " ++ Peer.json ⟨hp.1, hp.2, false⟩ := by
    intro ps
    rw [List.map_map]
    rfl
  rw [hjson, hjson, markLeader_host_port]

/-! ## One question -/

/-- What one of the tool's functions makes of a response; `log` is what it logs of one it cannot
use. -/
inductive Fetched (request : Request) (r : Except Bytes Response) (agent : Agent)
    (print : Printer) : Status → Prop where
  | threw {what : Bytes} {log : List Message} (response : r = .error what) :
      Fetched request r agent print ⟨⟨[], log⟩, request, agent, .aborted⟩
  | refused {statusCode : ℤ} {text : Bytes} {log : List Message}
      (response : r = .ok ⟨statusCode, text⟩) (code : statusCode ≠ 200) :
      Fetched request r agent print ⟨⟨[], log⟩, request, agent, .EX_TEMPFAIL⟩
  | unreadable {text message : Bytes} {log : List Message} (response : r = .ok ⟨200, text⟩)
      (unprinted : print text = .error message) :
      Fetched request r agent print ⟨⟨[], log⟩, request, agent, .EX_PROTOCOL⟩
  | read {text : Bytes} {printed : Printed} (response : r = .ok ⟨200, text⟩)
      (wrote : print text = .ok printed) :
      Fetched request r agent print ⟨printed, request, agent, .EX_OK⟩

theorem fetched (network : Network) (url : Bytes × Agent) (print : Printer) :
    Fetched (getFrom network url []).1 (getFrom network url []).2 url.2 print
      (fetch network url print) := by
  simp only [fetch]
  cases hr : (getFrom network url []).2 with
  | error what => exact .threw rfl
  | ok response =>
    obtain ⟨statusCode, text⟩ := response
    by_cases hcode : statusCode = 200
    · subst hcode
      simp only [ne_eq, not_true_eq_false, if_false]
      cases hprint : print text with
      | error message => exact .unreadable rfl hprint
      | ok printed => exact .read rfl hprint
    · simp only [if_pos hcode]
      exact .refused rfl hcode

theorem printLeader_error {debugFlag : Bool} {text message : Bytes}
    (h : printLeader debugFlag text = .error message) :
    (Peer.initFromText {} text []).ok = false := by
  rw [printLeader] at h
  split at h
  · cases h
  · next hok => exact Bool.not_eq_true _ ▸ hok

theorem printLeader_ok {debugFlag : Bool} {text : Bytes} {printed : Printed}
    (h : printLeader debugFlag text = .ok printed) :
    (Peer.initFromText {} text []).ok = true ∧
      [ascii "Leader: " ++ (Peer.initFromText {} text []).target.str] = printed.lines := by
  rw [printLeader] at h
  split at h
  · next hok =>
    cases h
    exact ⟨hok, rfl⟩
  · cases h

theorem printPeers_error {text message : Bytes} (h : printPeers text = .error message) :
    (initFromJsonPeers [] text []).ok = false := by
  rw [printPeers] at h
  split at h
  · cases h
  · next hok => exact Bool.not_eq_true _ ▸ hok

theorem printPeers_ok {text : Bytes} {printed : Printed} (h : printPeers text = .ok printed) :
    (initFromJsonPeers [] text []).ok = true ∧
      (initFromJsonPeers [] text []).target.map (fun peer => ascii "JSON Peer: " ++ peer.json) =
        printed.lines := by
  rw [printPeers] at h
  split at h
  · next hok =>
    cases h
    exact ⟨hok, rfl⟩
  · cases h

/-! ## Agreement -/

/-- The tool's first question and `consul_status_leader`. -/
structure LeaderAgrees (one : Called (Except PgError (Option Bytes))) (leader : Status) : Prop where
  requests : one.requests = [leader.request]
  exit : (∃ s, one.result = .ok (some s)) ↔ leader.exit = .EX_OK
  lines : ∀ s, one.result = .ok (some s) →
    ∃ str, leader.lines = [ascii "Leader: " ++ str] ∧ s = cStr str

/-- The tool's first two questions and `consul_status_peers`. -/
structure PeersAgree (all : Called (Except PgError (List Peer))) (leader peers : Status) :
    Prop where
  requests : all.requests = leader.request :: if leader.exit = .EX_OK then [peers.request] else []
  exit : (∃ rows, all.result = .ok rows) ↔ leader.exit = .EX_OK ∧ peers.exit = .EX_OK
  lines : ∀ rows, all.result = .ok rows →
    peers.lines = rows.map fun row => ascii "JSON Peer: " ++ row.json
  leader : ∀ rows, all.result = .ok rows → ∀ row ∈ rows, row.leader = true →
    leader.lines = [ascii "Leader: " ++ row.str]

section Agreement
variable (debugFlag : Bool) (network : Network) (agent : Agent)

theorem leader_agrees :
    LeaderAgrees (v1StatusLeader network agent) (statusLeader debugFlag network agent) := by
  have hempty : (Peer.initFromText {} [] []).ok = false := by decide +kernel
  have h : Fetched _ _ _ _ (statusLeader debugFlag network agent) :=
    fetched network agent.statusLeaderUrl (printLeader debugFlag)
  rw [v1StatusLeader]
  generalize statusLeader debugFlag network agent = leader at h ⊢
  cases h with
  | threw response =>
    simp only [response]
    exact ⟨rfl, by simp, by simp⟩
  | refused response code =>
    simp only [response, if_pos code]
    exact ⟨rfl, by simp, by simp⟩
  | @unreadable text _ _ response unprinted =>
    simp only [response, printLeader_error unprinted]
    by_cases htext : text.length = 0
    · simp only [htext]
      exact ⟨rfl, by simp, by simp⟩
    · simp only [htext]
      exact ⟨rfl, by simp, by simp⟩
  | @read text printed response wrote =>
    obtain ⟨hok, hlines⟩ := printLeader_ok wrote
    have htext : text.length ≠ 0 := by
      intro h0
      rw [List.length_eq_zero_iff.mp h0, hempty] at hok
      cases hok
    simp only [response, hok, htext]
    refine ⟨rfl, by simp, ?_⟩
    intro s hs
    cases hs
    exact ⟨_, hlines.symm, rfl⟩

theorem peers_agree : PeersAgree (v1StatusPeers network agent) (statusLeader debugFlag network agent)
    (statusPeers network (statusLeader debugFlag network agent).agent) := by
  have h : Fetched _ _ _ _ (statusLeader debugFlag network agent) :=
    fetched network agent.statusLeaderUrl (printLeader debugFlag)
  have h' : ∀ agent', Fetched _ _ _ _ (statusPeers network agent') := fun agent' =>
    fetched network agent'.statusPeersUrl printPeers
  rw [v1StatusPeers]
  generalize statusLeader debugFlag network agent = leader at h ⊢
  cases h with
  | threw response =>
    simp only [response]
    exact ⟨rfl, by simp, by simp, by simp⟩
  | refused response code =>
    simp only [response, if_pos code]
    exact ⟨rfl, by simp, by simp, by simp⟩
  | @unreadable text _ _ response unprinted =>
    simp only [response, printLeader_error unprinted]
    exact ⟨rfl, by simp, by simp, by simp⟩
  | @read text printed response wrote =>
    obtain ⟨hok, hlines⟩ := printLeader_ok wrote
    have herr := (tells_peerText {} text).err_eq hok
    have hpeers := h' agent.statusLeaderUrl.2
    simp only [response, hok, herr]
    generalize statusPeers network agent.statusLeaderUrl.2 = peers at hpeers ⊢
    cases hpeers with
    | threw response' =>
      simp only [response']
      exact ⟨rfl, by simp, by simp, by simp⟩
    | refused response' code =>
      simp only [response', if_pos code]
      exact ⟨rfl, by simp, by simp, by simp⟩
    | @unreadable text' _ _ response' unprinted' =>
      simp only [response', printPeers_error unprinted']
      exact ⟨rfl, by simp, by simp, by simp⟩
    | @read text' printed' response' wrote' =>
      obtain ⟨hok', hlines'⟩ := printPeers_ok wrote'
      simp only [response', hok']
      refine ⟨rfl, by simp, ?_, ?_⟩
      · intro rows hrows
        cases hrows
        exact hlines'.symm.trans (json_markLeader _ _).symm
      · intro rows hrows row hrow hmarked
        cases hrows
        obtain ⟨hhost, hport⟩ := mem_markLeader (peers_plain hok') hrow hmarked
        refine hlines.symm.trans ?_
        rw [Peer.str, Peer.str, hhost, hport]

/-- **The tool and the functions agree**: on any answers they send the same requests and get to the
same leader and the same peers. -/
theorem status_tool_agrees :
    LeaderAgrees (v1StatusLeader network agent) (statusLeader debugFlag network agent) ∧
      PeersAgree (v1StatusPeers network agent) (statusLeader debugFlag network agent)
        (statusPeers network (statusLeader debugFlag network agent).agent) :=
  ⟨leader_agrees debugFlag network agent, peers_agree debugFlag network agent⟩

end Agreement

end PgConsul.Playground.ConsulStatus
