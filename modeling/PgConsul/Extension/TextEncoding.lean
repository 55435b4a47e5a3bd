import Mathlib.Data.List.InsertIdx
import Mathlib.Data.List.ReduceOption
import PgConsul.Consul.DecodedText
import PgConsul.Extension.ServerRefinement

/-! # The encoding of the texts a query gets

The extension hands the strings of an answer to the server without a look at their encoding. In a
UTF-8 database they have to be UTF-8. They are, in every column but `value`, over every run of a
server whose agents answer Unicode texts.
-/
namespace PgConsul.Extension
set_option autoImplicit false
open Foundations Consul Cpr Json11

/-! ## Answers and texts -/

/-- Every answer is a text in UTF-8 that escapes no lone surrogate. -/
def UnicodeAnswers (network : Network) : Prop :=
  ∀ r responseCode body, network r = .answered responseCode body → UnicodeText (parseResponse body)

/-- The network whose answers a call decodes. -/
def Event.decodes : Event → Option Network
  | .host _ | .port _ | .timeout _ | .showVariable _ _ | .ping0 _ | .ping2 _ _ _ => none
  | .kvGet network _ _ | .statusLeader network | .statusPeers network => some network

def Action.decodes : Action → Option Network
  | .session e => e.decodes
  | .kvGet _ _ call => some call.network
  | .statusPeers _ _ call => some call.network
  | .closeKvGet _ | .closeStatusPeers _ => none

/-- The columns of `consul_kv_get` but `value`. -/
def kvTexts {α : Type} (columns : List α) : List α := columns.eraseIdx PG_CONSUL_KV1_GET_COUMN_VALUE

/-- The texts that come out of an agent's answer, but the values of its pairs. -/
def Answer.texts : Answer → List Bytes
  | .pairs (.ok (some kvps)) => kvps.flatMap fun kvp => kvTexts (kvColumns kvp)
  | .leader (.ok text) => text.toList
  | .peers (.ok objs) => objs.flatMap peerColumns
  | _ => []

def ServerReply.texts : Action → ServerReply → List Bytes
  | _, .session reply => reply.answer.texts
  | .kvGet _ _ _, .srf _ (.row columns) => (kvTexts columns).reduceOption
  | _, .srf _ (.row columns) => columns.reduceOption
  | _, _ => []

theorem getFrom_unicode {network : Network} (h : UnicodeAnswers network) {url : Bytes × Agent}
    {content : Bytes} {response : Response}
    (hresponse : (getFrom network url content).2 = .ok response) : UnicodeText response.text := by
  rw [getFrom_result] at hresponse
  cases htransfer : network (getFrom network url content).1 with
  | threw what =>
    rw [htransfer] at hresponse
    cases hresponse
  | answered responseCode body =>
    rw [htransfer] at hresponse
    cases hresponse
    exact h _ _ _ htransfer

/-! ## Columns -/

theorem isUtf8_column {s : Bytes} (h : IsUtf8 s) : IsUtf8 (column s) := by
  have hnul : IsUtf8 (s ++ [0]) := (isUtf8_ascii_split (by decide) s []).mpr ⟨h, isUtf8_nil⟩
  exact hnul.takeWhile_ne (by decide)

theorem isUtf8_index (index : UInt64) : IsUtf8 (column (indexStr index)) := by
  rw [column_indexStr]
  exact isUtf8_decimal _

theorem kvTexts_utf8 {kvp : KVPair} (h : kvp.TextsUtf8) :
    ∀ text ∈ kvTexts (kvColumns kvp), IsUtf8 text := by
  have htexts : kvTexts (kvColumns kvp) =
      [column kvp.key, column (indexStr kvp.flags), column (indexStr kvp.createIndex),
        column (indexStr kvp.modifyIndex), column (indexStr kvp.lockIndex),
        column kvp.session] := rfl
  simp only [htexts, List.forall_mem_cons, isUtf8_index, isUtf8_column h.key,
    isUtf8_column h.session, true_and]
  exact List.forall_mem_nil _

theorem peerColumns_utf8 {peer : Peer} (h : IsUtf8 peer.host) :
    ∀ text ∈ peerColumns peer, IsUtf8 text := by
  have hport : IsUtf8 peer.portStr := by
    rw [Peer.portStr, Boost.lcastPutUnsigned_eq]
    exact isUtf8_decimal _
  have hleader : IsUtf8 (if peer.leader then ascii "t" else ascii "f") := by
    cases peer.leader <;> decide
  have hcolumns : peerColumns peer = [column peer.host, column peer.portStr,
      column (if peer.leader then ascii "t" else ascii "f")] := rfl
  simp only [hcolumns, List.forall_mem_cons, isUtf8_column h, isUtf8_column hport,
    isUtf8_column hleader, true_and]
  exact List.forall_mem_nil _

/-! ## Calls -/

theorem v1KvGet_utf8 {platform : Platform} {network : Network} (h : UnicodeAnswers network)
    {memory : ℕ → Indeterminate} {args : KvGetArgs} {agent : Agent} {kvps : List KVPair}
    (hresult : (v1KvGet platform network memory args agent).result = .ok (some kvps)) :
    ∀ kvp ∈ kvps, kvp.TextsUtf8 := by
  unfold v1KvGet at hresult
  cases hkey : args.key with
  | none =>
    rw [hkey] at hresult
    cases hresult
  | some keyp =>
    simp only [hkey] at hresult
    split at hresult
    · cases hresult
    · next response hresponse =>
      have htext := getFrom_unicode h hresponse
      split at hresult
      · cases hresult
      · split at hresult
        · cases hresult
        · next hok =>
          split at hresult
          · cases hresult
          · cases hresult
            exact initFromJsonPairs_utf8 htext (by simpa using hok)

theorem v1StatusLeader_utf8 {network : Network} (h : UnicodeAnswers network) {agent : Agent}
    {leader : Bytes} (hresult : (v1StatusLeader network agent).result = .ok (some leader)) :
    IsUtf8 leader := by
  unfold v1StatusLeader at hresult
  simp only at hresult
  split at hresult
  · cases hresult
  · next response hresponse =>
    have htext := getFrom_unicode h hresponse
    split at hresult
    · cases hresult
    · split at hresult
      · cases hresult
      · split at hresult
        · cases hresult
        · next hok =>
          cases hresult
          have hhost := (Peer.initFromText_utf8 htext (by simpa using hok)).1
          exact (Peer.str_utf8 hhost).takeWhile_ne (by decide)

theorem markLeader_host {leader : Peer} {peers : List Peer} (h : ∀ p ∈ peers, IsUtf8 p.host) :
    ∀ p ∈ markLeader leader peers, IsUtf8 p.host := by
  induction peers with
  | nil => exact h
  | cons peer peers ih =>
    obtain ⟨hpeer, hpeers⟩ := List.forall_mem_cons.mp h
    rw [markLeader]
    split
    · exact List.forall_mem_cons.mpr ⟨hpeer, hpeers⟩
    · exact List.forall_mem_cons.mpr ⟨hpeer, ih hpeers⟩

theorem v1StatusPeers_utf8 {network : Network} (h : UnicodeAnswers network) {agent : Agent}
    {peers : List Peer} (hresult : (v1StatusPeers network agent).result = .ok peers) :
    ∀ p ∈ peers, IsUtf8 p.host := by
  unfold v1StatusPeers at hresult
  simp only at hresult
  split at hresult
  · cases hresult
  · next response hresponse =>
    have hleader := getFrom_unicode h hresponse
    split at hresult
    · cases hresult
    · split at hresult
      · cases hresult
      · next hok =>
        have herr := (Peer.initFromText_utf8 hleader (by simpa using hok)).2
        simp only [herr] at hresult
        split at hresult
        · cases hresult
        · next response' hresponse' =>
          have htext := getFrom_unicode h hresponse'
          split at hresult
          · cases hresult
          · split at hresult
            · cases hresult
            · next hpeers =>
              cases hresult
              exact markLeader_host (initFromJsonPeers_utf8 htext (by simpa using hpeers))

/-! ## Sites -/

/-- Everything a site owes has the property. -/
def AllOwed {α : Type} (P : α → Prop) (owed : Option (List α)) : Prop :=
  ∀ objs ∈ owed, ∀ x ∈ objs, P x

section Sites
variable {ι α : Type} {P : α → Prop} {columns : α → List Bytes}

/-- A visit leaves such rows behind, and a row it returns is that of such an element. -/
structure VisitKeeps (P : α → Prop) (columns : α → List Bytes) (v : Visit (Option (List α))) :
    Prop where
  owed : AllOwed P v.state
  row : ∀ cells, v.told = .row cells → ∃ x, P x ∧ cells = (columns x).map some

theorem allOwed_none : AllOwed P none := by
  intro objs hobjs
  cases hobjs

theorem allOwed_some {objs : List α} (h : ∀ x ∈ objs, P x) : AllOwed P (some objs) := by
  intro objs' hobjs
  cases hobjs
  exact h

theorem emit_keeps (f : SetReturning ι α) {objs : List α} (h : ∀ x ∈ objs, P x)
    (requests : List Request) :
    VisitKeeps P columns ⟨(f.emit columns objs).1, requests, (f.emit columns objs).2⟩ := by
  cases objs with
  | nil =>
    refine ⟨allOwed_none, fun cells htold => ?_⟩
    cases htold
  | cons x xs =>
    obtain ⟨hx, hxs⟩ := List.forall_mem_cons.mp h
    rw [SetReturning.emit]
    cases f.build ((columns x).map some) with
    | some e =>
      refine ⟨allOwed_none, fun cells htold => ?_⟩
      cases htold
    | none =>
      refine ⟨allOwed_some hxs, fun cells htold => ?_⟩
      cases htold
      exact ⟨x, hx, rfl⟩

theorem SetReturning.plainVisit_keeps {f : SetReturning ι α} {agent : Agent} {i : ι}
    (hload : ∀ objs, (f.load i agent).result = .ok (some objs) → ∀ x ∈ objs, P x)
    {owed : Option (List α)} (h : AllOwed P owed) :
    VisitKeeps P columns (f.plainVisit columns agent i owed) := by
  cases owed with
  | some objs => exact emit_keeps f (h objs rfl) []
  | none =>
    rw [plainVisit]
    cases f.composite i with
    | false =>
      refine ⟨allOwed_none, fun cells htold => ?_⟩
      cases htold
    | true =>
      simp only [Bool.not_true, Bool.false_eq_true, if_false]
      cases hresult : (f.load i agent).result with
      | error e =>
        refine ⟨allOwed_none, fun cells htold => ?_⟩
        cases htold
      | ok loaded =>
        cases loaded with
        | none =>
          refine ⟨allOwed_some (List.forall_mem_nil _), fun cells htold => ?_⟩
          cases htold
        | some objs =>
          exact emit_keeps f (fun x hx => hload objs hresult x (List.mem_of_mem_take hx)) _

theorem allOwed_update {sites : Site → Option (List α)} (h : ∀ site, AllOwed P (sites site))
    (site : Site) {owed : Option (List α)} (howed : AllOwed P owed) (site' : Site) :
    AllOwed P (Function.update sites site owed site') := by
  by_cases heq : site' = site
  · rw [heq, Function.update_self]
    exact howed
  · rw [Function.update_of_ne heq]
    exact h site'

end Sites

/-! ## Servers -/

theorem reduceOption_map_some (texts : List Bytes) : (texts.map some).reduceOption = texts := by
  simp [List.reduceOption]

/-- Every row a site still owes has its texts in UTF-8. -/
structure OwesUtf8 (p : PlainServer) : Prop where
  kvGets : ∀ site, AllOwed KVPair.TextsUtf8 (p.kvGets site)
  statusPeers : ∀ site, AllOwed (fun peer : Peer => IsUtf8 peer.host) (p.statusPeers site)

theorem session_texts_utf8 {platform : Platform} {s : PlainSession} {e : Event}
    (h : ∀ network ∈ e.decodes, UnicodeAnswers network) :
    ∀ text ∈ (s.step platform e).2.answer.texts, IsUtf8 text := by
  cases e with
  | host | port | timeout | showVariable | ping0 => exact List.forall_mem_nil _
  | ping2 network host port =>
    rw [PlainSession.step]
    cases v1AgentPing2 network host port with
    | none | some => exact List.forall_mem_nil _
  | kvGet network memory args =>
    have hanswers := h network rfl
    rw [PlainSession.step, answered]
    cases hresult : (v1KvGet platform network memory args s.agent).result with
    | error => exact List.forall_mem_nil _
    | ok loaded =>
      cases loaded with
      | none => exact List.forall_mem_nil _
      | some kvps =>
        intro text htext
        obtain ⟨kvp, hkvp, htext⟩ := List.mem_flatMap.mp htext
        exact kvTexts_utf8 (v1KvGet_utf8 hanswers hresult kvp hkvp) text htext
  | statusLeader network =>
    have hanswers := h network rfl
    rw [PlainSession.step, answered]
    cases hresult : (v1StatusLeader network s.agent).result with
    | error => exact List.forall_mem_nil _
    | ok leader =>
      cases leader with
      | none => exact List.forall_mem_nil _
      | some leader => exact List.forall_mem_singleton.mpr (v1StatusLeader_utf8 hanswers hresult)
  | statusPeers network =>
    have hanswers := h network rfl
    rw [PlainSession.step, answered]
    cases hresult : (v1StatusPeers network s.agent).result with
    | error => exact List.forall_mem_nil _
    | ok peers =>
      intro text htext
      obtain ⟨peer, hpeer, htext⟩ := List.mem_flatMap.mp htext
      exact peerColumns_utf8 (v1StatusPeers_utf8 hanswers hresult peer hpeer) text htext

theorem OwesUtf8.step {platform : Platform} {inputs : InputFunctions} {p : PlainServer} (h : OwesUtf8 p) {a : Action}
    (hanswers : ∀ network ∈ a.decodes, UnicodeAnswers network) :
    OwesUtf8 (p.step platform inputs a).1 ∧
      ∀ text ∈ (p.step platform inputs a).2.texts a, IsUtf8 text := by
  cases a with
  | session e => exact ⟨⟨h.kvGets, h.statusPeers⟩, session_texts_utf8 hanswers⟩
  | kvGet site context call =>
    have hload : ∀ objs, ((kvGet platform inputs).load call p.session.agent).result = .ok (some objs) →
        ∀ kvp ∈ objs, kvp.TextsUtf8 := fun _ hobjs => v1KvGet_utf8 (hanswers call.network rfl) hobjs
    have hvisit : VisitKeeps KVPair.TextsUtf8 kvColumns _ :=
      SetReturning.plainVisit_keeps hload (h.kvGets site)
    refine ⟨⟨allOwed_update h.kvGets site hvisit.owed, h.statusPeers⟩, fun text htext => ?_⟩
    rw [PlainServer.step] at htext
    cases htold : ((kvGet platform inputs).plainVisit kvColumns p.session.agent call
      (p.kvGets site)).told with
    | row cells =>
      obtain ⟨kvp, hkvp, rfl⟩ := hvisit.row cells htold
      rw [htold] at htext
      have hmem : text ∈ (kvTexts ((kvColumns kvp).map some)).reduceOption := htext
      rw [kvTexts, List.eraseIdx_map, reduceOption_map_some] at hmem
      exact kvTexts_utf8 hkvp text hmem
    | done | null | unsupported | error | undefined =>
      rw [htold] at htext
      cases htext
  | statusPeers site context call =>
    have hload : ∀ objs, ((Extension.statusPeers inputs).load call p.session.agent).result = .ok (some objs) →
        ∀ peer ∈ objs, IsUtf8 peer.host := by
      intro objs hobjs
      have hmap : (v1StatusPeers call.network p.session.agent).result.map some =
          .ok (some objs) := hobjs
      cases hresult : (v1StatusPeers call.network p.session.agent).result with
      | error e =>
        rw [hresult] at hmap
        cases hmap
      | ok peers =>
        rw [hresult] at hmap
        cases hmap
        exact v1StatusPeers_utf8 (hanswers call.network rfl) hresult
    have hvisit : VisitKeeps (fun peer : Peer => IsUtf8 peer.host) peerColumns _ :=
      SetReturning.plainVisit_keeps hload (h.statusPeers site)
    refine ⟨⟨h.kvGets, allOwed_update h.statusPeers site hvisit.owed⟩, fun text htext => ?_⟩
    rw [PlainServer.step] at htext
    cases htold : ((Extension.statusPeers inputs).plainVisit peerColumns p.session.agent call
      (p.statusPeers site)).told with
    | row cells =>
      obtain ⟨peer, hpeer, rfl⟩ := hvisit.row cells htold
      rw [htold] at htext
      have hmem : text ∈ ((peerColumns peer).map some).reduceOption := htext
      rw [reduceOption_map_some] at hmem
      exact peerColumns_utf8 hpeer text hmem
    | done | null | unsupported | error | undefined =>
      rw [htold] at htext
      cases htext
  | closeKvGet site =>
    exact ⟨⟨allOwed_update h.kvGets site allOwed_none, h.statusPeers⟩, List.forall_mem_nil _⟩
  | closeStatusPeers site =>
    exact ⟨⟨h.kvGets, allOwed_update h.statusPeers site allOwed_none⟩, List.forall_mem_nil _⟩

/-- Every text a query gets out of an answer in the run is UTF-8. -/
def TextsUtf8 (platform : Platform) (inputs : InputFunctions) (actions : List Action) : Prop :=
  ∀ q ∈ (server platform inputs).trace serverInit actions,
    ∀ text ∈ (q.1.step platform inputs q.2).2.texts q.2, IsUtf8 text

/-- **Over every run of a server whose agents answer Unicode texts, every text a query gets out of an
answer is UTF-8**, but the values, which are decoded from base64. -/
theorem server_texts_utf8 (platform : Platform) (inputs : InputFunctions) {actions : List Action}
    (hanswers : ∀ a ∈ actions, ∀ network ∈ a.decodes, UnicodeAnswers network) :
    TextsUtf8 platform inputs actions := by
  have hstep : ∀ (s : Server) (a : Action), (∀ network ∈ a.decodes, UnicodeAnswers network) →
      (∃ p, ServerMirrors s p ∧ OwesUtf8 p) →
        ∃ p, ServerMirrors (s.step platform inputs a).1 p ∧ OwesUtf8 p := by
    rintro s a ha ⟨p, hmirrors, howes⟩
    exact ⟨_, (hmirrors.step platform inputs a).1, (howes.step ha).1⟩
  have hidle : OwesUtf8 plainInit := ⟨fun _ => allOwed_none, fun _ => allOwed_none⟩
  intro q hq
  obtain ⟨⟨p, hmirrors, howes⟩, ha⟩ :=
    (server platform inputs).trace_invariant_on hstep ⟨_, serverInit_mirrors, hidle⟩ hanswers q hq
  rw [(hmirrors.step platform inputs q.2).2]
  exact (howes.step ha).2

/-- An escaped pair of surrogates, and a value of two bytes that are not UTF-8. -/
def answerPair : Bytes := ascii "[\x7b\"Key\": \"\\ud83d\\ude00\", \"Value\": \"//8=\"\x7d]"

/-- Two calls of `consul_kv_get` and one of `consul_status_leader` between them. -/
def pairActions : List Action :=
  [.kvGet 0 1 ⟨invocation fun _ => .answered 200 answerPair, recurseA, fun _ => zeros⟩,
    .session (.statusLeader fun _ => .answered 200 (ascii "\"a:1\"\n")),
    .kvGet 0 1 ⟨invocation fun _ => .threw [], recurseA, fun _ => zeros⟩]

theorem server_texts_utf8_pair : TextsUtf8 .amd64 inputFunctions pairActions := by
  refine server_texts_utf8 .amd64 inputFunctions ?_
  have hpair : UnicodeText (parseResponse answerPair) := ⟨by decide +kernel, by decide +kernel⟩
  have hleader : UnicodeText (parseResponse (ascii "\"a:1\"\n")) :=
    ⟨by decide +kernel, by decide +kernel⟩
  rintro a (_ | ⟨_, _ | ⟨_, _ | ⟨_, ⟨⟩⟩⟩⟩) network ⟨⟩ r responseCode body hbody
  · cases hbody
    exact hpair
  · cases hbody
    exact hleader
  · cases hbody

/-- A lone surrogate goes through to the query. -/
example :
    let leader : Bytes := [0xED, 0xA0, 0x80, chr ':', chr '1']
    (v1StatusLeader (fun _ => .answered 200 (ascii "\"\\ud800:1\"")) {}).result.toOption =
        some (some leader) ∧ ¬ IsUtf8 leader := by decide +kernel

end PgConsul.Extension
