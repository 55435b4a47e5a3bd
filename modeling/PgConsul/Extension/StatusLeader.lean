import PgConsul.Consul.PeerGrammar
import PgConsul.Extension.Requests

/-! # The leader that consul_status_leader reports

The agent's answer is a JSON string. It is decoded into a peer and written again as host, `:` and
port, so what comes back is the string itself only when the decoder took it apart at face value.
-/
namespace PgConsul.Extension
set_option autoImplicit false
open Foundations Consul Cpr Json11

/-! ## The answer -/

/-- The body is a text of the string `s`: for the program's parser, or by the JSON grammar. -/
def StringBody (body s : Bytes) : Prop :=
  parseText (parseResponse body) = .ok (.string s) ∨ Nonempty (JsonString.Text body s)

/-- A newline behind a text of a string is behind the closing quote. -/
theorem parseText_response {body s : Bytes} (t : JsonString.Text body s) :
    parseText (parseResponse body) = .ok (.string s) := by
  unfold parseResponse
  split
  · next hlast =>
    obtain ⟨front, u, behind, rfl, hfront, hbehind, hspells⟩ := t
    have hquote : chr '"' ≠ chr '\n' := by decide
    have hne : behind ≠ [] := by
      rintro rfl
      rw [← List.cons_append, ← List.append_assoc, List.getLast?_concat, Option.some_inj] at hlast
      exact hquote hlast
    have hdrop : (front ++ chr '"' :: (u ++ chr '"' :: behind)).dropLast =
        front ++ chr '"' :: (u ++ chr '"' :: behind.dropLast) := by
      simp [List.dropLast_append_of_ne_nil, List.dropLast_cons_of_ne_nil, hne]
    rw [hdrop]
    exact parseText_text ⟨front, u, behind.dropLast, rfl, hfront,
      fun b hb => hbehind b (List.dropLast_subset behind hb), hspells⟩
  · exact parseText_text t

theorem StringBody.parse {body s : Bytes} (h : StringBody body s) :
    parseText (parseResponse body) = .ok (.string s) := by
  cases h with
  | inl hparse => exact hparse
  | inr htext => exact htext.elim parseText_response

theorem parseText_nil : parseText [] = .error (ascii "unexpected end of input") := rfl

/-- What a call makes of an answer with status 200. -/
theorem v1StatusLeader_answered {network : Network} {agent : Agent} {body s : Bytes}
    (hanswer : ∀ r ∈ (v1StatusLeader network agent).requests, network r = .answered 200 body)
    (hbody : StringBody body s) :
    let leader := ({} : Peer).initFromJson (.string s) []
    (v1StatusLeader network agent).result =
      if leader.ok then .ok (some (cStr leader.target.str))
      else .error ⟨.FDW_REPLY_HANDLE,
        ascii "Failed to load leader from JSON: " ++ cStr leader.err⟩ := by
  have hparse := hbody.parse
  have hne : (parseResponse body).length ≠ 0 := by
    intro h0
    rw [List.length_eq_zero_iff.mp h0, parseText_nil] at hparse
    cases hparse
  unfold v1StatusLeader at hanswer ⊢
  have hresponse := get_answered (hanswer _ (List.mem_singleton.mpr rfl))
  simp only [getFrom] at hresponse ⊢
  rw [hresponse]
  simp only [hne, Peer.initFromText_string hparse]
  cases hok : (({} : Peer).initFromJson (.string s) []).ok <;> simp

/-! ## What is reported -/

/-- A text of the form host, `:`, port. -/
def IsHostPort (t : Bytes) : Prop :=
  ∃ (host : Bytes) (port : ℕ), chr ':' ∉ host ∧ t = host ++ chr ':' :: decimal port

/-- For an answer with the string `s`: NULL for the empty string, the string itself when it is host
and port, and never another host and port. -/
structure ReportsLeader (s : Bytes) (result : Except PgError (Option Bytes)) : Prop where
  noLeader : s = [] → result = .ok none
  leader : ∀ (host : Bytes) (port : ℕ), host ≠ [] → chr ':' ∉ host → 0 ∉ host → port ≤ 65535 →
    s = host ++ chr ':' :: decimal port → result = .ok (some s)
  nothingElse : ∀ t, result = .ok (some t) → IsHostPort t → t = s

/-- One `:`, no sign and no leading zero. -/
def Canonical (t : PeerText) : Prop :=
  t.extraSeparators = 0 ∧ t.sign = .none ∧ t.digits = decimal (numeral t.digits)

/-- The string written for the peer a text decodes to. -/
theorem str_peerText (t : PeerText) (leader : Bool) :
    (t.peer leader).str =
      t.host ++ chr ':' :: decimal (t.sign.wrap 16 (numeral t.digits)) := by
  have hlt : t.sign.wrap 16 (numeral t.digits) < UInt16.size := by
    have hfits := t.fits
    cases t.sign with
    | none => exact hfits
    | plus => exact hfits
    | minus => exact Nat.mod_lt _ (by decide)
  rw [PeerText.peer, Peer.str, UInt16.toNat_ofNat_of_lt' hlt]

/-- Written again, a text comes out as it was exactly when it is canonical. -/
theorem str_eq_text_iff (t : PeerText) (leader : Bool) :
    (t.peer leader).str = t.text ↔ Canonical t := by
  constructor
  · intro h
    have hspelled : ((t.peer leader).spelling t.host_sep).text = t.text := h
    have ht := PeerText.text_inj hspelled
    have hdigits : decimal (t.peer leader).port.toNat = t.digits := congrArg PeerText.digits ht
    refine ⟨(congrArg PeerText.extraSeparators ht).symm, (congrArg PeerText.sign ht).symm, ?_⟩
    rw [← hdigits, numeral_decimal]
  · rintro ⟨hseparators, hsign, hdigits⟩
    have hport : decimal (numeral t.digits) = t.digits := hdigits.symm
    rw [str_peerText, PeerText.text, hseparators, hsign]
    simpa [Boost.Sign.wrap, Boost.Sign.text] using hport

theorem colon_mem_of_isHostPort {t : Bytes} (h : IsHostPort t) : chr ':' ∈ t := by
  obtain ⟨host, port, -, rfl⟩ := h
  simp

/-- The text returned for a peer: cut at a NUL in the host, and whole without one. -/
theorem cStr_str {t : PeerText} {leader : Bool} :
    (0 ∉ t.host → cStr (t.peer leader).str = (t.peer leader).str) ∧
      (0 ∈ t.host → ¬ IsHostPort (cStr (t.peer leader).str)) := by
  constructor
  · intro hnul
    have hdecimal := not_mem_decimal (b := 0) (by decide) (t.peer leader).port.toNat
    have hcolon : (0 : UInt8) ≠ chr ':' := by decide
    refine cStr_eq_self ?_
    rw [Peer.str, List.mem_append, List.mem_cons]
    rintro (h | h | h)
    · exact hnul h
    · exact hcolon h
    · exact hdecimal h
  · intro hnul h
    have hcolon := colon_mem_of_isHostPort h
    obtain ⟨u, v, hhost, hu⟩ := List.eq_append_cons_of_mem hnul
    have hcut : cStr (t.peer leader).str = u := by
      have hstr : (t.peer leader).str =
          u ++ (0 :: (v ++ chr ':' :: decimal (t.peer leader).port.toNat)) := by
        rw [Peer.str, PeerText.peer, hhost]
        simp
      rw [hstr, cStr_append hu]
      simp [cStr]
    rw [hcut] at hcolon
    exact t.host_sep (hhost ▸ List.mem_append_left _ hcolon)

/-- **The leader is reported right exactly for a string that is not empty and no spelling of a host
without NUL and a port but the canonical one.** -/
theorem reports_leader_iff (network : Network) (agent : Agent) {body s : Bytes}
    (hanswer : ∀ r ∈ (v1StatusLeader network agent).requests, network r = .answered 200 body)
    (hbody : StringBody body s) :
    ReportsLeader s (v1StatusLeader network agent).result ↔
      s ≠ [] ∧ ∀ t : PeerText, t.text = s → 0 ∉ t.host → Canonical t := by
  rw [v1StatusLeader_answered hanswer hbody]
  have hresult : ∀ t : PeerText, t.text = s →
      ({} : Peer).initFromJson (.string s) [] = ⟨true, t.peer false, []⟩ := by
    rintro t rfl
    exact Peer.initFromJson_peerText {} t []
  constructor
  · intro h
    have hne : s ≠ [] := by
      rintro rfl
      have hnone := h.noLeader rfl
      cases hnone
    refine ⟨hne, fun t ht hnul => ?_⟩
    have hsame : (t.peer false).str = t.text := by
      rw [hresult t ht] at h
      rw [ht]
      refine h.nothingElse _ ?_ ⟨t.host, _, t.host_sep, rfl⟩
      rw [if_pos rfl, cStr_str.1 hnul]
    exact (str_eq_text_iff t false).mp hsame
  · rintro ⟨hne, hcanonical⟩
    refine ⟨fun h => absurd h hne, ?_, ?_⟩
    · intro host port _ hsep hnul hport hs
      have hwhole : (UInt16.ofNat port).toNat = port :=
        UInt16.toNat_ofNat_of_lt' (Nat.lt_succ_of_le hport)
      have hspelled : (Peer.spelling ⟨host, UInt16.ofNat port, false⟩ hsep).text =
          host ++ chr ':' :: decimal (UInt16.ofNat port).toNat := rfl
      have htext : (Peer.spelling ⟨host, UInt16.ofNat port, false⟩ hsep).text = s := by
        rw [hspelled, hwhole, hs]
      have hcanonical' : Canonical (Peer.spelling ⟨host, UInt16.ofNat port, false⟩ hsep) :=
        hcanonical _ htext hnul
      rw [hresult _ htext, if_pos rfl, cStr_str.1 hnul, (str_eq_text_iff _ false).mpr hcanonical',
        htext]
    · intro t₀ ht₀ hform
      by_cases hok : (({} : Peer).initFromJson (.string s) []).ok = true
      · obtain ⟨t, ht⟩ := Peer.peerText_of_accepted hne hok
        rw [hresult t ht, if_pos rfl, Except.ok.injEq, Option.some_inj] at ht₀
        subst ht₀
        by_cases hnul : 0 ∈ t.host
        · exact absurd hform (cStr_str.2 hnul)
        · rw [cStr_str.1 hnul, (str_eq_text_iff t false).mpr (hcanonical t ht hnul), ht]
      · rw [if_neg hok] at ht₀
        cases ht₀

def answerLeader : Bytes := ascii " \"\\u0031.2:8300\"\n"

theorem reports_leader_escaped :
    ReportsLeader (ascii "1.2:8300")
      (v1StatusLeader (fun _ => .answered 200 answerLeader) {}).result := by
  refine (reports_leader_iff (fun _ => .answered 200 answerLeader) {} (fun _ _ => rfl)
    (.inl (by decide +kernel))).mpr ⟨by decide, fun t ht _ => ?_⟩
  have htext : PeerText.text ⟨ascii "1.2", 0, .none, ascii "8300", by decide, by decide +kernel,
      by decide⟩ = ascii "1.2:8300" := by decide
  rw [PeerText.text_inj (ht.trans htext.symm)]
  exact ⟨rfl, rfl, by decide +kernel⟩

/-- The answer `""` of an agent without a leader. -/
def answerNoLeader : Bytes := ascii "\"\""

theorem no_leader_reported :
    StringBody answerNoLeader [] ∧
      ¬ ReportsLeader [] (v1StatusLeader (fun _ => .answered 200 answerNoLeader) {}).result := by
  refine ⟨.inl (by decide +kernel), fun h => ?_⟩
  have hnone := h.noLeader rfl
  have htext : (v1StatusLeader (fun _ => .answered 200 answerNoLeader) {}).result =
      .ok (some (ascii ":0")) := by decide +kernel
  rw [htext] at hnone
  cases hnone

end PgConsul.Extension
