import Mathlib.Data.List.TakeWhile
import PgConsul.Consul.Peer
import PgConsul.Json11.StringRoundTrip

/-! # The strings a peer is decoded from

`Peer::InitFromJson` splits at runs of `:` and converts the second token with its sign and its
leading zeros. `PeerText` spells out what it accepts; `HostPort` is a host, one `:` and digits.
-/
namespace PgConsul.Consul
set_option autoImplicit false
open Foundations Json11 Boost

/-! ## Splitting in two -/

theorem dropWhile_ne_nil {c : UInt8} {s : Bytes} (h : c ∉ s) : s.dropWhile (· ≠ c) = [] := by
  rw [List.dropWhile_eq_nil_iff]
  exact forall_ne_of_not_mem h

theorem splitTokens_of_not_mem {sep : UInt8} {s : Bytes} (h : sep ∉ s) (fuel : ℕ) :
    splitTokens sep fuel s = [s] := by
  cases fuel with
  | zero => rfl
  | succ fuel => rw [splitTokens, dropWhile_ne_nil h]

/-- A string is cut at its first separator. -/
theorem cut_sep {sep : UInt8} {u : Bytes} (hu : sep ∉ u) (rest : Bytes) :
    (u ++ sep :: rest).takeWhile (· ≠ sep) = u ∧
      (u ++ sep :: rest).dropWhile (· ≠ sep) = sep :: rest := by
  have hpos := forall_ne_of_not_mem hu
  rw [List.takeWhile_append_of_pos hpos, List.dropWhile_append_of_pos hpos]
  simp

theorem first_sep_inj {sep : UInt8} {u v rest rest' : Bytes} (hu : sep ∉ u) (hv : sep ∉ v)
    (h : u ++ sep :: rest = v ++ sep :: rest') : u = v ∧ rest = rest' := by
  have htake := congrArg (List.takeWhile (· ≠ sep)) h
  have hdrop := congrArg (List.dropWhile (· ≠ sep)) h
  rw [(cut_sep hu rest).1, (cut_sep hv rest').1] at htake
  rw [(cut_sep hu rest).2, (cut_sep hv rest').2, List.cons.injEq] at hdrop
  exact ⟨htake, hdrop.2⟩

theorem splitTokens_sep {sep : UInt8} {u : Bytes} (hu : sep ∉ u) (rest : Bytes) (fuel : ℕ) :
    splitTokens sep (fuel + 1) (u ++ sep :: rest) =
      u :: splitTokens sep fuel (rest.dropWhile (· = sep)) := by
  obtain ⟨htake, hdrop⟩ := cut_sep hu rest
  rw [splitTokens, hdrop, htake]
  simp

theorem splitTokens_ne_nil (sep : UInt8) (fuel : ℕ) (s : Bytes) : splitTokens sep fuel s ≠ [] := by
  cases fuel with
  | zero => exact List.cons_ne_nil _ _
  | succ fuel =>
    rw [splitTokens]
    split <;> exact List.cons_ne_nil _ _

/-- A string with a separator, cut at the first one. -/
theorem exists_first_sep {sep : UInt8} {s : Bytes} (h : sep ∈ s) :
    ∃ u rest, sep ∉ u ∧ s = u ++ sep :: rest := by
  obtain ⟨u, rest, rfl, hu⟩ := List.eq_append_cons_of_mem h
  exact ⟨u, rest, hu, rfl⟩

theorem splitTokens_single {sep : UInt8} {fuel : ℕ} {s b : Bytes} (hfuel : s.length ≤ fuel)
    (h : splitTokens sep fuel s = [b]) : s = b ∧ sep ∉ b := by
  by_cases hmem : sep ∈ s
  · obtain ⟨u, rest, hu, rfl⟩ := exists_first_sep hmem
    cases fuel with
    | zero => simp at hfuel
    | succ fuel =>
      rw [splitTokens_sep hu, List.cons.injEq] at h
      exact absurd h.2 (splitTokens_ne_nil sep fuel _)
  · rw [splitTokens_of_not_mem hmem, List.cons.injEq] at h
    exact ⟨h.1, h.1 ▸ hmem⟩

theorem dropWhile_replicate {sep : UInt8} {s : Bytes} (h : sep ∉ s) (k : ℕ) :
    (List.replicate k sep ++ s).dropWhile (· = sep) = s := by
  induction k with
  | zero =>
    cases s with
    | nil => rfl
    | cons b s =>
      have hb : b ≠ sep := fun hb => h (hb ▸ List.mem_cons_self)
      simp [hb]
  | succ k ih => simpa [List.replicate_succ] using ih

theorem replicate_dropWhile (sep : UInt8) (s : Bytes) :
    ∃ k, s = List.replicate k sep ++ s.dropWhile (· = sep) := by
  induction s with
  | nil => exact ⟨0, rfl⟩
  | cons b s ih =>
    by_cases hb : b = sep
    · obtain ⟨k, hk⟩ := ih
      refine ⟨k + 1, ?_⟩
      rw [List.replicate_succ, List.cons_append, List.dropWhile_cons_of_pos (by simpa using hb),
        ← hk, hb]
    · exact ⟨0, by simp [hb]⟩

/-- **Two tokens: one run of separators between two strings without any.** -/
theorem split_eq_pair {sep : UInt8} {s a b : Bytes} :
    split sep s = [a, b] ↔
      ∃ k, s = a ++ sep :: (List.replicate k sep ++ b) ∧ sep ∉ a ∧ sep ∉ b := by
  unfold split
  constructor
  · intro h
    by_cases hmem : sep ∈ s
    · obtain ⟨u, rest, hu, rfl⟩ := exists_first_sep hmem
      obtain ⟨k, hk⟩ := replicate_dropWhile sep rest
      have hlen : (u ++ sep :: rest).length = (u.length + rest.length) + 1 := by
        simp only [List.length_append, List.length_cons]
        omega
      have hle : (rest.dropWhile (· = sep)).length ≤ u.length + rest.length := by
        have hdrop := (List.dropWhile_suffix (p := (· = sep)) (l := rest)).length_le
        omega
      rw [hlen, splitTokens_sep hu, List.cons.injEq] at h
      obtain ⟨hrest, hb⟩ := splitTokens_single hle h.2
      rw [hrest] at hk
      exact ⟨k, by rw [← h.1, ← hk], h.1 ▸ hu, hb⟩
    · rw [splitTokens_of_not_mem hmem] at h
      simp at h
  · rintro ⟨k, rfl, ha, hb⟩
    have hlen : (a ++ sep :: (List.replicate k sep ++ b)).length =
        (a.length + k + b.length) + 1 := by
      simp only [List.length_append, List.length_cons, List.length_replicate]
      omega
    rw [hlen, splitTokens_sep ha, dropWhile_replicate hb, splitTokens_of_not_mem hb]

/-! ## The accepted strings -/

/-- A spelling of a peer: a host, a run of separators, a sign and digits whose number fits. -/
structure PeerText where
  host : Bytes
  extraSeparators : ℕ
  sign : Sign
  digits : Bytes
  host_sep : chr ':' ∉ host
  isNumeral : IsNumeral digits
  fits : numeral digits < 2 ^ 16

namespace PeerText

def text (t : PeerText) : Bytes :=
  t.host ++ chr ':' :: (List.replicate t.extraSeparators (chr ':') ++ (t.sign.text ++ t.digits))

def peer (t : PeerText) (leader : Bool) : Peer :=
  ⟨t.host, UInt16.ofNat (t.sign.wrap 16 (numeral t.digits)), leader⟩

/-- The number the digits and the sign denote. -/
def number (t : PeerText) : ℤ :=
  match t.sign with
  | .minus => -(numeral t.digits : ℤ)
  | _ => numeral t.digits

theorem portText_sep (t : PeerText) : chr ':' ∉ t.sign.text ++ t.digits := by
  have hsign : chr ':' ∉ t.sign.text := by cases t.sign <;> decide
  have hdigits : chr ':' ∉ t.digits := fun h => absurd (t.isNumeral.2 _ h) (by decide)
  simp [hsign, hdigits]

theorem text_ne_nil (t : PeerText) : t.text ≠ [] := by simp [text]

end PeerText

namespace Peer

theorem initFromJson_peerText (peer : Peer) (t : PeerText) (err : Bytes) :
    peer.initFromJson (.string t.text) err = ⟨true, t.peer peer.leader, err⟩ := by
  have hlen : t.text.length ≠ 0 := by simpa using t.text_ne_nil
  have hsplit : split (chr ':') t.text = [t.host, t.sign.text ++ t.digits] :=
    split_eq_pair.mpr ⟨t.extraSeparators, rfl, t.host_sep, t.portText_sep⟩
  have hcast : shrUnsigned 16 (t.sign.text ++ t.digits) =
      some (t.sign.wrap 16 (numeral t.digits)) :=
    (shrUnsigned_eq_some (by norm_num)).mpr ⟨t.sign, t.digits, rfl, t.isNumeral, t.fits, rfl⟩
  simp [initFromJson, Json.isString, Json.type, Json.stringValue, hlen, hsplit, setHost,
    setPortStr, lexicalCastPort, hcast, PeerText.peer]

theorem peerText_of_accepted {peer : Peer} {s err : Bytes} (hs : s ≠ [])
    (h : (peer.initFromJson (.string s) err).ok = true) : ∃ t : PeerText, t.text = s := by
  unfold initFromJson at h
  simp only [Json.isString, Json.type, decide_true, Bool.not_true, Bool.false_eq_true, if_false,
    Json.stringValue, List.length_eq_zero_iff, hs, setHost] at h
  split at h
  · next host port hsplit =>
    obtain ⟨k, rfl, hhost, -⟩ := split_eq_pair.mp hsplit
    cases hcast : shrUnsigned 16 port with
    | none => simp [setPortStr, lexicalCastPort, hcast] at h
    | some n =>
      obtain ⟨sign, digits, rfl, hnum, hfits, -⟩ := (shrUnsigned_eq_some (by norm_num)).mp hcast
      exact ⟨⟨host, k, sign, digits, hhost, hnum, hfits⟩, rfl⟩
  · exact Bool.noConfusion h

/-- **A non-empty string is accepted exactly when it spells a peer.** -/
theorem initFromJson_ok_iff {s : Bytes} (hs : s ≠ []) (peer : Peer) (err : Bytes) :
    (peer.initFromJson (.string s) err).ok = true ↔ ∃ t : PeerText, t.text = s := by
  constructor
  · exact peerText_of_accepted hs
  · rintro ⟨t, rfl⟩
    rw [initFromJson_peerText]

end Peer

/-! ## Host, separator, port -/

/-- A non-empty host without `:`, one `:`, and digits denoting a number below `2 ^ 16`. -/
structure HostPort (s host digits : Bytes) : Prop where
  text : s = host ++ chr ':' :: digits
  host_ne_nil : host ≠ []
  host_sep : chr ':' ∉ host
  isNumeral : IsNumeral digits
  fits : numeral digits ≤ 65535

/-- A spelling with an empty host, with several separators or with a sign. -/
def PeerText.Loose (t : PeerText) : Prop :=
  t.host = [] ∨ t.extraSeparators ≠ 0 ∨ t.sign ≠ .none

instance (t : PeerText) : Decidable t.Loose := by unfold PeerText.Loose; infer_instance

def HostPort.peerText {s host digits : Bytes} (h : HostPort s host digits) : PeerText :=
  ⟨host, 0, .none, digits, h.host_sep, h.isNumeral, by have := h.fits; omega⟩

theorem HostPort.peerText_text {s host digits : Bytes} (h : HostPort s host digits) :
    h.peerText.text = s := h.text.symm

theorem HostPort.not_loose {s host digits : Bytes} (h : HostPort s host digits) :
    ¬ h.peerText.Loose := by
  rintro (hhost | hseparators | hsign)
  · exact h.host_ne_nil hhost
  · exact hseparators rfl
  · exact hsign rfl

theorem replicate_append_inj {c : UInt8} {u v : Bytes} (hu : c ∉ u) (hv : c ∉ v) {j k : ℕ}
    (h : List.replicate j c ++ u = List.replicate k c ++ v) : j = k ∧ u = v := by
  have hrest := congrArg (List.dropWhile (· = c)) h
  rw [dropWhile_replicate hu, dropWhile_replicate hv] at hrest
  have hlen := congrArg List.length h
  simp only [List.length_append, List.length_replicate, hrest] at hlen
  exact ⟨by omega, hrest⟩

theorem sign_append_inj {sign sign' : Sign} {digits digits' : Bytes} (h : IsNumeral digits)
    (h' : IsNumeral digits') (heq : sign.text ++ digits = sign'.text ++ digits') :
    sign = sign' ∧ digits = digits' := by
  have hplus : chr '+' ≠ chr '-' := by decide
  cases sign <;> cases sign' <;>
    simp only [Sign.text, List.nil_append, List.cons_append, List.cons.injEq] at heq
  case none.none | plus.plus | minus.minus => simp_all
  case plus.minus => exact absurd heq.1 hplus
  case minus.plus => exact absurd heq.1.symm hplus
  case none.plus => exact absurd rfl (isNumeral_head (heq ▸ h)).1
  case none.minus => exact absurd rfl (isNumeral_head (heq ▸ h)).2
  case plus.none => exact absurd rfl (isNumeral_head (heq ▸ h')).1
  case minus.none => exact absurd rfl (isNumeral_head (heq ▸ h')).2

/-- A string spells at most one peer. -/
theorem PeerText.text_inj {t t' : PeerText} (h : t.text = t'.text) : t = t' := by
  obtain ⟨host, k, sign, digits, hsep, hnum, hfits⟩ := t
  obtain ⟨host', k', sign', digits', hsep', hnum', hfits'⟩ := t'
  simp only [text] at h
  obtain ⟨rfl, hrest⟩ := first_sep_inj hsep hsep' h
  have hport := (PeerText.mk host k sign digits hsep hnum hfits).portText_sep
  have hport' := (PeerText.mk host k' sign' digits' hsep' hnum' hfits').portText_sep
  obtain ⟨rfl, hsigned⟩ := replicate_append_inj hport hport' hrest
  obtain ⟨rfl, rfl⟩ := sign_append_inj hnum hnum' hsigned
  rfl

theorem hostPort_iff {s : Bytes} :
    (∃ host digits, HostPort s host digits) ↔ ∃ t : PeerText, t.text = s ∧ ¬ t.Loose := by
  constructor
  · rintro ⟨host, digits, h⟩
    exact ⟨h.peerText, h.peerText_text, h.not_loose⟩
  · rintro ⟨t, rfl, hstrict⟩
    simp only [PeerText.Loose, not_or, not_not] at hstrict
    obtain ⟨hhost, hseparators, hsign⟩ := hstrict
    have hfits := t.fits
    exact ⟨t.host, t.digits, by simp [PeerText.text, hseparators, hsign, Sign.text], hhost,
      t.host_sep, t.isNumeral, by omega⟩

theorem Peer.equal_iff (a b : Peer) : a.equal b = true ↔ a.host = b.host ∧ a.port = b.port := by
  rw [Peer.equal, Bool.and_eq_true, decide_eq_true_eq, decide_eq_true_eq]

theorem PeerText.equal_strict {t t' : PeerText} (h : ¬ t.Loose) (h' : ¬ t'.Loose)
    {leader leader' : Bool} (heq : (t.peer leader).equal (t'.peer leader') = true) :
    t.host = t'.host ∧ t.extraSeparators = t'.extraSeparators ∧ t.number = t'.number := by
  simp only [Loose, not_or, not_not] at h h'
  obtain ⟨-, hseparators, hsign⟩ := h
  obtain ⟨-, hseparators', hsign'⟩ := h'
  simp only [Peer.equal_iff, peer, hsign, hsign', Sign.wrap] at heq
  have hport := congrArg UInt16.toNat heq.2
  rw [UInt16.toNat_ofNat_of_lt' t.fits, UInt16.toNat_ofNat_of_lt' t'.fits] at hport
  exact ⟨heq.1, hseparators.trans hseparators'.symm, by simp [number, hsign, hsign', hport]⟩

/-! ## Where the decoder keeps to the grammar -/

/-- On the strings of `S` the decoder accepts host, `:` and port only, reads both right, and tells
apart two strings that differ in host, separators or number. -/
structure MeetsGrammar (S : Set Bytes) : Prop where
  accepts : ∀ s ∈ S, s ≠ [] → ∀ (peer : Peer) (err : Bytes),
    (peer.initFromJson (.string s) err).ok = true ↔ ∃ host digits, HostPort s host digits
  reads : ∀ s ∈ S, ∀ (peer : Peer) (err host digits : Bytes), HostPort s host digits →
    (peer.initFromJson (.string s) err).target.host = host ∧
      (peer.initFromJson (.string s) err).target.port.toNat = numeral digits
  distinguishes : ∀ t t' : PeerText, t.text ∈ S → t'.text ∈ S →
    t.host ≠ t'.host ∨ t.extraSeparators ≠ t'.extraSeparators ∨ t.number ≠ t'.number →
      ∀ (peer peer' : Peer) (err err' : Bytes),
        (peer.initFromJson (.string t.text) err).target.equal
          (peer'.initFromJson (.string t'.text) err').target = false

theorem HostPort.reads {s host digits : Bytes} (h : HostPort s host digits) (peer : Peer)
    (err : Bytes) :
    (peer.initFromJson (.string s) err).target.host = host ∧
      (peer.initFromJson (.string s) err).target.port.toNat = numeral digits := by
  have hdecoded := Peer.initFromJson_peerText peer h.peerText err
  rw [h.peerText_text] at hdecoded
  rw [hdecoded]
  exact ⟨rfl, UInt16.toNat_ofNat_of_lt' (Nat.lt_succ_of_le h.fits)⟩

/-- **The decoder keeps to the grammar exactly on the strings that are no loose spelling.** -/
theorem meetsGrammar_iff (S : Set Bytes) :
    MeetsGrammar S ↔ ∀ t : PeerText, t.text ∈ S → ¬ t.Loose := by
  constructor
  · intro h t ht hloose
    have haccepted := (Peer.initFromJson_ok_iff t.text_ne_nil {} []).mpr ⟨t, rfl⟩
    obtain ⟨t', htext, hstrict⟩ :=
      hostPort_iff.mp ((h.accepts t.text ht t.text_ne_nil {} []).mp haccepted)
    rw [PeerText.text_inj htext] at hstrict
    exact hstrict hloose
  · intro h
    refine ⟨?_, fun s _ peer err host digits hgrammar => hgrammar.reads peer err, ?_⟩
    · intro s hs hne peer err
      rw [Peer.initFromJson_ok_iff hne, hostPort_iff]
      constructor
      · rintro ⟨t, rfl⟩
        exact ⟨t, rfl, h t hs⟩
      · rintro ⟨t, rfl, -⟩
        exact ⟨t, rfl⟩
    · intro t t' ht ht' hdiffer peer peer' err err'
      rw [Peer.initFromJson_peerText, Peer.initFromJson_peerText, ← Bool.not_eq_true]
      intro heq
      obtain ⟨hhost, hseparators, hnumber⟩ := PeerText.equal_strict (h t ht) (h t' ht') heq
      rcases hdiffer with hdiffer | hdiffer | hdiffer
      · exact hdiffer hhost
      · exact hdiffer hseparators
      · exact hdiffer hnumber

def loosePeer : Bytes := ascii "h::80"

theorem loosePeer_outside_grammar : ¬ MeetsGrammar {loosePeer} := by
  intro h
  have haccepted : ((({} : Peer).initFromJson (.string loosePeer) []).ok = true) := by
    decide +kernel
  obtain ⟨host, digits, hgrammar⟩ :=
    (h.accepts loosePeer rfl (by decide) {} []).mp haccepted
  have hspelled : PeerText.text ⟨ascii "h", 1, .none, ascii "80", by decide, by decide +kernel,
      by decide⟩ = loosePeer := by decide
  have hsame := PeerText.text_inj (hspelled.trans hgrammar.peerText_text.symm)
  refine hgrammar.not_loose ?_
  rw [← hsame]
  decide

/-! ## The round trip -/

namespace Peer

/-- A text is accepted as the string it parses to. -/
theorem initFromText_string {json s : Bytes} (h : parseText json = .ok (.string s)) (peer : Peer) :
    peer.initFromText json [] = peer.initFromJson (.string s) [] := by
  simp [initFromText, parse, h, Json.isString, Json.type]

theorem parseText_of_accepted {peer : Peer} {json err : Bytes}
    (h : (peer.initFromText json err).ok = true) : ∃ s, parseText json = .ok (.string s) := by
  unfold initFromText at h
  cases hparse : parseText json with
  | error message =>
    by_cases hmessage : message = [] <;>
      simp [parse, hparse, hmessage, Json.isString, Json.type] at h
  | ok j =>
    cases j with
    | string s => exact ⟨s, rfl⟩
    | null | double | int | bool | array | object =>
      by_cases herr : err = [] <;> simp [parse, hparse, herr, Json.isString, Json.type] at h

/-- The text a peer without `:` in its host is written as. -/
def spelling (p : Peer) (h : chr ':' ∉ p.host) : PeerText :=
  ⟨p.host, 0, .none, decimal p.port.toNat, h, decimal_isNumeral _,
    by rw [numeral_decimal]; exact p.port.toNat_lt⟩

theorem host_of_accepted {s err : Bytes}
    (h : (({} : Peer).initFromJson (.string s) err).ok = true) :
    chr ':' ∉ (({} : Peer).initFromJson (.string s) err).target.host := by
  by_cases hs : s = []
  · subst hs
    exact List.not_mem_nil
  · obtain ⟨t, rfl⟩ := peerText_of_accepted hs h
    rw [initFromJson_peerText]
    exact t.host_sep

theorem initFromText_json (p : Peer) (h : chr ':' ∉ p.host) (peer : Peer) :
    peer.initFromText p.json [] = ⟨true, { p with leader := peer.leader }, []⟩ := by
  have hparse : parseText p.json = .ok (.string (p.spelling h).text) := parseText_dumpString p.str
  have hport : UInt16.ofNat (numeral (decimal p.port.toNat)) = p.port := by
    rw [numeral_decimal, UInt16.ofNat_toNat]
  rw [initFromText_string hparse, initFromJson_peerText]
  simp [PeerText.peer, spelling, Sign.wrap, hport]

/-- **A peer decoded from any text decodes again, to an equal peer, from the text it is written
as.** -/
theorem initFromText_json_accepted {json : Bytes}
    (h : (({} : Peer).initFromText json []).ok = true) :
    (({} : Peer).initFromText (({} : Peer).initFromText json []).target.json []).ok = true ∧
      (({} : Peer).initFromText (({} : Peer).initFromText json []).target.json []).target.equal
        (({} : Peer).initFromText json []).target = true := by
  obtain ⟨s, hparse⟩ := parseText_of_accepted h
  rw [initFromText_string hparse] at h ⊢
  rw [initFromText_json _ (host_of_accepted h)]
  simp [equal]

/-- `"\u0000\ud800\"\u2028:+08"` -/
def oddPeer : Bytes := ascii "\"\\u0000\\ud800\\\"\\u2028:+08\""

theorem oddPeer_json :
    (({} : Peer).initFromText (({} : Peer).initFromText oddPeer []).target.json []).ok = true ∧
      (({} : Peer).initFromText (({} : Peer).initFromText oddPeer []).target.json []).target.equal
        (({} : Peer).initFromText oddPeer []).target = true :=
  initFromText_json_accepted (by decide +kernel)

end Peer

end PgConsul.Consul
