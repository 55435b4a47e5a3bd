import PgConsul.Consul.Peer
import PgConsul.Consul.KVPairs
import PgConsul.Json11.ParserErrors

/-! # Failures and messages

The callers of a decoder read failure off its result and off the error reference alike. Every exit
of the decoders sets both, but one: `Peers::InitFromJson` builds the message about a text that is no
array and does not store it.
-/
namespace PgConsul.Consul
set_option autoImplicit false
open Foundations Json11

/-- False is returned with a message, and true without one. -/
def Init.Tells {α : Type} (r : Init α) : Prop := r.ok = false ↔ r.err ≠ []

instance {α : Type} (r : Init α) : Decidable r.Tells := by unfold Init.Tells; infer_instance

theorem tells_ok {α : Type} (target : α) : (⟨true, target, []⟩ : Init α).Tells := by
  simp [Init.Tells]

theorem tells_error {α : Type} (target : α) {message : Bytes} (h : message ≠ []) :
    (⟨false, target, message⟩ : Init α).Tells := by
  simp [Init.Tells, h]

theorem Init.Tells.err_eq {α : Type} {r : Init α} (h : r.Tells) (hok : r.ok = true) :
    r.err = [] := by
  by_contra hne
  exact Bool.noConfusion (hok.symm.trans (h.mpr hne))

/-- A message that starts with a literal. -/
theorem tells_message {α : Type} (target : α) (s : String) (behind : Bytes) (h : ascii s ≠ []) :
    (⟨false, target, ascii s ++ behind⟩ : Init α).Tells :=
  tells_error target (literal_append_ne_nil h behind)

/-! ## Pairs -/

theorem explained_initMember (platform : Platform) (o : Object) (m : Member) (kvp : KVPair) :
    Explained (initMember platform o m kvp) := by
  cases m with
  | numeric n =>
    have hname : n.name ≠ [] := by cases n <;> decide
    have hinvalid : n.invalid ≠ [] := by cases n <;> decide
    simp only [initMember, initNumeric]
    split
    · exact explained_ok _
    · split
      · exact explained_error (literal_append_ne_nil (literal_append_ne_nil hname _) _)
      · split
        · exact explained_ok _
        · exact explained_error (literal_append_ne_nil hinvalid _)
  | textual t =>
    have hname : t.name ≠ [] := by cases t <;> decide
    simp only [initMember, initTextual]
    split
    · exact explained_ok _
    · split
      · exact explained_error (literal_append_ne_nil (literal_append_ne_nil hname _) _)
      · exact explained_ok _

theorem tells_initMembers (platform : Platform) (o : Object) (ms : List Member) (kvp : KVPair) :
    (initMembers platform o [] ms kvp).Tells := by
  induction ms generalizing kvp with
  | nil => exact tells_ok kvp
  | cons m ms ih =>
    rw [initMembers]
    split
    · next kvp' _ => exact ih kvp'
    · next message herror => exact tells_error kvp (explained_initMember platform o m kvp _ herror)

theorem tells_pair (platform : Platform) (kvp : KVPair) (obj : Json) :
    (kvp.initFromJson platform obj []).Tells := by
  unfold KVPair.initFromJson
  dsimp only
  split
  · exact tells_error kvp (by decide)
  · exact tells_initMembers platform _ members kvp

theorem tells_initElements (platform : Platform) (memory : ℕ → Indeterminate) (i : ℕ)
    (arr : List Json) (objs : List KVPair) :
    (initElements platform memory [] i arr objs).Tells := by
  induction arr generalizing i objs with
  | nil => exact tells_ok objs
  | cons obj arr ih =>
    have hpair := tells_pair platform (.uninitialised (memory i)) obj
    rw [initElements]
    split
    · next hok =>
      rw [hpair.err_eq hok]
      exact ih (i + 1) _
    · exact tells_message objs _ _ (by decide)

/-! ## Texts -/

/-- The message of a text that does not parse. -/
theorem parse_error {json message : Bytes} (h : parseText json = .error message) :
    parse json [] = (.null, message) ∧ message ≠ [] :=
  ⟨by rw [parse, h], explained_parseText json message h⟩

theorem tells_pairs (platform : Platform) (memory : ℕ → Indeterminate) (objs : List KVPair)
    (json : Bytes) : (initFromJsonPairs platform memory objs json []).Tells := by
  unfold initFromJsonPairs
  cases hparse : parseText json with
  | error message =>
    obtain ⟨herror, hne⟩ := parse_error hparse
    rw [herror]
    dsimp only
    rw [if_pos hne]
    exact tells_message objs _ _ (by decide)
  | ok j =>
    rw [parse_of_parseText hparse]
    dsimp only
    rw [if_neg (by simp)]
    split
    · exact tells_error objs (literal_append_ne_nil (literal_append_ne_nil (by decide) _) _)
    · exact tells_initElements platform memory 0 _ objs

/-! ## Peers -/

theorem tells_peer (peer : Peer) (j : Json) : (peer.initFromJson j []).Tells := by
  unfold Peer.initFromJson
  split
  · exact tells_error peer (by decide)
  · split
    · exact tells_ok _
    · split
      · dsimp only
        split
        · exact tells_message _ _ _ (by decide)
        · split
          · exact tells_message _ _ _ (by decide)
          · exact tells_ok _
      · exact tells_error peer (literal_append_ne_nil (literal_append_ne_nil (by decide) _) _)

theorem tells_peerText (peer : Peer) (json : Bytes) : (peer.initFromText json []).Tells := by
  unfold Peer.initFromText
  have hfront (s : String) (h : ascii s ≠ []) (behind : Bytes) :
      ascii s ++ json ++ ascii "): " ++ behind ≠ [] :=
    literal_append_ne_nil (literal_append_ne_nil (literal_append_ne_nil h _) _) _
  cases hparse : parseText json with
  | error message =>
    obtain ⟨herror, hne⟩ := parse_error hparse
    rw [herror]
    dsimp only
    rw [if_pos hne]
    exact tells_error peer (hfront _ (by decide) _)
  | ok j =>
    rw [parse_of_parseText hparse]
    dsimp only
    rw [if_neg (by simp)]
    split
    · exact tells_error peer (hfront _ (by decide) _)
    · exact tells_peer peer j

theorem tells_initPeers (arr : List Json) (peers : List Peer) : (initPeers [] arr peers).Tells := by
  induction arr generalizing peers with
  | nil => exact tells_ok peers
  | cons j arr ih =>
    have hpeer := tells_peer {} j
    rw [initPeers]
    split
    · next hok =>
      rw [hpeer.err_eq hok]
      exact ih _
    · exact tells_message peers _ _ (by decide)

theorem tells_peers_iff (peers : List Peer) (json : Bytes) :
    (initFromJsonPeers peers json []).Tells ↔
      ∀ j, parseText json = .ok j → j.isArray = true := by
  unfold initFromJsonPeers
  cases hparse : parseText json with
  | error message =>
    obtain ⟨herror, hne⟩ := parse_error hparse
    rw [herror]
    dsimp only
    rw [if_pos hne]
    have htells := tells_message peers "Parsing JSON failed: " message (by decide)
    simp [htells]
  | ok j =>
    rw [parse_of_parseText hparse]
    dsimp only
    rw [if_neg (by simp)]
    cases harray : j.isArray with
    | false => simp [Init.Tells, harray]
    | true =>
      have htells : (if j.arrayItems = [] then
          ⟨false, peers, ascii "Unexpected empty array of peers"⟩
          else initPeers [] j.arrayItems peers : Init (List Peer)).Tells := by
        split
        · exact tells_error peers (by decide)
        · exact tells_initPeers _ peers
      simp [htells, harray]

/-- **Four decoders fail exactly when they leave a message, and the one of a list of peers does so
on every text but those of a value that is no array.** -/
theorem decoders_tell (platform : Platform) (memory : ℕ → Indeterminate) (kvp : KVPair)
    (kvps : List KVPair) (peer : Peer) (peers : List Peer) :
    (∀ obj, (kvp.initFromJson platform obj []).Tells) ∧
      (∀ json, (initFromJsonPairs platform memory kvps json []).Tells) ∧
      (∀ j, (peer.initFromJson j []).Tells) ∧
      (∀ json, (peer.initFromText json []).Tells) ∧
      ∀ json, (initFromJsonPeers peers json []).Tells ↔
        ∀ j, parseText json = .ok j → j.isArray = true :=
  ⟨tells_pair platform kvp, tells_pairs platform memory kvps, tells_peer peer, tells_peerText peer,
    tells_peers_iff peers⟩

/-- An empty object is refused without a message. -/
theorem decoders_tell_object :
    initFromJsonPeers [] (ascii "\x7b\x7d") [] = ⟨false, [], []⟩ ∧
      ¬ ∀ (peers : List Peer) (json : Bytes), (initFromJsonPeers peers json []).Tells := by
  have hsilent : initFromJsonPeers [] (ascii "\x7b\x7d") [] = ⟨false, [], []⟩ := by decide +kernel
  refine ⟨hsilent, fun h => ?_⟩
  have htells := h [] (ascii "\x7b\x7d")
  rw [hsilent] at htells
  exact absurd htells (by decide)

end PgConsul.Consul
