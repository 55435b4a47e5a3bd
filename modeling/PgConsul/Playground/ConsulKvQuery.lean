import PgConsul.Playground.ConsulKv

/-! # What a run of consul-kv sends

The query of a request is read from its URL. The tool makes it of the parameters the options ask
for, but the host and the key are pasted into the URL as they are, and a `?` or a `#` in one of them
begins the query or ends it.
-/
namespace PgConsul.Playground
set_option autoImplicit false
open Foundations Consul Cpr Json11 Extension

/-! ## The query of a request -/

/-- The parameters are those the options ask for, each of them once. -/
structure Carries (c : CommandLine) (ps : List (Bytes × Bytes)) : Prop where
  dc : ∀ v, (ascii "dc", v) ∈ ps ↔ c.cluster = some v ∧ v ≠ []
  recurse : ∀ v, (ascii "recurse", v) ∈ ps ↔
    v = [] ∧ c.recursive = true ∧ (c.methodAsked = .Get ∨ c.methodAsked = .Delete)
  cas : ∀ v, (ascii "cas", v) ∈ ps ↔
    (∃ cas, c.cas = some cas ∧ v = decimal cas.toNat) ∧
      (c.methodAsked = .Put ∨ c.methodAsked = .Delete)
  acquire : ∀ v, (ascii "acquire", v) ∈ ps ↔ c.session = some v ∧ c.methodAsked = .Put
  flags : ∀ v, (ascii "flags", v) ∈ ps ↔
    (∃ flags, c.flags = some flags ∧ v = decimal flags.toNat) ∧ c.methodAsked = .Put
  others : ∀ p ∈ ps, p.1 ∈ [ascii "dc", ascii "recurse", ascii "cas", ascii "acquire",
    ascii "flags"]
  once : (ps.map Prod.fst).Nodup

theorem mem_pairs_if {P : Prop} [Decidable P] {ps : List Parameter} {p : Bytes × Bytes} :
    p ∈ pairs (if P then ps else []) ↔ p ∈ pairs ps ∧ P := by
  split <;> simp_all [pairs]

theorem mem_pairs_option {α : Type} {option : Option α} {key : Bytes} {text : α → Bytes}
    {name v : Bytes} : (name, v) ∈ pairs (option.toList.map fun a => ⟨key, text a⟩) ↔
      name = key ∧ ∃ a, option = some a ∧ v = text a := by
  cases option <;> simp [pairs]

theorem settings_cluster (c : CommandLine) (v : Bytes) :
    (v = c.settings.cluster ∧ c.settings.cluster ≠ []) ↔ c.cluster = some v ∧ v ≠ [] := by
  cases hcluster : c.cluster with
  | none => simp [CommandLine.settings, hcluster]
  | some cluster =>
    simp only [CommandLine.settings, hcluster, Option.getD_some, Option.some_inj]
    exact ⟨fun h => ⟨h.1.symm, h.1 ▸ h.2⟩, fun h => ⟨h.1.symm, h.1 ▸ h.2⟩⟩

theorem mem_parameters (c : CommandLine) (name v : Bytes) :
    (name, v) ∈ pairs c.parameters ↔
      (name = ascii "dc" ∧ c.cluster = some v ∧ v ≠ []) ∨
      (name = ascii "recurse" ∧ v = [] ∧ c.recursive = true ∧ c.methodAsked ≠ .Put) ∨
      (name = ascii "cas" ∧ (∃ cas, c.cas = some cas ∧ v = decimal cas.toNat) ∧
        c.methodAsked ≠ .Get) ∨
      (name = ascii "acquire" ∧ c.session = some v ∧ c.methodAsked = .Put) ∨
      (name = ascii "flags" ∧ (∃ flags, c.flags = some flags ∧ v = decimal flags.toNat) ∧
        c.methodAsked = .Put) := by
  have happend : ∀ ps ps' : List Parameter,
      (name, v) ∈ pairs (ps ++ ps') ↔ (name, v) ∈ pairs ps ∨ (name, v) ∈ pairs ps' := by
    simp [pairs]
  have hsingle : ∀ p : Parameter, (name, v) ∈ pairs [p] ↔ name = p.key ∧ v = p.value := by
    simp [pairs]
  have hsession : (name, v) ∈ pairs (c.session.toList.map fun session =>
      ⟨ascii "acquire", session⟩) ↔ name = ascii "acquire" ∧ c.session = some v := by
    cases c.session <;> simp [pairs, eq_comm]
  simp only [CommandLine.parameters, happend, mem_pairs_if, mem_pairs_option, hsingle, hsession,
    settings_cluster, and_assoc, or_assoc]

theorem names_sublist (c : CommandLine) : ((pairs c.parameters).map Prod.fst).Sublist
    ([ascii "dc"] ++ [ascii "recurse"] ++ [ascii "cas"] ++ [ascii "acquire"] ++
      [ascii "flags"]) := by
  have hif : ∀ (P : Prop) [Decidable P] (ps : List Parameter) (name : Bytes),
      ((pairs ps).map Prod.fst).Sublist [name] →
        ((pairs (if P then ps else [])).map Prod.fst).Sublist [name] := by
    intro P _ ps name h
    split
    · exact h
    · exact List.nil_sublist _
  have hoption : ∀ {α : Type} (option : Option α) (name : Bytes) (text : α → Bytes),
      ((pairs (option.toList.map fun a => ⟨name, text a⟩)).map Prod.fst).Sublist [name] := by
    intro α option name text
    cases option
    · exact List.nil_sublist _
    · exact List.Sublist.refl _
  have happend : ∀ ps ps' : List Parameter, (pairs (ps ++ ps')).map Prod.fst =
      (pairs ps).map Prod.fst ++ (pairs ps').map Prod.fst := by
    simp [pairs]
  unfold CommandLine.parameters
  simp only [happend]
  exact ((((hif _ _ _ (List.Sublist.refl _)).append (hif _ _ _ (List.Sublist.refl _))).append
    (hif _ _ _ (hoption c.cas _ _))).append (hif _ _ _ (hoption c.session _ _))).append
      (hif _ _ _ (hoption c.flags _ _))

theorem carries_parameters (c : CommandLine) : Carries c (pairs c.parameters) := by
  have hasked : c.methodAsked ≠ .Put ↔ c.methodAsked = .Get ∨ c.methodAsked = .Delete := by
    cases c.methodAsked <;> simp
  have hasked' : c.methodAsked ≠ .Get ↔ c.methodAsked = .Put ∨ c.methodAsked = .Delete := by
    cases c.methodAsked <;> simp
  refine ⟨fun v => ?_, fun v => ?_, fun v => ?_, fun v => ?_, fun v => ?_, ?_, ?_⟩
  · rw [mem_parameters]
    simp +decide
  · rw [mem_parameters, ← hasked]
    simp +decide
  · rw [mem_parameters, ← hasked']
    simp +decide
  · rw [mem_parameters]
    simp +decide
  · rw [mem_parameters]
    simp +decide
  · rintro ⟨name, v⟩ hmem
    rw [mem_parameters] at hmem
    rcases hmem with ⟨rfl, -⟩ | ⟨rfl, -⟩ | ⟨rfl, -⟩ | ⟨rfl, -⟩ | ⟨rfl, -⟩ <;> simp
  · exact List.Nodup.sublist (names_sublist c) (by decide)

theorem queryPairs_parameters (platform : Platform) (c : CommandLine) :
    queryPairs (content platform c.parameters) = some (pairs c.parameters) := by
  apply queryPairs_content
  intro p hp hempty
  have hothers := (carries_parameters c).others (p.key, p.value) (List.mem_map_of_mem hp)
  have hnames : ([] : Bytes) ∉ [ascii "dc", ascii "recurse", ascii "cas", ascii "acquire",
    ascii "flags"] := by decide
  exact hnames (hempty ▸ hothers)

def parameterNames : List Bytes :=
  [ascii "dc", ascii "recurse", ascii "cas", ascii "acquire", ascii "flags"]

namespace CommandLine

/-- The names of the parameters asked for. -/
def asked (c : CommandLine) : List Bytes := c.parameters.map Parameter.key

/-- What the URL of a key has from its first `?` or `#` on. -/
def pasted (c : CommandLine) (key : Bytes) : Bytes :=
  (c.settings.url .kvEndpointUrlPrefix ++ key).dropWhile inPath

end CommandLine

/-- When what the host and the key have from their first `?` or `#` on leaves the request with the
parameters asked for: by luck, unless it is nothing. -/
inductive Spells (c : CommandLine) : Bytes → Prop where
  | nothing : Spells c []
  /-- A fragment hides the query. -/
  | hidden (rest : Bytes) (h : c.asked = []) : Spells c (chr '#' :: rest)
  /-- A query that a fragment closes. -/
  | closed (q rest : Bytes) (hq : chr '#' ∉ q)
      (h : ∀ name ∈ parameterNames, name ∈ queryNames q ↔ name ∈ c.asked) :
      Spells c (chr '?' :: (q ++ chr '#' :: rest))
  /-- A query behind which nothing is added. -/
  | alone (q : Bytes) (hq : chr '#' ∉ q) (hasked : c.asked = [])
      (h : ∀ name ∈ parameterNames, name ∉ queryNames q) : Spells c (chr '?' :: q)
  /-- A query that the added one is glued to, so that the first name added is lost. -/
  | glued (q first : Bytes) (later : List Bytes) (hq : chr '#' ∉ q)
      (hasked : c.asked = first :: later) (hfirst : first ∈ queryNames (q ++ [chr '?']))
      (h : ∀ name ∈ parameterNames, name ∈ queryNames (q ++ [chr '?']) → name ∈ c.asked) :
      Spells c (chr '?' :: q)

/-- The query has a parameter of each name exactly when the options ask for it. -/
structure CarriesAsked (c : CommandLine) (q : Bytes) : Prop where
  dc : ascii "dc" ∈ queryNames q ↔ ∃ v, c.cluster = some v ∧ v ≠ []
  recurse : ascii "recurse" ∈ queryNames q ↔
    c.recursive = true ∧ (c.methodAsked = .Get ∨ c.methodAsked = .Delete)
  cas : ascii "cas" ∈ queryNames q ↔
    c.cas ≠ none ∧ (c.methodAsked = .Put ∨ c.methodAsked = .Delete)
  acquire : ascii "acquire" ∈ queryNames q ↔ c.session ≠ none ∧ c.methodAsked = .Put
  flags : ascii "flags" ∈ queryNames q ↔ c.flags ≠ none ∧ c.methodAsked = .Put

/-- The request for a key as the options ask for it: the method, and the query of its URL. Where
neither the host nor the key ends its part of a URL, the server also reads the key and the values. -/
structure SentFor (c : CommandLine) (key : Bytes) (s : Sent) : Prop where
  method : s.method = c.methodAsked
  target : c.settings.url .kvEndpointUrlPrefix ++ key <+: s.request.url
  query : ∃ u, Uri.parse s.request.url = some u ∧ CarriesAsked c (u.query.getD [])
  values : CleanHost c.settings.host → (∀ b ∈ key, inPath b = true) →
    ∃ u ps, Uri.parse s.request.url = some u ∧ u.path = ascii "/v1/kv/" ++ key ∧
      u.parameters = some ps ∧ Carries c ps

section Query
variable {platform : Platform} {c : CommandLine} {key : Bytes}

theorem mem_asked {name : Bytes} :
    name ∈ c.asked ↔ ∃ v, (name, v) ∈ pairs c.parameters := by
  simp only [CommandLine.asked, pairs, List.mem_map, Prod.mk.injEq]
  constructor
  · rintro ⟨p, hp, rfl⟩
    exact ⟨p.value, p, hp, rfl, rfl⟩
  · rintro ⟨v, p, hp, rfl, -⟩
    exact ⟨p, hp, rfl⟩

theorem exists_decimal {option : Option UInt64} {P : Prop} :
    (∃ v, (∃ n, option = some n ∧ v = decimal n.toNat) ∧ P) ↔ option ≠ none ∧ P := by
  cases option <;> simp

theorem carriesAsked_iff {q : Bytes} : CarriesAsked c q ↔
    ∀ name ∈ parameterNames, name ∈ queryNames q ↔ name ∈ c.asked := by
  have h := carries_parameters c
  have hdc : ascii "dc" ∈ c.asked ↔ ∃ v, c.cluster = some v ∧ v ≠ [] := by
    simp only [mem_asked, h.dc]
  have hrecurse : ascii "recurse" ∈ c.asked ↔
      c.recursive = true ∧ (c.methodAsked = .Get ∨ c.methodAsked = .Delete) := by
    simp only [mem_asked, h.recurse, exists_eq_left]
  have hcas : ascii "cas" ∈ c.asked ↔
      c.cas ≠ none ∧ (c.methodAsked = .Put ∨ c.methodAsked = .Delete) := by
    simp only [mem_asked, h.cas, exists_decimal]
  have hacquire : ascii "acquire" ∈ c.asked ↔ c.session ≠ none ∧ c.methodAsked = .Put := by
    simp only [mem_asked, h.acquire, exists_and_right, Option.ne_none_iff_exists']
  have hflags : ascii "flags" ∈ c.asked ↔ c.flags ≠ none ∧ c.methodAsked = .Put := by
    simp only [mem_asked, h.flags, exists_decimal]
  simp only [parameterNames, List.forall_mem_cons, List.not_mem_nil, false_implies, implies_true,
    and_true, hdc, hrecurse, hcas, hacquire, hflags]
  constructor
  · rintro ⟨hdc, hrecurse, hcas, hacquire, hflags⟩
    exact ⟨hdc, hrecurse, hcas, hacquire, hflags⟩
  · rintro ⟨hdc, hrecurse, hcas, hacquire, hflags⟩
    exact ⟨hdc, hrecurse, hcas, hacquire, hflags⟩

theorem nodup_asked (c : CommandLine) : c.asked.Nodup := by
  have h := (carries_parameters c).once
  rw [pairs, List.map_map] at h
  exact h

theorem asked_subset (c : CommandLine) : ∀ name ∈ c.asked, name ∈ parameterNames := by
  intro name hname
  obtain ⟨v, hv⟩ := mem_asked.mp hname
  exact (carries_parameters c).others _ hv

theorem parameter_key_ne_nil (c : CommandLine) : ∀ p ∈ c.parameters, p.key ≠ [] := by
  intro p hp hempty
  have hname := asked_subset c p.key (List.mem_map_of_mem hp)
  have hnil : ([] : Bytes) ∉ parameterNames := by decide
  exact hnil (hempty ▸ hname)

theorem zero_not_mem_host (c : CommandLine) : 0 ∉ c.settings.host := by
  rw [CommandLine.settings]
  cases hhost : c.host with
  | none => exact (by decide : (0 : UInt8) ∉ DEFAULT_HOST)
  | some host => exact c.host_text host hhost

/-- The URL of the request for a key: the options' query stands behind whatever the key has. -/
theorem sent_url (platform : Platform) (c : CommandLine) (hkey : 0 ∉ key) :
    (c.sent platform key).request.url =
      c.settings.url .kvEndpointUrlPrefix ++ keyTail key (content platform c.parameters) :=
  requestUrl_key (zero_not_mem_host c) hkey (zero_not_mem_content platform c.parameters) _ _

/-- What stands behind the path in the URL of the request. -/
theorem sent_query (platform : Platform) (c : CommandLine) (hkey : 0 ∉ key) :
    ∃ u, Uri.parse (c.sent platform key).request.url = some u ∧
      u.query = queryOf (c.pasted key ++ if c.asked = [] then [] else
        chr '?' :: content platform c.parameters) := by
  have hasked : content platform c.parameters = [] ↔ c.asked = [] := by
    have hnames := parameter_key_ne_nil c
    rw [CommandLine.asked, List.map_eq_nil_iff]
    constructor
    · intro hempty
      cases hps : c.parameters with
      | nil => rfl
      | cons p ps =>
        rw [hps] at hempty hnames
        rw [content_cons platform (hnames p List.mem_cons_self)] at hempty
        exact absurd (List.append_eq_nil_iff.mp hempty).1
          (parameterText_ne_nil (hnames p List.mem_cons_self))
    · intro hempty
      rw [hempty]
      rfl
  have hscheme : ∃ r, c.settings.url .kvEndpointUrlPrefix = ascii "http://" ++ r :=
    ⟨_, List.append_assoc _ _ _⟩
  obtain ⟨r, hr⟩ := hscheme
  have hpath : ∀ b ∈ ascii "http://", inPath b = true := by decide +kernel
  obtain ⟨u, hparse, hquery⟩ := Uri.parse_query (r ++ keyTail key (content platform c.parameters))
  rw [← List.append_assoc, ← hr, ← sent_url platform c hkey] at hparse
  refine ⟨u, hparse, hquery.trans (congrArg queryOf ?_)⟩
  rw [CommandLine.pasted, hr, List.append_assoc, List.dropWhile_append_of_pos hpath, keyTail,
    ← List.append_assoc]
  simp only [hasked]
  rw [List.dropWhile_append]
  split
  · next hnone =>
    rw [List.isEmpty_iff] at hnone
    rw [hnone, List.nil_append]
    split
    · rfl
    · exact List.dropWhile_cons_of_neg (by decide)
  · rfl

theorem takeWhile_closed {q : Bytes} (h : chr '#' ∉ q) (rest : Bytes) :
    (q ++ chr '#' :: rest).takeWhile (· ≠ chr '#') = q := by
  rw [List.takeWhile_append_of_pos (forall_ne_of_not_mem h), List.takeWhile_cons_of_neg (by simp),
    List.append_nil]

theorem queryNames_nil : ∀ name ∈ parameterNames, name ∉ queryNames [] := by
  decide +kernel

/-- With nothing asked for the names have to be absent. -/
theorem carriesAsked_nothing (hasked : c.asked = []) {q : Bytes} :
    CarriesAsked c q ↔ ∀ name ∈ parameterNames, name ∉ queryNames q := by
  rw [carriesAsked_iff, hasked]
  simp only [List.not_mem_nil, iff_false]

theorem spells_hash_iff (rest : Bytes) : Spells c (chr '#' :: rest) ↔ c.asked = [] := by
  constructor
  · intro h
    generalize htext : chr '#' :: rest = text at h
    cases h with
    | hidden _ h => exact h
    | nothing => cases htext
    | closed | alone | glued => exact absurd (List.cons.inj htext).1 (by decide)
  · exact .hidden rest

theorem spells_closed_iff {q : Bytes} (hq : chr '#' ∉ q) (rest : Bytes) :
    Spells c (chr '?' :: (q ++ chr '#' :: rest)) ↔ CarriesAsked c q := by
  rw [carriesAsked_iff]
  constructor
  · intro h
    have hopen : ∀ q' : Bytes, chr '#' ∉ q' → q ++ chr '#' :: rest ≠ q' := by
      rintro q' hq' rfl
      exact hq' (List.mem_append_right q List.mem_cons_self)
    generalize htext : chr '?' :: (q ++ chr '#' :: rest) = text at h
    cases h with
    | nothing => cases htext
    | hidden => exact absurd (List.cons.inj htext).1 (by decide)
    | closed q' rest' hq' h =>
      have hsame := congrArg (List.takeWhile (· ≠ chr '#')) (List.cons.inj htext).2
      rw [takeWhile_closed hq, takeWhile_closed hq'] at hsame
      exact hsame ▸ h
    | alone q' hq' => exact absurd (List.cons.inj htext).2 (hopen q' hq')
    | glued q' _ _ hq' => exact absurd (List.cons.inj htext).2 (hopen q' hq')
  · exact .closed q rest hq

theorem ne_closed {q : Bytes} (hq : chr '#' ∉ q) (q' rest : Bytes) : q ≠ q' ++ chr '#' :: rest := by
  rintro rfl
  exact hq (List.mem_append_right q' List.mem_cons_self)

theorem spells_alone_iff (hasked : c.asked = []) {q : Bytes} (hq : chr '#' ∉ q) :
    Spells c (chr '?' :: q) ↔ CarriesAsked c q := by
  rw [carriesAsked_nothing hasked]
  constructor
  · intro h
    generalize htext : chr '?' :: q = text at h
    cases h with
    | nothing => cases htext
    | hidden => exact absurd (List.cons.inj htext).1 (by decide)
    | closed q' rest => exact absurd (List.cons.inj htext).2 (ne_closed hq q' rest)
    | alone q' _ _ h => exact (List.cons.inj htext).2 ▸ h
    | glued _ _ _ _ hcons =>
      rw [hasked] at hcons
      cases hcons
  · exact .alone q hq hasked

/-- The names of the glued query: the first one added is lost in the last name of the text. -/
theorem mem_queryNames_glued (platform : Platform) {p : Parameter} {ps : List Parameter}
    (hps : c.parameters = p :: ps) (q : Bytes) {name : Bytes} (hname : name ∈ parameterNames) :
    name ∈ queryNames (q ++ chr '?' :: content platform (p :: ps)) ↔
      name ∈ queryNames (q ++ [chr '?']) ∨ name ∈ ps.map Parameter.key := by
  have hquestion : ∀ name ∈ parameterNames, chr '?' ∉ name := by decide +kernel
  have hkeys := parameter_key_ne_nil c
  rw [hps] at hkeys
  exact mem_queryNames_behind platform hkeys q (hquestion name hname)

theorem spells_glued_iff (platform : Platform) {p : Parameter} {ps : List Parameter}
    (hps : c.parameters = p :: ps) {q : Bytes} (hq : chr '#' ∉ q) :
    Spells c (chr '?' :: q) ↔
      CarriesAsked c (q ++ chr '?' :: content platform (p :: ps)) := by
  have hasked : c.asked = p.key :: ps.map Parameter.key := by
    rw [CommandLine.asked, hps, List.map_cons]
  have hfresh : p.key ∉ ps.map Parameter.key := by
    have hnodup := nodup_asked c
    rw [hasked] at hnodup
    exact (List.nodup_cons.mp hnodup).1
  rw [carriesAsked_iff]
  constructor
  · intro h name hname
    generalize htext : chr '?' :: q = text at h
    cases h with
    | nothing => cases htext
    | hidden => exact absurd (List.cons.inj htext).1 (by decide)
    | closed q' rest => exact absurd (List.cons.inj htext).2 (ne_closed hq q' rest)
    | alone _ _ hnil =>
      rw [hasked] at hnil
      cases hnil
    | glued q' first later _ hcons hfirst h =>
      obtain rfl := (List.cons.inj htext).2
      obtain ⟨rfl, -⟩ := List.cons.inj (hasked.symm.trans hcons)
      rw [mem_queryNames_glued platform hps q hname]
      constructor
      · rintro (hglued | hlater)
        · exact h name hname hglued
        · exact hasked ▸ List.mem_cons_of_mem _ hlater
      · intro hmem
        rw [hasked, List.mem_cons] at hmem
        rcases hmem with rfl | hlater
        · exact .inl hfirst
        · exact .inr hlater
  · intro h
    have hmem : p.key ∈ c.asked := hasked ▸ List.mem_cons_self
    have hname := asked_subset c p.key hmem
    have hfirst := (mem_queryNames_glued platform hps q hname).mp ((h p.key hname).mpr hmem)
    refine .glued q p.key _ hq hasked (hfirst.resolve_right hfresh) fun name hname hglued => ?_
    exact (h name hname).mp ((mem_queryNames_glued platform hps q hname).mpr (.inl hglued))

/-- Behind a query that no fragment closes the tool's own query is part of it. -/
theorem spells_open_iff (platform : Platform) {q : Bytes} (hq : chr '#' ∉ q) :
    Spells c (chr '?' :: q) ↔ CarriesAsked c (q ++ if c.asked = [] then [] else
      chr '?' :: content platform c.parameters) := by
  cases hps : c.parameters with
  | nil =>
    have hasked : c.asked = [] := by rw [CommandLine.asked, hps, List.map_nil]
    rw [if_pos hasked, List.append_nil, spells_alone_iff hasked hq]
  | cons p ps =>
    have hasked : c.asked ≠ [] := by
      rw [CommandLine.asked, hps]
      exact List.cons_ne_nil _ _
    rw [if_neg hasked, spells_glued_iff platform hps hq]

/-- An empty query asks for nothing. -/
theorem carriesAsked_nil_iff : CarriesAsked c [] ↔ c.asked = [] := by
  rw [carriesAsked_iff]
  constructor
  · intro h
    refine List.eq_nil_iff_forall_not_mem.mpr fun name hname => ?_
    have hmem := asked_subset c name hname
    exact queryNames_nil name hmem ((h name hmem).mpr hname)
  · intro hasked name hname
    rw [hasked]
    exact iff_of_false (queryNames_nil name hname) List.not_mem_nil

/-- The tool's own query has the names asked for. -/
theorem carriesAsked_own (platform : Platform) (c : CommandLine) :
    CarriesAsked c ((queryOf (if c.asked = [] then [] else
      chr '?' :: content platform c.parameters)).getD []) := by
  cases hps : c.parameters with
  | nil =>
    have hasked : c.asked = [] := by rw [CommandLine.asked, hps, List.map_nil]
    rw [if_pos hasked]
    exact carriesAsked_nil_iff.mpr hasked
  | cons p ps =>
    have hasked : c.asked = (p :: ps).map Parameter.key := by rw [CommandLine.asked, hps]
    have hkeys := parameter_key_ne_nil c
    rw [hps] at hkeys
    rw [if_neg (by simp [hasked]), queryOf, if_pos rfl, Option.getD_some,
      List.takeWhile_eq_self_iff.mpr (forall_ne_of_not_mem (hash_not_mem_content platform _)),
      carriesAsked_iff, queryNames_content platform (hkeys p List.mem_cons_self), hasked]
    exact fun _ _ => Iff.rfl

/-- What is pasted begins with a delimiter. -/
theorem pasted_head {b : UInt8} {rest : Bytes} (h : c.pasted key = b :: rest) :
    b = chr '?' ∨ b = chr '#' := by
  have hhead := List.head?_dropWhile_not inPath (c.settings.url .kvEndpointUrlPrefix ++ key)
  rw [← CommandLine.pasted, h] at hhead
  have hb : inPath b = false := hhead
  by_contra hnot
  rw [not_or] at hnot
  rw [(inPath_iff b).mpr hnot] at hb
  cases hb

/-- **The query of the request for a key is the one asked for exactly when what is pasted into its
URL lets it be.** -/
theorem carriesAsked_sent_iff (platform : Platform) (c : CommandLine) {key : Bytes} (hkey : 0 ∉ key) :
    (∃ u, Uri.parse (c.sent platform key).request.url = some u ∧
        CarriesAsked c (u.query.getD [])) ↔ Spells c (c.pasted key) := by
  obtain ⟨u, hparse, hquery⟩ := sent_query platform c hkey
  have hexists : (∃ u, Uri.parse (c.sent platform key).request.url = some u ∧
      CarriesAsked c (u.query.getD [])) ↔ CarriesAsked c (u.query.getD []) := by
    constructor
    · rintro ⟨u', hparse', h⟩
      obtain rfl : u = u' := Option.some.inj (hparse.symm.trans hparse')
      exact h
    · exact fun h => ⟨u, hparse, h⟩
  have hhash : chr '#' ∉ (if c.asked = [] then [] else
      chr '?' :: content platform c.parameters) := by
    have hmark : chr '#' ≠ chr '?' := by decide
    split
    · exact List.not_mem_nil
    · simp [hash_not_mem_content, hmark]
  rw [hexists, hquery]
  cases hpasted : c.pasted key with
  | nil => exact iff_of_true (carriesAsked_own platform c) .nothing
  | cons b rest =>
    rcases pasted_head hpasted with rfl | rfl
    · rw [List.cons_append, queryOf, if_pos rfl, Option.getD_some]
      by_cases hmem : chr '#' ∈ rest
      · obtain ⟨q, rest, rfl, hq⟩ := List.eq_append_cons_of_mem hmem
        rw [List.append_assoc, List.cons_append, takeWhile_closed hq, spells_closed_iff hq]
      · have hall : chr '#' ∉ rest ++ (if c.asked = [] then [] else
            chr '?' :: content platform c.parameters) := by
          rw [List.mem_append, not_or]
          exact ⟨hmem, hhash⟩
        rw [List.takeWhile_eq_self_iff.mpr (forall_ne_of_not_mem hall),
          spells_open_iff platform hmem]
    · rw [List.cons_append, queryOf, if_neg (by decide), Option.getD_none, spells_hash_iff,
        carriesAsked_nil_iff]

theorem sentFor_sent_iff (platform : Platform) (c : CommandLine) {key : Bytes} (hkey : 0 ∉ key) :
    SentFor c key (c.sent platform key) ↔ Spells c (c.pasted key) := by
  refine ⟨fun h => (carriesAsked_sent_iff platform c hkey).mp h.query, fun h => ?_⟩
  have hurl := sent_url platform c hkey
  refine ⟨rfl, ?_, (carriesAsked_sent_iff platform c hkey).mpr h, fun hhost hpath => ?_⟩
  · rw [hurl, keyTail, ← List.append_assoc]
    exact List.prefix_append _ _
  · have hparse := parse_keyTail (fun b hb => (hhost b hb).1) c.settings.port key
      (content platform c.parameters)
    rw [← PlainAgent.url, ← hurl] at hparse
    refine ⟨_, pairs c.parameters, hparse, ?_, ?_, carries_parameters c⟩
    · rw [List.takeWhile_eq_self_iff.mpr hpath]
    · rw [parameters_keyTail platform hpath c.parameters rfl, queryPairs_parameters]

end Query

/-! ## The tool -/

/-- What the command line says of the requests, whatever uninitialised memory holds. -/
structure MeetsCommandLine (platform : Platform) (c : CommandLine) : Prop where
  determined : ∀ debugLog debugLog' memory memory' answers,
    (main platform debugLog memory answers c).requests =
      (main platform debugLog' memory' answers c).requests
  refused : c.Refused → ∀ debugLog memory answers,
    (main platform debugLog memory answers c).requests = []
  inOrder : ¬ c.Refused → ∀ debugLog memory answers,
    ∃ keys, StopsAtFailure (fun i => c.Succeeds (answers i)) c.key keys ∧
      List.Forall₂ (SentFor c) keys (main platform debugLog memory answers c).requests
  put : ∀ debugLog memory answers,
    ∀ s ∈ (main platform debugLog memory answers c).requests, s.method = .Put →
      c.value ≠ none ∧ c.key.length = 1

section Tool
variable {platform : Platform} {c : CommandLine}

theorem main_refused (h : c.Refused) (debugLog : Bool) (memory : Uninitialised)
    (answers : ℕ → Transfer) : main platform debugLog memory answers c = ⟨[], .EX_USAGE⟩ := by
  rw [main, interpretMethod_refused h]

theorem main_given (h : c.method ≠ none) (hrefused : ¬ c.Refused) (debugLog : Bool)
    (memory : Uninitialised) (answers : ℕ → Transfer) :
    (main platform debugLog memory answers c).requests =
      (attempted (fun i => c.Succeeds (answers i)) 0 c.key).map (c.sent platform) := by
  rw [main, interpretMethod_given h hrefused]
  exact Loop.run_requests rfl (refines_agentOf c) 0 c.key

/-- What is pasted into the URLs leaves every request with the query asked for. -/
def CommandLine.Spelled (c : CommandLine) : Prop := ∀ key ∈ c.key, Spells c (c.pasted key)

theorem meets_of_given (h : c.method ≠ none) (hspelled : c.Refused ∨ c.Spelled) :
    MeetsCommandLine platform c := by
  by_cases hrefused : c.Refused
  · refine ⟨?_, fun _ _ _ _ => by rw [main_refused hrefused], fun hnot => absurd hrefused hnot, ?_⟩
    · intro debugLog debugLog' memory memory' answers
      rw [main_refused hrefused, main_refused hrefused]
    · intro debugLog memory answers s hs
      rw [main_refused hrefused] at hs
      cases hs
  · refine ⟨?_, fun hyes => absurd hyes hrefused, ?_, ?_⟩
    · intro debugLog debugLog' memory memory' answers
      rw [main_given h hrefused, main_given h hrefused]
    · intro _ debugLog memory answers
      have hstops := attempted_stopsAtFailure (fun i => c.Succeeds (answers i)) 0 c.key
      simp only [Nat.zero_add] at hstops
      refine ⟨_, hstops, ?_⟩
      rw [main_given h hrefused, List.forall₂_map_right_iff]
      refine List.forall₂_same.mpr fun key hkey => ?_
      have hmem : key ∈ c.key := hstops.isPrefix.subset hkey
      exact (sentFor_sent_iff platform c (c.key_text key hmem)).mpr
        (hspelled.resolve_left hrefused key hmem)
    · intro debugLog memory answers s hs hput
      rw [main_given h hrefused] at hs
      obtain ⟨key, -, rfl⟩ := List.mem_map.mp hs
      have hfine : ¬ (c.value = none ∨ 1 < c.key.length) := fun hbad => hrefused ⟨hput, hbad⟩
      have hkeys := List.length_pos_iff.mpr c.key_required
      rw [not_or] at hfine
      exact ⟨hfine.1, by omega⟩

/-- Without `-m` memory decides, and it may say DELETE. -/
theorem main_deletes (h : c.method = none) {memory : Uninitialised}
    (hmemory : memory.methodType = .DELETE) (debugLog : Bool) (answers : ℕ → Transfer) :
    ∃ s later, (main platform debugLog memory answers c).requests = s :: later ∧
      s.method = .Delete := by
  obtain ⟨key, keys, hkeys⟩ := List.exists_cons_of_ne_nil c.key_required
  rw [main, interpretMethod, h, hkeys]
  exact Loop.run_deletes hmemory _ _ _ _

theorem not_meets_of_absent (h : c.method = none) : ¬ MeetsCommandLine platform c := by
  intro hmeets
  have hget : c.methodAsked = .Get := methodAsked_absent h
  have hrefused : ¬ c.Refused := fun hbad => by
    rw [CommandLine.Refused, hget] at hbad
    cases hbad.1
  let memory : Uninitialised := ⟨.DELETE, fun _ _ => zeros⟩
  obtain ⟨keys, -, hsent⟩ := hmeets.inOrder hrefused true memory fun _ => .threw []
  obtain ⟨s, later, hrequests, hdelete⟩ :=
    @main_deletes platform c h memory rfl true fun _ => .threw []
  rw [hrequests] at hsent
  cases hsent with
  | cons hfirst _ =>
    have hmethod := hfirst.method
    rw [hdelete, hget] at hmethod
    cases hmethod

/-- An empty array answers every method. -/
theorem succeeds_empty (c : CommandLine) : c.Succeeds (.answered 200 (ascii "[]")) := by
  have hparse : parseText (parseResponse (ascii "[]")) = .ok (.array []) := by decide +kernel
  refine ⟨rfl, ?_⟩
  cases c.methodAsked with
  | Get => exact ⟨[], hparse, List.forall_mem_nil _, .inr (Nat.zero_le _)⟩
  | Put => exact (by decide : parseResponse (ascii "[]") ≠ ascii "false")
  | Delete => exact trivial

/-- A run without a failure reaches every key. -/
theorem spelled_of_meets (h : MeetsCommandLine platform c) (hmethod : c.method ≠ none)
    (hrefused : ¬ c.Refused) : c.Spelled := by
  let memory : Uninitialised := ⟨.GET, fun _ _ => zeros⟩
  obtain ⟨keys, hstops, hsent⟩ := h.inOrder hrefused true memory fun _ =>
    .answered 200 (ascii "[]")
  have hall : keys = c.key := by
    refine hstops.isPrefix.eq_of_length_le (not_lt.mp fun hlt => ?_)
    exact hstops.stopped hlt (succeeds_empty c)
  rw [main_given hmethod hrefused, attempted_all (fun _ => succeeds_empty c), hall,
    List.forall₂_map_right_iff] at hsent
  intro key hkey
  exact (sentFor_sent_iff platform c (c.key_text key hkey)).mp (List.forall₂_same.mp hsent key hkey)

end Tool

/-- **The requests are those of the command line exactly when `-m` is given and the keys are pasted
into URLs that keep the query asked for.** -/
theorem consul_kv_iff (platform : Platform) (c : CommandLine) :
    MeetsCommandLine platform c ↔ c.method ≠ none ∧ (c.Refused ∨ c.Spelled) := by
  constructor
  · intro h
    have hmethod : c.method ≠ none := fun habsent => not_meets_of_absent habsent h
    exact ⟨hmethod, or_iff_not_imp_left.mpr (spelled_of_meets h hmethod)⟩
  · exact fun h => meets_of_given h.1 h.2

/-- `consul-kv -k=test -r` -/
def testRun : CommandLine where
  key := [ascii "test"]
  method := none
  recursive := true
  cas := none
  session := none
  flags := none
  cluster := none
  value := none
  host := none
  port := none
  key_required := List.cons_ne_nil _ _
  method_constraint := by simp
  key_text := by decide
  host_text := text_of_no_host

/-- `consul-kv -m=DELETE -k=a?recurse` -/
def pastedRun : CommandLine :=
  { testRun with
    key := [ascii "a?recurse"]
    method := some (ascii "DELETE")
    recursive := false
    key_required := List.cons_ne_nil _ _
    method_constraint := by decide
    key_text := by decide }

/-- With DELETE in the memory of `methodType` the first deletes all keys that begin with `test`; the
second deletes all that begin with `a`. -/
theorem consul_kv_test_deletes :
    (main .amd64 true ⟨.DELETE, fun _ _ => zeros⟩ (fun _ => .answered 200 []) testRun).requests =
        [⟨.Delete, ⟨ascii "http://127.0.0.1:8500/v1/kv/test?recurse", connectionClose, 1000⟩,
          some []⟩] ∧
      (main .amd64 true ⟨.GET, fun _ _ => zeros⟩ (fun _ => .answered 200 []) testRun).requests =
        [⟨.Get, ⟨ascii "http://127.0.0.1:8500/v1/kv/test?recurse", connectionClose, 1000⟩,
          none⟩] ∧
      ¬ MeetsCommandLine .amd64 testRun ∧
      (main .amd64 true ⟨.GET, fun _ _ => zeros⟩ (fun _ => .answered 200 []) pastedRun).requests =
        [⟨.Delete, ⟨ascii "http://127.0.0.1:8500/v1/kv/a?recurse", connectionClose, 1000⟩,
          some []⟩] ∧
      ¬ MeetsCommandLine .amd64 pastedRun := by
  refine ⟨by decide +kernel, by decide +kernel, not_meets_of_absent rfl, by decide +kernel, ?_⟩
  intro hmeets
  have hspelled := spelled_of_meets hmeets (by decide) (fun hrefused => by cases hrefused.1)
  have hpasted : pastedRun.pasted (ascii "a?recurse") = chr '?' :: ascii "recurse" := by
    decide +kernel
  have hspells := hspelled (ascii "a?recurse") List.mem_cons_self
  rw [hpasted, spells_open_iff .amd64 (by decide +kernel)] at hspells
  exact absurd (hspells.recurse.mp (by decide +kernel)).1 (by decide)

end PgConsul.Playground
