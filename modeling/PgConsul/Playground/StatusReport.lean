import PgConsul.Consul.Explanations
import PgConsul.Foundations.Lines
import PgConsul.Json11.DumpRoundTrip
import PgConsul.Playground.ConsulStatus

/-! # What consul-status prints

A program that reads the report about the agent takes a line apart at its first `=`: in front of it
stands a name of the tables, behind it the JSON text of the member the name stands for.
-/
namespace PgConsul.Playground.ConsulStatus
set_option autoImplicit false
open Foundations Consul Cpr Json11 Extension

/-! ## Names and members -/

/-- A name of the report and the keys that lead to its member. -/
structure Entry where
  oid : Bytes
  keys : List Bytes

def Entry.value (e : Entry) (json : Json) : Json := e.keys.foldl subscript json

/-- The names of a table behind a path, for the members of the object the keys lead to. -/
structure Group where
  table : ConsulOidLookupMapT
  path : ConsulPrefixT
  keys : List Bytes

def oidIn (path : ConsulPrefixT) (oidName : Bytes) : Bytes :=
  (ascii ".").intercalate path ++ ascii "." ++ oidName

def Group.entries (g : Group) : List Entry :=
  g.table.entries.map fun kv => ⟨oidIn g.path kv.2, g.keys ++ [kv.1]⟩

def selfGroups : List Group :=
  let root := [ascii "consul", ascii "agent", ascii "status"]
  let config := root ++ [ascii "config"]
  let member := root ++ [ascii "member"]
  [⟨configConsulConfigToOidMap, config, [ascii "Config"]⟩,
    ⟨configConsulConfigDnsToOidMap, config ++ [ascii "dns_config"],
      [ascii "Config", ascii "DNSConfig"]⟩,
    ⟨configConsulConfigAdvertiseAddrsToOidMap, config ++ [ascii "advertise_addrs"],
      [ascii "Config", ascii "AdvertiseAddrs"]⟩,
    ⟨configConsulConfigPortsToOidMap, config ++ [ascii "ports"], [ascii "Config", ascii "Ports"]⟩,
    ⟨configConsulConfigAddressesToOidMap, config ++ [ascii "addresses"],
      [ascii "Config", ascii "Addresses"]⟩,
    ⟨configConsulConfigUnixSocketsToOidMap, config ++ [ascii "unix_sockets"],
      [ascii "Config", ascii "UnixSockets"]⟩,
    ⟨configConsulCoordToOidMap, root ++ [ascii "coord"], [ascii "Coord"]⟩,
    ⟨configConsulMemberToOidMap, member, [ascii "Member"]⟩,
    ⟨configConsulMemberTagsToOidMap, member ++ [ascii "tags"], [ascii "Member", ascii "Tags"]⟩]

def selfEntries : List Entry := selfGroups.flatMap Group.entries

/-! ## The names are distinct -/

/-- What a part of a name must not hold: the marks between parts, names, values and lines. -/
def Clean (part : Bytes) : Prop := chr '.' ∉ part ∧ chr '=' ∉ part ∧ chr '\n' ∉ part

instance (part : Bytes) : Decidable (Clean part) := inferInstanceAs (Decidable (_ ∧ _ ∧ _))

theorem oidIn_dot {path : ConsulPrefixT} (h : path ≠ []) (oidName : Bytes) :
    oidIn path oidName ++ [chr '.'] = (path ++ [oidName]).flatMap fun part => part ++ [chr '.'] := by
  have hdot : ascii "." = [chr '.'] := rfl
  have hpath : (ascii ".").intercalate path ++ ascii "." =
      path.flatMap fun part => part ++ [chr '.'] := by
    rw [hdot]
    induction path with
    | nil => exact absurd rfl h
    | cons part path ih =>
      cases path with
      | nil => simp
      | cons part' path =>
        rw [List.intercalate_cons_cons, List.flatMap_cons, ← ih (List.cons_ne_nil _ _)]
        simp
  rw [oidIn, hpath]
  simp

/-- A name tells its path and its last part. -/
theorem oidIn_inj {path path' : ConsulPrefixT} {oidName oidName' : Bytes} (hne : path ≠ [])
    (hne' : path' ≠ []) (hpath : ∀ part ∈ path ++ [oidName], chr '.' ∉ part)
    (hpath' : ∀ part ∈ path' ++ [oidName'], chr '.' ∉ part)
    (h : oidIn path oidName = oidIn path' oidName') : path = path' ∧ oidName = oidName' := by
  have hparts := congrArg (fun oid => readLines (chr '.') (oid ++ [chr '.'])) h
  simp only [oidIn_dot hne, oidIn_dot hne', readLines_flatMap hpath, readLines_flatMap hpath'] at hparts
  exact List.append_singleton_inj.mp hparts

/-- The paths differ, and a table has each name once. -/
theorem selfGroups_distinct : (selfGroups.map Group.path).Nodup ∧
    ∀ g ∈ selfGroups, g.path ≠ [] ∧ (g.table.entries.map Prod.snd).Nodup := by decide +kernel

theorem selfGroups_clean :
    ∀ g ∈ selfGroups, (∀ part ∈ g.path, Clean part) ∧ ∀ kv ∈ g.table.entries, Clean kv.2 := by
  decide +kernel

theorem mem_entries {g : Group} {e : Entry} (h : e ∈ g.entries) :
    ∃ kv ∈ g.table.entries, e.oid = oidIn g.path kv.2 := by
  obtain ⟨kv, hkv, rfl⟩ := List.mem_map.mp h
  exact ⟨kv, hkv, rfl⟩

/-- Every part of a name of the report is clean. -/
theorem parts_clean {g : Group} (hg : g ∈ selfGroups) {kv : Bytes × Bytes}
    (hkv : kv ∈ g.table.entries) : ∀ part ∈ g.path ++ [kv.2], Clean part := by
  obtain ⟨hpath, hnames⟩ := selfGroups_clean g hg
  intro part hpart
  rcases List.mem_append.mp hpart with hpart | hpart
  · exact hpath part hpart
  · rw [List.mem_singleton.mp hpart]
    exact hnames kv hkv

theorem oids_nodup : (selfEntries.map Entry.oid).Nodup := by
  obtain ⟨hpaths, hgroups⟩ := selfGroups_distinct
  have hdot : ∀ g ∈ selfGroups, ∀ kv ∈ g.table.entries, ∀ part ∈ g.path ++ [kv.2],
      chr '.' ∉ part := fun g hg kv hkv part hpart => (parts_clean hg hkv part hpart).1
  rw [selfEntries, List.map_flatMap, List.nodup_flatMap]
  constructor
  · intro g hg
    obtain ⟨hne, hnames⟩ := hgroups g hg
    rw [Group.entries, List.map_map]
    refine List.Nodup.map_on ?_ hnames.of_map
    intro kv hkv kv' hkv' heq
    have hname := (oidIn_inj hne hne (hdot g hg kv hkv) (hdot g hg kv' hkv') heq).2
    exact List.inj_on_of_nodup_map hnames hkv hkv' hname
  · refine (List.pairwise_map.mp hpaths).imp_of_mem ?_
    intro g g' hg hg' hne oid hoid hoid'
    obtain ⟨e, he, rfl⟩ := List.mem_map.mp hoid
    obtain ⟨e', he', heq⟩ := List.mem_map.mp hoid'
    obtain ⟨kv, hkv, hkey⟩ := mem_entries he
    obtain ⟨kv', hkv', hkey'⟩ := mem_entries he'
    rw [hkey, hkey'] at heq
    exact hne (oidIn_inj (hgroups g' hg').1 (hgroups g hg).1 (hdot g' hg' kv' hkv')
      (hdot g hg kv hkv) heq).1.symm

theorem oids_clean {e : Entry} (h : e ∈ selfEntries) : chr '=' ∉ e.oid ∧ chr '\n' ∉ e.oid := by
  obtain ⟨g, hg, he⟩ := List.mem_flatMap.mp h
  obtain ⟨kv, hkv, hoid⟩ := mem_entries he
  have hparts := parts_clean hg hkv
  have hin : ∀ b ∈ e.oid, b = chr '.' ∨ ∃ part ∈ g.path ++ [kv.2], b ∈ part := by
    intro b hb
    have hmem : b ∈ oidIn g.path kv.2 ++ [chr '.'] := List.mem_append_left _ (hoid ▸ hb)
    rw [oidIn_dot (selfGroups_distinct.2 g hg).1, List.mem_flatMap] at hmem
    obtain ⟨part, hpart, hb⟩ := hmem
    rcases List.mem_append.mp hb with hb | hb
    · exact .inr ⟨part, hpart, hb⟩
    · exact .inl (List.mem_singleton.mp hb)
  have hmarks : chr '=' ≠ chr '.' ∧ chr '\n' ≠ chr '.' := by decide
  constructor
  · intro hmem
    rcases hin _ hmem with hb | ⟨part, hpart, hb⟩
    · exact hmarks.1 hb
    · exact (hparts part hpart).2.1 hb
  · intro hmem
    rcases hin _ hmem with hb | ⟨part, hpart, hb⟩
    · exact hmarks.2 hb
    · exact (hparts part hpart).2.2 hb

/-! ## The lines -/

def Entry.line (json : Json) (e : Entry) : Bytes := e.oid ++ chr '=' :: dump (e.value json)

theorem statusLines_eq (g : Group) (json : Json) :
    statusLines g.table (g.keys.foldl subscript json) g.path =
      g.entries.map (Entry.line json) := by
  have hequals : ascii "=" = [chr '='] := rfl
  rw [statusLines, Group.entries, List.map_map]
  refine List.map_congr_left fun kv _ => ?_
  simp [formatConsulOidFullValue, Entry.line, Entry.value, oidIn, hequals]

theorem printSelf_eq {text : Bytes} {json : Json} (h : parseText text = .ok json) :
    printSelf text = .ok { lines := selfEntries.map (Entry.line json) } := by
  have hparse := parse_of_parseText h []
  rw [selfEntries, List.map_flatMap, show (fun g : Group => g.entries.map (Entry.line json)) =
    fun g => statusLines g.table (g.keys.foldl subscript json) g.path from
      funext fun g => (statusLines_eq g json).symm]
  simp only [printSelf, hparse, ne_eq, not_true_eq_false, if_false, selfGroups, List.flatMap_cons,
    List.flatMap_nil, List.append_nil, List.append_assoc, List.foldl_cons, List.foldl_nil,
    statusSelfConfig, statusSelfConfigDns, statusSelfConfigAdvertiseAddrs, statusSelfConfigPorts,
    statusSelfConfigAddresses, statusSelfConfigUnixSockets, statusSelfCoord, statusSelfMember,
    statusSelfMemberTags, appendPrefix]

/-! ## Reading the report -/

/-- The names and values of a report. -/
def readReport (output : Bytes) : List (Bytes × Bytes) :=
  (readLines (chr '\n') output).map fun line =>
    (line.takeWhile (· ≠ chr '='), (line.dropWhile (· ≠ chr '=')).drop 1)

theorem readReport_written (json : Json) :
    readReport (written (selfEntries.map (Entry.line json))) =
      selfEntries.map fun e => (e.oid, dump (e.value json)) := by
  have hnewline : chr '\n' ≠ chr '=' := by decide
  have hlines : ∀ line ∈ selfEntries.map (Entry.line json), chr '\n' ∉ line := by
    intro line hline
    obtain ⟨e, he, rfl⟩ := List.mem_map.mp hline
    simp only [Entry.line, List.mem_append, List.mem_cons, not_or]
    exact ⟨(oids_clean he).2, hnewline, (dump_printable _).not_newline⟩
  rw [readReport, written, readLines_flatMap hlines, List.map_map]
  refine List.map_congr_left fun e he => ?_
  obtain ⟨htake, hdrop⟩ := cut_sep (oids_clean he).1 (dump (e.value json))
  rw [Function.comp_apply, Entry.line, htake, hdrop, List.drop_one, List.tail_cons]

theorem lookup_map_of_nodup {α : Type} {key value : α → Bytes} {l : List α}
    (h : (l.map key).Nodup) {a : α} (ha : a ∈ l) :
    (l.map fun a => (key a, value a)).lookup (key a) = some (value a) := by
  induction l with
  | nil => cases ha
  | cons b l ih =>
    rw [List.map_cons, List.nodup_cons] at h
    rw [List.map_cons, List.lookup_cons]
    rcases List.mem_cons.mp ha with rfl | ha
    · rw [beq_self_eq_true]
    · have hne : key a ≠ key b := by
        intro heq
        exact h.1 (heq ▸ List.mem_map_of_mem ha)
      rw [beq_false_of_ne hne]
      exact ih h.2 ha

/-! ## Members of what was read -/

theorem subscript_cases (json : Json) (key : Bytes) :
    subscript json key = .null ∨
      ∃ values, json = .object values ∧ (key, subscript json key) ∈ values := by
  unfold subscript
  cases hfind : find key json.objectItems with
  | none => exact .inl rfl
  | some v =>
    have hmem : (key, v) ∈ json.objectItems := by
      rw [find, List.lookup_eq_some_iff] at hfind
      obtain ⟨front, behind, hitems, -⟩ := hfind
      rw [hitems]
      simp
    cases json with
    | object values => exact .inr ⟨values, rfl, hmem⟩
    | null | double | int | bool | string | array => cases hmem

theorem ordered_subscript {json : Json} (h : Ordered json) (key : Bytes) :
    Ordered (subscript json key) := by
  rcases subscript_cases json key with hnull | ⟨values, rfl, hmem⟩
  · rw [hnull]
    exact .null
  · cases h with
    | object hmembers _ => exact hmembers _ hmem

theorem within_subscript {levels : ℕ} {json : Json} (h : Within (levels + 1) json) (key : Bytes) :
    Within (levels + 1) (subscript json key) := by
  rcases subscript_cases json key with hnull | ⟨values, rfl, hmem⟩
  · rw [hnull]
    trivial
  · exact (h _ hmem).succ

theorem value_read {json : Json} {levels : ℕ} (h : Ordered json ∧ Within (levels + 1) json)
    (keys : List Bytes) :
    Ordered (keys.foldl subscript json) ∧ Within (levels + 1) (keys.foldl subscript json) := by
  induction keys generalizing json with
  | nil => exact h
  | cons key keys ih => exact ih ⟨ordered_subscript h.1 key, within_subscript h.2 key⟩

/-! ## The report about the agent -/

/-- The report has every name of the tables once, and under a name the text of its member: it reads
back equal exactly when the numbers in it are finite. -/
structure Reports (output : Bytes) (json : Json) : Prop where
  names : (readReport output).map Prod.fst = selfEntries.map Entry.oid
  distinct : (selfEntries.map Entry.oid).Nodup
  values : ∀ e ∈ selfEntries, ∃ t, (readReport output).lookup e.oid = some t ∧
    ((∃ v, parseText t = .ok v ∧ equals v (e.value json) = true) ↔ FiniteNumbers (e.value json))

/-- **The report about the agent reads back**, whatever JSON text the agent answers. -/
theorem self_report_reads_back (network : Network) (agent : Agent) {body : Bytes} {json : Json}
    (hanswer : network (statusSelf network agent).request = .answered 200 body)
    (hparse : parseText (parseResponse body) = .ok json) :
    (statusSelf network agent).exit = .EX_OK ∧
      Reports (written (statusSelf network agent).lines) json := by
  have hrequest : (statusSelf network agent).request = (getFrom network agent.selfUrl []).1 := by
    unfold statusSelf fetch
    cases (getFrom network agent.selfUrl []).2 <;> grind
  have hresponse := get_answered (hrequest ▸ hanswer)
  have hstatus : statusSelf network agent =
      ⟨{ lines := selfEntries.map (Entry.line json) }, (getFrom network agent.selfUrl []).1,
        agent.selfUrl.2, .EX_OK⟩ := by
    unfold statusSelf fetch
    simp only [getFrom] at hresponse ⊢
    rw [hresponse]
    simp only [ne_eq, not_true_eq_false, if_false, printSelf_eq hparse]
  rw [hstatus]
  refine ⟨rfl, ?_, oids_nodup, fun e he => ⟨dump (e.value json), ?_, ?_⟩⟩
  · rw [readReport_written, List.map_map]
    rfl
  · rw [readReport_written]
    exact lookup_map_of_nodup oids_nodup he
  · obtain ⟨hordered, hwithin⟩ := value_read (parseText_ordered hparse) e.keys
    exact reads_back_iff_finite hwithin hordered

/-- An agent in `dc1` that says where it serves DNS. -/
def selfBody : Bytes :=
  ascii "\x7b\"Config\": \x7b\"Datacenter\": \"dc1\", \"Ports\": \x7b\"DNS\": 8600\x7d\x7d\x7d"

def selfJson : Json :=
  .object [(ascii "Config", .object [(ascii "Datacenter", .string (ascii "dc1")),
    (ascii "Ports", .object [(ascii "DNS", .int 8600)])])]

theorem self_report_reads_back_dc1 :
    (statusSelf (fun _ => .answered 200 selfBody) {}).exit = .EX_OK ∧
      Reports (written (statusSelf (fun _ => .answered 200 selfBody) {}).lines) selfJson :=
  self_report_reads_back (fun _ => .answered 200 selfBody) {} rfl (by decide +kernel)

end PgConsul.Playground.ConsulStatus
