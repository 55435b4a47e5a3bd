import PgConsul.Extension.KvGetResponse
import PgConsul.Extension.SetReturning
import PgConsul.Extension.StatusPeers

/-! # The two set-returning functions

`pg_consul_v1_kv_get` and `pg_consul_v1_status_peers` differ in what the first call loads and in the
buffers a later call fills, one for each declared OUT column. The four numbers of a pair are 64 bits
without a sign, and their columns are `INT8`.
-/
namespace PgConsul.Extension
set_option autoImplicit false
open Foundations Consul Cpr

/-! ## Buffers -/

namespace Buffer

def palloc (size : ℕ) (memory : Memory) : Buffer := ⟨size, memory⟩

/-- `s.copy(buffer, s.size())` -/
def copy (buffer : Buffer) (s : Bytes) : Buffer :=
  { buffer with bytes := place s fun i => buffer.bytes (i + s.length) }

def set (buffer : Buffer) (i : ℕ) (byte : UInt8) : Buffer :=
  { buffer with bytes := Function.update buffer.bytes i byte }

/-- The buffer of a string column. -/
def ofString (memory : Memory) (s : Bytes) : Buffer :=
  ((palloc (s.length + 1) memory).copy s).set s.length 0

/-- The buffer of the leader column; `sizeof("f")` counts the NUL. -/
def ofLeader (memory : Memory) (leader : Bool) : Buffer :=
  ((palloc 2 memory).set 0 (if leader then chr 't' else chr 'f')).set 1 0

theorem contents_ofString (memory : Memory) (s : Bytes) :
    (ofString memory s).contents = s ++ [0] := by
  have hcopied : (List.range s.length).map (ofString memory s).bytes = s := by
    conv_rhs => rw [← map_range_place s fun i => memory (i + s.length)]
    refine List.map_congr_left fun i hi => ?_
    exact Function.update_of_ne (List.mem_range.mp hi).ne _ _
  have hlast : (ofString memory s).bytes s.length = 0 := Function.update_self _ _ _
  rw [contents, show (ofString memory s).size = s.length + 1 from rfl, List.range_succ,
    List.map_append, hcopied, List.map_singleton, hlast]

theorem contents_ofLeader (memory : Memory) (leader : Bool) :
    (ofLeader memory leader).contents = (if leader then ascii "t" else ascii "f") ++ [0] := by
  cases leader <;> rfl

end Buffer

/-! ## Tuples -/

/-- The types of the OUT columns. -/
inductive ColumnType where
  | TEXT
  | INT4
  | INT8
  | BOOL

/-- What the input function of a type raises on a C string. -/
abbrev InputFunctions := ColumnType → Bytes → Option PgError

/-- `BuildTupleFromCStrings` calls the input functions from the first column to the last. -/
def buildTupleFromCStrings (inputs : InputFunctions) (types : List ColumnType)
    (values : List (Option Bytes)) : Option PgError :=
  (types.zip values).findSome? fun column => column.2.bind (inputs column.1)

/-- The documented ranges of the types, on the texts of this extension. -/
structure InputFunctions.Documented (inputs : InputFunctions) : Prop where
  text : ∀ s, inputs .TEXT s = none
  int4 : ∀ n, inputs .INT4 (decimal n) = none ↔ n < 2 ^ 31
  int8 : ∀ n, inputs .INT8 (decimal n) = none ↔ n < 2 ^ 63
  bool : ∀ b : Bool, inputs .BOOL (if b then ascii "t" else ascii "f") = none

theorem buildTupleFromCStrings_none_iff {inputs : InputFunctions} {types : List ColumnType}
    {values : List (Option Bytes)} :
    buildTupleFromCStrings inputs types values = none ↔
      ∀ column ∈ types.zip values, column.2.bind (inputs column.1) = none := by
  rw [buildTupleFromCStrings, List.findSome?_eq_none_iff]

/-- What the two functions are called with. -/
structure Invocation where
  newContext : MemoryContext
  composite : Bool
  network : Network
  /-- What the memory of each column buffer holds before it is filled. -/
  memory : ℕ → Memory

/-! ## consul_kv_get -/

def PG_CONSUL_KV1_GET_COUMN_KEY : ℕ := 0
def PG_CONSUL_KV1_GET_COUMN_VALUE : ℕ := 1
def PG_CONSUL_KV1_GET_COUMN_FLAGS : ℕ := 2
def PG_CONSUL_KV1_GET_COUMN_CREATE_IDX : ℕ := 3
def PG_CONSUL_KV1_GET_COUMN_MODIFY_IDX : ℕ := 4
def PG_CONSUL_KV1_GET_COUMN_LOCK_IDX : ℕ := 5
def PG_CONSUL_KV1_GET_COUMN_SESSION : ℕ := 6
def PG_CONSUL_KV1_GET_NUM_COLUMNS : ℕ := 7

/-- The OUT columns of `consul_kv_get`. -/
inductive KvColumn where
  | key
  | value
  | flags
  | create_index
  | modify_index
  | lock_index
  | session

/-- In the order of the declaration. -/
def KvColumn.declared : List KvColumn :=
  [.key, .value, .flags, .create_index, .modify_index, .lock_index, .session]

def KvColumn.type : KvColumn → ColumnType
  | key | value | session => .TEXT
  | flags | create_index | modify_index | lock_index => .INT8

def KvColumn.text (kvp : KVPair) : KvColumn → Bytes
  | key => kvp.key
  | value => kvp.value
  | flags => decimal kvp.flags.toNat
  | create_index => decimal kvp.createIndex.toNat
  | modify_index => decimal kvp.modifyIndex.toNat
  | lock_index => decimal kvp.lockIndex.toNat
  | session => kvp.session

/-- The `values` of a row, filled in the order of the source. -/
def kvGetValues (memory : ℕ → Memory) (kvp : KVPair) : List (Option Buffer) :=
  let values := List.replicate PG_CONSUL_KV1_GET_NUM_COLUMNS none
  let put (values : List (Option Buffer)) (column : ℕ) (s : Bytes) :=
    values.set column (some (.ofString (memory column) s))
  let values := put values PG_CONSUL_KV1_GET_COUMN_KEY kvp.key
  let values := put values PG_CONSUL_KV1_GET_COUMN_VALUE kvp.value
  let values := put values PG_CONSUL_KV1_GET_COUMN_FLAGS (indexStr kvp.flags)
  let values := put values PG_CONSUL_KV1_GET_COUMN_CREATE_IDX (indexStr kvp.createIndex)
  let values := put values PG_CONSUL_KV1_GET_COUMN_LOCK_IDX (indexStr kvp.lockIndex)
  let values := put values PG_CONSUL_KV1_GET_COUMN_MODIFY_IDX (indexStr kvp.modifyIndex)
  put values PG_CONSUL_KV1_GET_COUMN_SESSION kvp.session

structure KvGetCall extends Invocation where
  args : KvGetArgs
  /-- What the memory of the new pairs holds. -/
  pairs : ℕ → Indeterminate

def kvGet (platform : Platform) (inputs : InputFunctions) : SetReturning KvGetCall KVPair where
  newContext c := c.newContext
  composite c := c.composite
  load c := v1KvGet platform c.network c.pairs c.args
  values c := kvGetValues c.memory
  build := buildTupleFromCStrings inputs (KvColumn.declared.map KvColumn.type)

theorem contents_kvGetValues (memory : ℕ → Memory) (kvp : KVPair) :
    (kvGetValues memory kvp).map (Option.map Buffer.contents) =
      KvColumn.declared.map fun c => some (c.text kvp ++ [0]) := by
  simp [kvGetValues, PG_CONSUL_KV1_GET_NUM_COLUMNS, PG_CONSUL_KV1_GET_COUMN_KEY,
    PG_CONSUL_KV1_GET_COUMN_VALUE, PG_CONSUL_KV1_GET_COUMN_FLAGS,
    PG_CONSUL_KV1_GET_COUMN_CREATE_IDX, PG_CONSUL_KV1_GET_COUMN_MODIFY_IDX,
    PG_CONSUL_KV1_GET_COUMN_LOCK_IDX, PG_CONSUL_KV1_GET_COUMN_SESSION, List.replicate,
    Buffer.contents_ofString, indexStr, Boost.lcastPutUnsigned_eq, KvColumn.declared, KvColumn.text]

def kvColumns (kvp : KVPair) : List Bytes :=
  [(kvRow kvp).key, (kvRow kvp).value, (kvRow kvp).flags, (kvRow kvp).createIndex,
    (kvRow kvp).modifyIndex, (kvRow kvp).lockIndex, (kvRow kvp).session]

/-- `BuildTupleFromCStrings` reads the columns of `kvRow` out of the buffers. -/
theorem kvRow_of_kvGetValues (memory : ℕ → Memory) (kvp : KVPair) :
    cells (kvGetValues memory kvp) = (kvColumns kvp).map some := by
  have hread := congrArg (List.map (Option.map cStr)) (contents_kvGetValues memory kvp)
  simp only [List.map_map, Option.map_comp_map] at hread
  refine Eq.trans hread ?_
  simp [kvColumns, KvColumn.declared, KvColumn.text, kvRow, column, indexStr,
    Boost.lcastPutUnsigned_eq]

/-- A first call that raises no error returns NULL for a NULL key, and loads pairs for any other:
at most one when it does not recurse. -/
theorem v1KvGet_ok {platform : Platform} {network : Network} {memory : ℕ → Indeterminate}
    {args : KvGetArgs} {agent : Agent} {loaded : Option (List KVPair)}
    (h : (v1KvGet platform network memory args agent).result = .ok loaded) :
    (args.key = none ∧ loaded = none) ∨
      ∃ keyp kvps, args.key = some keyp ∧ loaded = some kvps ∧
        (args.recurseParam = true ∨ kvps.length ≤ 1) := by
  unfold v1KvGet at h
  split at h
  · next hkey =>
    cases h
    exact .inl ⟨hkey, rfl⟩
  · next keyp hkey =>
    simp only at h
    split at h
    · cases h
    · split at h
      · cases h
      · split at h
        · cases h
        · split at h
          · cases h
          · next hfew =>
            cases h
            refine .inr ⟨keyp, _, hkey, rfl, ?_⟩
            rw [not_and_or, Bool.not_eq_true', Bool.not_eq_false, not_lt] at hfew
            exact hfew

theorem v1KvGet_nonrecursive {platform : Platform} {network : Network} {memory : ℕ → Indeterminate}
    {args : KvGetArgs} {agent : Agent} {kvps : List KVPair}
    (h : (v1KvGet platform network memory args agent).result = .ok (some kvps))
    (hrecurse : args.recurseParam = false) : kvps.length ≤ 1 := by
  rcases v1KvGet_ok h with ⟨-, hnone⟩ | ⟨keyp, pairs, -, hloaded, hfew⟩
  · cases hnone
  · cases hloaded
    rw [hrecurse] at hfew
    exact hfew.resolve_left Bool.false_ne_true

theorem v1KvGet_null_iff (platform : Platform) (network : Network) (memory : ℕ → Indeterminate)
    (args : KvGetArgs) (agent : Agent) :
    (v1KvGet platform network memory args agent).result = .ok none ↔ args.key = none := by
  constructor
  · intro h
    rcases v1KvGet_ok h with ⟨hkey, -⟩ | ⟨keyp, kvps, -, hloaded, -⟩
    · exact hkey
    · cases hloaded
  · intro hkey
    rw [v1KvGet, hkey]

/-! ## consul_status_peers -/

def PG_CONSUL_PEERS1_COLUMN_HOST : ℕ := 0
def PG_CONSUL_PEERS1_COLUMN_PORT : ℕ := 1
def PG_CONSUL_PEERS1_COLUMN_LEADER : ℕ := 2
def PG_CONSUL_PEERS1_NUM_COLUMNS : ℕ := 3

/-- The OUT columns of `consul_status_peers`. -/
inductive PeerColumn where
  | host
  | port
  | leader

def PeerColumn.declared : List PeerColumn := [.host, .port, .leader]

def PeerColumn.type : PeerColumn → ColumnType
  | host => .TEXT
  | port => .INT4
  | leader => .BOOL

def PeerColumn.text (peer : Peer) : PeerColumn → Bytes
  | host => peer.host
  | port => decimal peer.port.toNat
  | leader => if peer.leader then ascii "t" else ascii "f"

def statusPeersValues (memory : ℕ → Memory) (peer : Peer) : List (Option Buffer) :=
  let values := List.replicate PG_CONSUL_PEERS1_NUM_COLUMNS none
  let values := values.set PG_CONSUL_PEERS1_COLUMN_HOST
    (some (.ofString (memory PG_CONSUL_PEERS1_COLUMN_HOST) peer.host))
  let values := values.set PG_CONSUL_PEERS1_COLUMN_PORT
    (some (.ofString (memory PG_CONSUL_PEERS1_COLUMN_PORT) peer.portStr))
  values.set PG_CONSUL_PEERS1_COLUMN_LEADER
    (some (.ofLeader (memory PG_CONSUL_PEERS1_COLUMN_LEADER) peer.leader))

def statusPeers (inputs : InputFunctions) : SetReturning Invocation Peer where
  newContext c := c.newContext
  composite c := c.composite
  load c agent :=
    let r := v1StatusPeers c.network agent
    ⟨r.requests, r.agent, r.result.map some⟩
  values c := statusPeersValues c.memory
  build := buildTupleFromCStrings inputs (PeerColumn.declared.map PeerColumn.type)

theorem contents_statusPeersValues (memory : ℕ → Memory) (peer : Peer) :
    (statusPeersValues memory peer).map (Option.map Buffer.contents) =
      PeerColumn.declared.map fun c => some (c.text peer ++ [0]) := by
  simp [statusPeersValues, PG_CONSUL_PEERS1_NUM_COLUMNS, PG_CONSUL_PEERS1_COLUMN_HOST,
    PG_CONSUL_PEERS1_COLUMN_PORT, PG_CONSUL_PEERS1_COLUMN_LEADER, List.replicate,
    Buffer.contents_ofString, Buffer.contents_ofLeader, Peer.portStr, Boost.lcastPutUnsigned_eq,
    PeerColumn.declared, PeerColumn.text]

def peerColumns (peer : Peer) : List Bytes :=
  [(peerRow peer).host, (peerRow peer).port, (peerRow peer).leader]

theorem peerRow_of_statusPeersValues (memory : ℕ → Memory) (peer : Peer) :
    cells (statusPeersValues memory peer) = (peerColumns peer).map some := by
  have hread := congrArg (List.map (Option.map cStr)) (contents_statusPeersValues memory peer)
  simp only [List.map_map, Option.map_comp_map] at hread
  refine Eq.trans hread ?_
  simp [peerColumns, PeerColumn.declared, PeerColumn.text, peerRow, column, Peer.portStr,
    Boost.lcastPutUnsigned_eq]

/-! ## The rows of a run -/

/-- The numbers of the pair are in the range of `INT8`. -/
structure FitsInt8 (kvp : KVPair) : Prop where
  flags : kvp.flags.toNat < 2 ^ 63
  createIndex : kvp.createIndex.toNat < 2 ^ 63
  modifyIndex : kvp.modifyIndex.toNat < 2 ^ 63
  lockIndex : kvp.lockIndex.toNat < 2 ^ 63

theorem column_decimal (n : ℕ) : column (decimal n) = decimal n := by
  rw [column, cStr_append (not_mem_decimal (by decide) n)]
  exact List.append_nil _

section Documented
variable {inputs : InputFunctions} (h : inputs.Documented)
include h

/-- The row of a pair is built exactly when its numbers fit. -/
theorem kvGet_build_iff (platform : Platform) (kvp : KVPair) :
    (kvGet platform inputs).build ((kvColumns kvp).map some) = none ↔ FitsInt8 kvp := by
  rw [show (kvGet platform inputs).build = buildTupleFromCStrings inputs _ from rfl,
    buildTupleFromCStrings_none_iff]
  simp only [kvColumns, KvColumn.declared, KvColumn.type, kvRow, indexStr,
    Boost.lcastPutUnsigned_eq, column_decimal, List.map_cons, List.map_nil, List.zip_cons_cons,
    List.zip_nil_right, List.forall_mem_cons, List.not_mem_nil, false_implies, implies_true,
    and_true, Option.bind_some, h.text, h.int8, true_and]
  constructor
  · rintro ⟨hflags, hcreate, hmodify, hlock⟩
    exact ⟨hflags, hcreate, hmodify, hlock⟩
  · rintro ⟨hflags, hcreate, hmodify, hlock⟩
    exact ⟨hflags, hcreate, hmodify, hlock⟩

/-- Any other row is refused by the input function of `INT8`. -/
theorem kvGet_refused (platform : Platform) {kvp : KVPair} (hbig : ¬ FitsInt8 kvp) :
    ∃ n e, 2 ^ 63 ≤ n ∧ inputs .INT8 (decimal n) = some e ∧
      (kvGet platform inputs).build ((kvColumns kvp).map some) = some e := by
  rw [← kvGet_build_iff h platform kvp, ← ne_eq, Option.ne_none_iff_exists'] at hbig
  obtain ⟨e, hbuild⟩ := hbig
  have hint8 : ∀ n : ℕ, inputs .INT8 (decimal n) = some e →
      ∃ n e', 2 ^ 63 ≤ n ∧ inputs .INT8 (decimal n) = some e' ∧
        (kvGet platform inputs).build ((kvColumns kvp).map some) = some e' := by
    intro n hn
    refine ⟨n, e, not_lt.mp fun hlt => ?_, hn, hbuild⟩
    rw [(h.int8 n).mpr hlt] at hn
    cases hn
  obtain ⟨column, hcolumn, hraised⟩ := List.exists_of_findSome?_eq_some hbuild
  simp only [kvColumns, KvColumn.declared, KvColumn.type, kvRow, indexStr,
    Boost.lcastPutUnsigned_eq, column_decimal, List.map_cons, List.map_nil, List.zip_cons_cons,
    List.zip_nil_right, List.mem_cons, List.not_mem_nil, or_false] at hcolumn
  rcases hcolumn with rfl | rfl | rfl | rfl | rfl | rfl | rfl
  case inr.inr.inl | inr.inr.inr.inl | inr.inr.inr.inr.inl | inr.inr.inr.inr.inr.inl =>
    exact hint8 _ hraised
  case inl | inr.inl | inr.inr.inr.inr.inr.inr =>
    rw [Option.bind_some, h.text] at hraised
    cases hraised

/-- The row of a peer is always built: a port has 16 bits. -/
theorem statusPeers_build (peer : Peer) :
    (statusPeers inputs).build ((peerColumns peer).map some) = none := by
  have hport : inputs .INT4 (decimal peer.port.toNat) = none :=
    (h.int4 _).mpr (peer.port.toNat_lt.trans (by norm_num))
  have hleader : column (if peer.leader then ascii "t" else ascii "f") =
      if peer.leader then ascii "t" else ascii "f" := by
    cases peer.leader <;> rfl
  rw [show (statusPeers inputs).build = buildTupleFromCStrings inputs _ from rfl,
    buildTupleFromCStrings_none_iff]
  simp only [peerColumns, PeerColumn.declared, PeerColumn.type, peerRow, Peer.portStr,
    Boost.lcastPutUnsigned_eq, column_decimal, hleader, List.map_cons, List.map_nil,
    List.zip_cons_cons, List.zip_nil_right, List.forall_mem_cons, List.not_mem_nil, false_implies,
    implies_true, and_true, Option.bind_some, h.text, hport, h.bool]

end Documented

/-- A run returns each loaded element once exactly when all are in range, and a row is the texts of
its columns, each behind one NUL. -/
structure EmitsRows {ι α : Type} (f : SetReturning ι α) (columns : α → List Bytes)
    (inRange : α → Prop) : Prop where
  once_iff : ∀ (first : ι) (s : SrfState α) (objs : List α), SetReturning.Loads f first s objs →
    ∀ later : List ι, later.length = objs.length →
      (SetReturning.EmitsOnce f s first later objs ↔ ∀ obj ∈ objs, inRange obj)
  rows : ∀ (i : ι) (obj : α), (f.values i obj).map (Option.map Buffer.contents) =
    (columns obj).map fun text => some (text ++ [0])

/-- Whether the rows are built is up to the elements alone. -/
theorem emitsOnce_iff_inRange {ι α : Type} {f : SetReturning ι α} {columns : α → List Bytes}
    {inRange : α → Prop} (hwrites : ∀ i obj, cells (f.values i obj) = (columns obj).map some)
    (hbuild : ∀ obj, f.build ((columns obj).map some) = none ↔ inRange obj) {first : ι}
    {s : SrfState α} {objs : List α} (h : SetReturning.Loads f first s objs) {later : List ι}
    (hlater : later.length = objs.length) :
    SetReturning.EmitsOnce f s first later objs ↔ ∀ obj ∈ objs, inRange obj := by
  rw [h.emitsOnce_iff hlater]
  constructor
  · intro hbuilds obj hobj
    obtain ⟨j, hj⟩ := List.mem_iff_getElem?.mp hobj
    have hobjs : j < objs.length := (List.getElem?_eq_some_iff.mp hj).1
    have hcall : j < (first :: later).length := by
      rw [List.length_cons, hlater]
      omega
    have hzip : ((first :: later)[j], obj) ∈ (first :: later).zip objs :=
      List.mem_iff_getElem?.mpr
        ⟨j, List.getElem?_zip_eq_some.mpr ⟨List.getElem?_eq_getElem hcall, hj⟩⟩
    rw [← hbuild obj, ← hwrites]
    exact hbuilds _ hzip
  · intro hall p hp
    rw [hwrites, hbuild]
    exact hall _ (List.of_mem_zip hp).2

/-- **`consul_status_peers` returns the elements it loaded, each once and in order, in the columns of
its declaration, and `consul_kv_get` does so exactly when all their numbers fit their columns.** -/
theorem set_returning_emits_rows_iff (platform : Platform) {inputs : InputFunctions}
    (h : inputs.Documented) :
    EmitsRows (kvGet platform inputs) (fun kvp => KvColumn.declared.map (KvColumn.text kvp))
        FitsInt8 ∧
      EmitsRows (statusPeers inputs) (fun peer => PeerColumn.declared.map (PeerColumn.text peer))
        (fun _ => True) ∧
      ∀ (call : KvGetCall) (s : SrfState KVPair) (kvps : List KVPair),
        SetReturning.Loads (kvGet platform inputs) call s kvps → call.args.recurseParam = false →
          kvps.length ≤ 1 := by
  refine ⟨⟨fun _ _ _ hloads _ hlater => ?_, fun i kvp => ?_⟩,
    ⟨fun _ _ _ hloads _ hlater => ?_, fun i peer => ?_⟩,
    fun _ _ _ hloads hrecurse => v1KvGet_nonrecursive hloads.loaded hrecurse⟩
  · exact emitsOnce_iff_inRange (fun i kvp => kvRow_of_kvGetValues i.memory kvp)
      (kvGet_build_iff h platform) hloads hlater
  · rw [List.map_map]
    exact contents_kvGetValues i.memory kvp
  · exact emitsOnce_iff_inRange (fun i peer => peerRow_of_statusPeersValues i.memory peer)
      (fun peer => iff_true_intro (statusPeers_build h peer)) hloads hlater
  · rw [List.map_map]
    exact contents_statusPeersValues i.memory peer

/-! ## Runs -/

/-- What the server raises on a numeral that is too large for the type. -/
def outOfRange (type s : Bytes) : PgError :=
  ⟨.NUMERIC_VALUE_OUT_OF_RANGE,
    ascii "value \"" ++ s ++ ascii "\" is out of range for type " ++ type⟩

/-- The input functions of a server, on numerals and the letters of a truth value. -/
def inputFunctions : InputFunctions
  | .TEXT, _ | .BOOL, _ => none
  | .INT4, s => if numeral s < 2 ^ 31 then none else some (outOfRange (ascii "integer") s)
  | .INT8, s => if numeral s < 2 ^ 63 then none else some (outOfRange (ascii "bigint") s)

theorem inputFunctions_documented : inputFunctions.Documented where
  text _ := rfl
  int4 n := by simp [inputFunctions, numeral_decimal]
  int8 n := by simp [inputFunctions, numeral_decimal]
  bool _ := rfl

/-- A call in context 1 under a query that accepts records. -/
def invocation (network : Network) : Invocation := ⟨1, true, network, fun _ _ => 0⟩

def statusCall : Invocation := invocation (statusNetwork (ascii "\"b:2\"") answerPeers)

def kvGetCall : KvGetCall :=
  ⟨invocation fun _ => .answered 200 answerVal, recurseA, fun _ => zeros⟩

theorem set_returning_emits_peers :
    SetReturning.EmitsOnce (statusPeers inputFunctions) { agent := {}, current := 0 } statusCall
        [statusCall, statusCall, statusCall]
        [⟨ascii "a", 1, false⟩, ⟨ascii "b", 2, true⟩, ⟨ascii "b", 2, false⟩] ∧
      SetReturning.EmitsOnce (kvGet .amd64 inputFunctions) { agent := {}, current := 0 } kvGetCall
        [kvGetCall] [⟨0, 0, 0, 0, ascii "a", [], ascii "val"⟩] := by
  obtain ⟨hkv, hpeers, -⟩ := set_returning_emits_rows_iff .amd64 inputFunctions_documented
  constructor
  · refine (hpeers.once_iff _ _ _ ⟨rfl, rfl, by decide +kernel, by decide⟩ _ rfl).mpr ?_
    exact fun _ _ => trivial
  · refine (hkv.once_iff _ _ _ ⟨rfl, rfl, by decide +kernel, by decide⟩ _ rfl).mpr ?_
    exact List.forall_mem_singleton.mpr ⟨by decide, by decide, by decide, by decide⟩

/-- Flags with a sign. -/
def flagsCall : KvGetCall :=
  { kvGetCall with
    network := fun _ => .answered 200 (ascii "[\x7b\"Key\": \"a\", \"Flags\": -1\x7d]") }

def flagsPair : KVPair := ⟨0, 0, 0, 18446744073709551615, ascii "a", [], []⟩

theorem flagsPair_refused :
    (kvGet .amd64 inputFunctions).build
        (cells ((kvGet .amd64 inputFunctions).values flagsCall flagsPair)) =
      some (outOfRange (ascii "bigint") (decimal 18446744073709551615)) := by
  have hcells : cells ((kvGet .amd64 inputFunctions).values flagsCall flagsPair) = _ :=
    kvRow_of_kvGetValues flagsCall.memory flagsPair
  have hflags : (kvRow flagsPair).flags = decimal 18446744073709551615 := by
    rw [kvRow, indexStr, Boost.lcastPutUnsigned_eq, column_decimal,
      show flagsPair.flags.toNat = 18446744073709551615 from rfl]
  rw [hcells, kvColumns, hflags]
  simp only [kvGet, buildTupleFromCStrings, KvColumn.declared, KvColumn.type, List.map_cons,
    List.zip_cons_cons, List.findSome?_cons, Option.bind_some, inputFunctions, numeral_decimal]
  rw [if_neg (by norm_num)]

/-- In 64 bits without a sign they are a number beyond `INT8`: the first call ends with the error of
its row. -/
theorem kv_get_flags_out_of_range :
    inputFunctions.Documented ∧
      SetReturning.Loads (kvGet .amd64 inputFunctions) flagsCall { agent := {}, current := 0 }
        [flagsPair] ∧
      ((kvGet .amd64 inputFunctions).call flagsCall { agent := {}, current := 0 }).2 =
        .error (outOfRange (ascii "bigint") (decimal 18446744073709551615)) ∧
      ¬ SetReturning.EmitsOnce (kvGet .amd64 inputFunctions) { agent := {}, current := 0 }
        flagsCall [flagsCall] [flagsPair] := by
  have hloads : SetReturning.Loads (kvGet .amd64 inputFunctions) flagsCall
      { agent := {}, current := 0 } [flagsPair] := ⟨rfl, rfl, by decide +kernel, by decide⟩
  refine ⟨inputFunctions_documented, hloads, ?_, fun hemits => ?_⟩
  · obtain ⟨s', -, hat, hcall, -⟩ := hloads.call_first
    have hobj : [flagsPair][0]? = some flagsPair := rfl
    rw [hcall]
    exact hat.call_error flagsCall hobj flagsPair_refused
  · have hbuilds := (hloads.emitsOnce_iff rfl).mp hemits
    rw [SetReturning.builds_cons, flagsPair_refused] at hbuilds
    cases hbuilds.1

end PgConsul.Extension
