import PgConsul.Extension.Functions
import PgConsul.Foundations.Machine

/-! # Set-returning functions

PostgreSQL calls a set-returning function again and again and keeps a context for it between the
calls. The first call builds the list of results in a context object of the function's own; every
call returns the element at the object's cursor, and the call behind the last element destructs the
object. `SRF_RETURN_NEXT` counts the rows in the server's half of the context.

A row is handed over as C strings, which the server gives to the input functions of the column
types. They may refuse a text, and then the call ends with their error.
-/
namespace PgConsul.Extension
set_option autoImplicit false
open Foundations Consul Cpr

/-! ## The protocol -/

/-- A memory context of the server. -/
abbrev MemoryContext := ℕ

/-- `ConsulGetFctx` and `ConsulPeersFctx`: the decoded list and the cursor into it. -/
structure Fctx (α : Type) where
  objs : List α
  iter : ℕ := 0

/-- What the server keeps between the calls, as `SRF_FIRSTCALL_INIT` makes it. -/
structure FuncCallContext (α : Type) where
  multiCallMemoryCtx : MemoryContext
  callCntr : UInt64 := 0
  maxCalls : UInt64 := 0
  userFctx : Option (Fctx α) := none

/-- A column buffer made by `palloc`. -/
structure Buffer where
  size : ℕ
  bytes : Memory

/-- What `palloc` made room for. -/
def Buffer.contents (buffer : Buffer) : Bytes := (List.range buffer.size).map buffer.bytes

/-- The C strings of a row. -/
def cells (values : List (Option Buffer)) : List (Option Bytes) :=
  values.map (Option.map fun buffer => cStr buffer.contents)

/-- What a call answers to the server; `undefined` is an access the language does not define. -/
inductive SrfReply where
  | next (values : List (Option Buffer))
  | done
  | null
  | unsupported (message : Bytes)
  | error (error : PgError)
  | undefined

structure SrfState (α : Type) where
  agent : Agent
  current : MemoryContext
  fnExtra : Option (FuncCallContext α) := none
  requests : List Request := []
  constructed : ℕ := 0
  destructed : ℕ := 0

/-- What differs between the two functions; `ι` is what a call is given. -/
structure SetReturning (ι α : Type) where
  newContext : ι → MemoryContext
  composite : ι → Bool
  load : ι → Agent → Called (Except PgError (Option (List α)))
  values : ι → α → List (Option Buffer)
  /-- What `BuildTupleFromCStrings` raises on a row. -/
  build : List (Option Bytes) → Option PgError

namespace SetReturning
variable {ι α : Type} (f : SetReturning ι α)

/-- The block of the first call, with the reply of an exit from it. -/
def firstCall (i : ι) (s : SrfState α) : SrfState α × Option SrfReply :=
  let funcctx : FuncCallContext α := { multiCallMemoryCtx := f.newContext i }
  let oldcontext := s.current
  let s := { s with fnExtra := some funcctx, current := funcctx.multiCallMemoryCtx }
  if !f.composite i then
    (s, some (.unsupported (ascii "function returning record called in context " ++
      ascii "that cannot accept type record")))
  else
    let r := f.load i s.agent
    let s := { s with
      agent := r.agent
      requests := s.requests ++ r.requests
      constructed := s.constructed + 1
      fnExtra := some { funcctx with userFctx := some { objs := [] } } }
    match r.result with
    | .error e => (s, some (.error e))
    | .ok none => (s, some .null)
    | .ok (some objs) =>
      ({ s with
        current := oldcontext
        fnExtra := some { funcctx with
          maxCalls := UInt64.ofNat objs.length
          userFctx := some { objs := objs } } }, none)

/-- What every call does behind that block. -/
def perCall (i : ι) (s : SrfState α) : SrfState α × SrfReply :=
  match s.fnExtra with
  | none => (s, .undefined)
  | some funcctx =>
    let callCntr := funcctx.callCntr.toUInt32
    let maxCalls := funcctx.maxCalls.toUInt32
    match funcctx.userFctx with
    | none => (s, .undefined)
    | some fctx =>
      if callCntr < maxCalls then
        match fctx.objs[fctx.iter]? with
        | none => (s, .undefined)
        | some obj =>
          let values := f.values i obj
          let funcctx := { funcctx with userFctx := some { fctx with iter := fctx.iter + 1 } }
          match f.build (cells values) with
          | some e => ({ s with fnExtra := some funcctx }, .error e)
          | none =>
            ({ s with fnExtra := some { funcctx with callCntr := funcctx.callCntr + 1 } },
              .next values)
      else ({ s with fnExtra := none, destructed := s.destructed + 1 }, .done)

/-- The state in which a call passes `SRF_PERCALL_SETUP`, or the reply of an earlier exit. -/
def entered (i : ι) (s : SrfState α) : SrfState α × Option SrfReply :=
  match s.fnExtra with
  | none => f.firstCall i s
  | some _ => (s, none)

def call (i : ι) (s : SrfState α) : SrfState α × SrfReply :=
  match f.entered i s with
  | (s, some reply) => (s, reply)
  | (s, none) => f.perCall i s

def machine : Machine (SrfState α) ι SrfReply := ⟨fun s i => f.call i s⟩

/-! ## The cursor -/

/-- Between two calls of a run: the cursor is behind as many rows as the server counted, and the
32-bit limit of the server is not passed. -/
structure Running (s : SrfState α) (funcctx : FuncCallContext α) (fctx : Fctx α) : Prop where
  context : s.fnExtra = some funcctx
  user : funcctx.userFctx = some fctx
  counted : funcctx.callCntr = UInt64.ofNat fctx.iter
  limit : funcctx.maxCalls = UInt64.ofNat fctx.objs.length
  within : fctx.iter ≤ fctx.objs.length % 2 ^ 32

/-- The context behind `k` rows of `objs`: the server's counter and the cursor agree. -/
structure At (objs : List α) (k : ℕ) (s : SrfState α) : Prop where
  within : k ≤ objs.length
  small : objs.length < 2 ^ 32
  context : ∃ funcctx, s.fnExtra = some funcctx ∧ funcctx.callCntr = UInt64.ofNat k ∧
    funcctx.maxCalls = UInt64.ofNat objs.length ∧ funcctx.userFctx = some ⟨objs, k⟩

variable {f} {objs : List α} {k : ℕ} {s : SrfState α}

theorem toUInt32_ofNat (n : ℕ) : (UInt64.ofNat n).toUInt32.toNat = n % 2 ^ 32 := by
  rw [UInt64.toNat_toUInt32, UInt64.toNat_ofNat']
  omega

section Running
variable {funcctx : FuncCallContext α} {fctx : Fctx α}

theorem Running.lt_iff (h : Running s funcctx fctx) :
    funcctx.callCntr.toUInt32 < funcctx.maxCalls.toUInt32 ↔
      fctx.iter < fctx.objs.length % 2 ^ 32 := by
  have hwithin := h.within
  have hlimit : fctx.objs.length % 2 ^ 32 < 2 ^ 32 := Nat.mod_lt _ (by norm_num)
  have hsmall : fctx.iter % 2 ^ 32 = fctx.iter := Nat.mod_eq_of_lt (by omega)
  rw [UInt32.lt_iff_toNat_lt, h.counted, h.limit, toUInt32_ofNat, toUInt32_ofNat, hsmall]

/-- Before the limit the cursor is at an element. -/
theorem exists_current (hlt : fctx.iter < fctx.objs.length % 2 ^ 32) :
    ∃ obj, fctx.objs[fctx.iter]? = some obj :=
  ⟨_, List.getElem?_eq_getElem (Nat.lt_of_lt_of_le hlt (Nat.mod_le _ _))⟩

/-- One row: the element at the cursor, and both counters move on. -/
theorem Running.perCall_next (h : Running s funcctx fctx) (i : ι)
    (hlt : fctx.iter < fctx.objs.length % 2 ^ 32) {obj : α}
    (hobj : fctx.objs[fctx.iter]? = some obj) (hbuild : f.build (cells (f.values i obj)) = none) :
    ∃ funcctx' : FuncCallContext α,
      f.perCall i s = ({ s with fnExtra := some funcctx' }, .next (f.values i obj)) ∧
        Running { s with fnExtra := some funcctx' } funcctx' { fctx with iter := fctx.iter + 1 } := by
  have hcounted : funcctx.callCntr + 1 = UInt64.ofNat (fctx.iter + 1) := by
    rw [h.counted]
    exact (UInt64.ofNat_add fctx.iter 1).symm
  refine ⟨{ funcctx with
    callCntr := funcctx.callCntr + 1
    userFctx := some { fctx with iter := fctx.iter + 1 } }, ?_, rfl, rfl, hcounted, h.limit, hlt⟩
  simp only [perCall, h.context, h.user, hobj, hbuild]
  rw [if_pos (h.lt_iff.mpr hlt)]

/-- A row that is refused: the cursor is behind it, the server has not counted it. -/
theorem Running.perCall_error (h : Running s funcctx fctx) (i : ι)
    (hlt : fctx.iter < fctx.objs.length % 2 ^ 32) {obj : α}
    (hobj : fctx.objs[fctx.iter]? = some obj) {e : PgError}
    (hbuild : f.build (cells (f.values i obj)) = some e) :
    f.perCall i s = ({ s with fnExtra := some { funcctx with
      userFctx := some { fctx with iter := fctx.iter + 1 } } }, .error e) := by
  simp only [perCall, h.context, h.user, hobj, hbuild]
  rw [if_pos (h.lt_iff.mpr hlt)]

/-- Behind the last row the object is destructed and the context is given up. -/
theorem Running.perCall_done (h : Running s funcctx fctx) (i : ι)
    (hge : ¬ fctx.iter < fctx.objs.length % 2 ^ 32) :
    f.perCall i s = ({ s with fnExtra := none, destructed := s.destructed + 1 }, .done) := by
  simp only [perCall, h.context, h.user]
  rw [if_neg (h.lt_iff.not.mpr hge)]

theorem Running.call_eq (h : Running s funcctx fctx) (i : ι) : f.call i s = f.perCall i s := by
  rw [call, entered, h.context]

end Running

theorem At.running (h : At objs k s) : ∃ funcctx, Running s funcctx ⟨objs, k⟩ := by
  obtain ⟨funcctx, hextra, hcntr, hmax, hfctx⟩ := h.context
  have hlimit : objs.length % 2 ^ 32 = objs.length := Nat.mod_eq_of_lt h.small
  have hwithin : k ≤ objs.length % 2 ^ 32 := by
    rw [hlimit]
    exact h.within
  exact ⟨funcctx, hextra, hfctx, hcntr, hmax, hwithin⟩

theorem At.entered (h : At objs k s) (i : ι) : f.entered i s = (s, none) := by
  obtain ⟨funcctx, hextra, -⟩ := h.context
  rw [SetReturning.entered, hextra]

theorem At.call_eq (h : At objs k s) (i : ι) : f.call i s = f.perCall i s := by
  obtain ⟨funcctx, hrunning⟩ := h.running
  exact hrunning.call_eq i

theorem At.call_next (h : At objs k s) (i : ι) {obj : α} (hobj : objs[k]? = some obj)
    (hbuild : f.build (cells (f.values i obj)) = none) :
    (f.call i s).2 = .next (f.values i obj) ∧ At objs (k + 1) (f.call i s).1 ∧
      (f.call i s).1.constructed = s.constructed ∧ (f.call i s).1.destructed = s.destructed := by
  obtain ⟨funcctx, hrunning⟩ := h.running
  have hlimit : objs.length % 2 ^ 32 = objs.length := Nat.mod_eq_of_lt h.small
  have hk : k < objs.length := (List.getElem?_eq_some_iff.mp hobj).1
  obtain ⟨funcctx', hcall, hnext⟩ :=
    hrunning.perCall_next (f := f) i (hlimit.symm ▸ hk) hobj hbuild
  rw [h.call_eq, hcall]
  exact ⟨rfl, ⟨hk, h.small, funcctx', rfl, hnext.counted, hnext.limit, hnext.user⟩, rfl, rfl⟩

theorem At.call_error (h : At objs k s) (i : ι) {obj : α} (hobj : objs[k]? = some obj)
    {e : PgError} (hbuild : f.build (cells (f.values i obj)) = some e) :
    (f.call i s).2 = .error e := by
  obtain ⟨funcctx, hrunning⟩ := h.running
  have hlimit : objs.length % 2 ^ 32 = objs.length := Nat.mod_eq_of_lt h.small
  have hk : k < objs.length := (List.getElem?_eq_some_iff.mp hobj).1
  rw [h.call_eq, hrunning.perCall_error i (hlimit.symm ▸ hk) hobj hbuild]

theorem At.call_done (h : At objs objs.length s) (i : ι) :
    f.call i s = ({ s with fnExtra := none, destructed := s.destructed + 1 }, .done) := by
  obtain ⟨funcctx, hrunning⟩ := h.running
  have hlimit : objs.length % 2 ^ 32 = objs.length := Nat.mod_eq_of_lt h.small
  rw [h.call_eq, hrunning.perCall_done i]
  exact hlimit.symm ▸ Nat.lt_irrefl _

/-! ## A whole run -/

/-- The rows of these calls are all built. -/
def Builds (f : SetReturning ι α) (is : List ι) (objs : List α) : Prop :=
  ∀ p ∈ is.zip objs, f.build (cells (f.values p.1 p.2)) = none

theorem builds_cons {i : ι} {is : List ι} {obj : α} :
    Builds f (i :: is) (obj :: objs) ↔
      f.build (cells (f.values i obj)) = none ∧ Builds f is objs := by
  simp only [Builds, List.zip_cons_cons, List.forall_mem_cons]

/-- From a context behind `k` rows, the calls return the elements left and then finish. -/
theorem At.run {is : List ι} (h : At objs k s) (his : is.length = objs.length - k + 1)
    (hbuilds : Builds f is (objs.drop k)) :
    f.machine.outputs s is =
        List.zipWith (fun i obj => .next (f.values i obj)) is (objs.drop k) ++ [.done] ∧
      (f.machine.run s is).fnExtra = none ∧
      (f.machine.run s is).constructed = s.constructed ∧
      (f.machine.run s is).destructed = s.destructed + 1 := by
  induction is generalizing k s with
  | nil => simp at his
  | cons i is ih =>
    have hwithin := h.within
    by_cases hk : k < objs.length
    · have hdrop : objs.drop k = objs[k] :: objs.drop (k + 1) := List.drop_eq_getElem_cons hk
      rw [hdrop, builds_cons] at hbuilds
      obtain ⟨hreply, hnext, hconstructed, hdestructed⟩ :=
        h.call_next (f := f) i (List.getElem?_eq_getElem hk) hbuilds.1
      simp only [List.length_cons] at his
      obtain ⟨houtputs, hextra, hconstructed', hdestructed'⟩ := ih hnext (by omega) hbuilds.2
      refine ⟨?_, hextra, hconstructed'.trans hconstructed, ?_⟩
      · rw [Machine.outputs, hdrop, List.zipWith_cons_cons, List.cons_append]
        exact congrArg₂ _ hreply houtputs
      · rw [← hdestructed]
        exact hdestructed'
    · have hend : k = objs.length := by omega
      subst hend
      have hnil : is = [] := by
        rw [← List.length_eq_zero_iff]
        simp only [List.length_cons] at his
        omega
      subst hnil
      have hdone := h.call_done (f := f) i
      simp [Machine.outputs, Machine.run, machine, hdone]

/-- Calls that return all the elements left have built their rows. -/
theorem At.builds {is : List ι} (h : At objs k s)
    (houtputs : f.machine.outputs s is =
      List.zipWith (fun i obj => .next (f.values i obj)) is (objs.drop k) ++ [.done]) :
    Builds f is (objs.drop k) := by
  induction is generalizing k s with
  | nil => exact List.forall_mem_nil _
  | cons i is ih =>
    by_cases hk : k < objs.length
    · have hdrop : objs.drop k = objs[k] :: objs.drop (k + 1) := List.drop_eq_getElem_cons hk
      have hobj : objs[k]? = some objs[k] := List.getElem?_eq_getElem hk
      rw [hdrop, List.zipWith_cons_cons, List.cons_append, Machine.outputs] at houtputs
      obtain ⟨hreply, hrest⟩ := List.cons.inj houtputs
      rw [hdrop, builds_cons]
      cases hbuild : f.build (cells (f.values i objs[k])) with
      | some e =>
        rw [show (f.machine.step s i).2 = .error e from h.call_error i hobj hbuild] at hreply
        cases hreply
      | none => exact ⟨rfl, ih (h.call_next i hobj hbuild).2.1 hrest⟩
    · rw [List.drop_eq_nil_of_le (by omega), Builds, List.zip_nil_right]
      exact List.forall_mem_nil _

/-- The context at every call of such a run, the finishing one included. -/
theorem At.trace {is : List ι} (h : At objs k s) (hbuilds : Builds f is (objs.drop k)) {j : ℕ}
    {p : SrfState α × ι} (hp : (f.machine.trace s is)[j]? = some p) (hj : k + j ≤ objs.length) :
    At objs (k + j) p.1 ∧ p.1.destructed = s.destructed := by
  induction is generalizing k s j with
  | nil => simp [Machine.trace] at hp
  | cons i is ih =>
    cases j with
    | zero =>
      have hsp : (s, i) = p := by simpa [Machine.trace] using hp
      rw [← hsp]
      exact ⟨h, rfl⟩
    | succ j =>
      have hk : k < objs.length := by omega
      rw [List.drop_eq_getElem_cons hk, builds_cons] at hbuilds
      rw [Machine.trace, List.getElem?_cons_succ] at hp
      obtain ⟨-, hnext, -, hdestructed⟩ :=
        h.call_next (f := f) i (List.getElem?_eq_getElem hk) hbuilds.1
      obtain ⟨hat, hkept⟩ := ih hnext hbuilds.2 hp (by omega)
      rw [Nat.add_right_comm, Nat.add_assoc] at hat
      exact ⟨hat, hkept.trans hdestructed⟩

/-- The first call loads `objs`. -/
structure Loads (f : SetReturning ι α) (first : ι) (s : SrfState α) (objs : List α) : Prop where
  fresh : s.fnExtra = none
  composite : f.composite first = true
  loaded : (f.load first s.agent).result = .ok (some objs)
  small : objs.length < 2 ^ 32

theorem Loads.entered {first : ι} (h : Loads f first s objs) :
    ∃ s', f.entered first s = (s', none) ∧ At objs 0 s' ∧
      s'.constructed = s.constructed + 1 ∧ s'.destructed = s.destructed := by
  rw [SetReturning.entered, h.fresh]
  simp only [firstCall, h.composite, h.loaded, Bool.not_true, Bool.false_eq_true, if_false]
  exact ⟨_, rfl, ⟨Nat.zero_le _, h.small, _, rfl, rfl, rfl, rfl⟩, rfl, rfl⟩

/-- The run of `first :: later` returns the elements of `objs`, each once and in order, and finishes
with the call behind the last one. -/
structure EmitsOnce (f : SetReturning ι α) (s : SrfState α) (first : ι) (later : List ι)
    (objs : List α) : Prop where
  replies : f.machine.outputs s (first :: later) =
    List.zipWith (fun i obj => .next (f.values i obj)) (first :: later) objs ++ [.done]
  /-- At every call before the end the cursor is the server's counter and a valid index. -/
  cursor : ∀ (j : ℕ) (p : SrfState α × ι), (f.machine.trace s (first :: later))[j]? = some p →
    j < objs.length → ∃ s' funcctx fctx, f.entered p.2 p.1 = (s', none) ∧
      s'.fnExtra = some funcctx ∧ funcctx.userFctx = some fctx ∧ fctx.objs = objs ∧
      fctx.iter = funcctx.callCntr.toNat ∧ fctx.iter = j ∧ fctx.iter < fctx.objs.length
  /-- The object is destructed by the finishing call and by no call before it. -/
  destructed : (∀ p ∈ f.machine.trace s (first :: later), p.1.destructed = s.destructed) ∧
    (f.machine.run s (first :: later)).constructed = s.constructed + 1 ∧
    (f.machine.run s (first :: later)).destructed = s.destructed + 1 ∧
    (f.machine.run s (first :: later)).fnExtra = none

theorem At.cursor (h : At objs k s) (hk : k < objs.length) :
    ∃ funcctx fctx, s.fnExtra = some funcctx ∧ funcctx.userFctx = some fctx ∧ fctx.objs = objs ∧
      fctx.iter = funcctx.callCntr.toNat ∧ fctx.iter = k ∧ fctx.iter < fctx.objs.length := by
  obtain ⟨funcctx, hextra, hcntr, -, hfctx⟩ := h.context
  have hsmall := h.small
  have hcount : (UInt64.ofNat k).toNat = k := by
    rw [UInt64.toNat_ofNat', Nat.mod_eq_of_lt (by omega)]
  exact ⟨funcctx, ⟨objs, k⟩, hextra, hfctx, rfl, by rw [hcntr, hcount], rfl, hk⟩

/-- The first call goes on from the state its block leaves. -/
theorem Loads.call_first {first : ι} (h : Loads f first s objs) :
    ∃ s', f.entered first s = (s', none) ∧ At objs 0 s' ∧ f.call first s = f.call first s' ∧
      s'.constructed = s.constructed + 1 ∧ s'.destructed = s.destructed := by
  obtain ⟨s', hentered, hat, hconstructed, hdestructed⟩ := h.entered
  refine ⟨s', hentered, hat, ?_, hconstructed, hdestructed⟩
  rw [call, hentered, call, hat.entered]

/-- The replies are those from behind the first call's block. -/
theorem Loads.outputs_first {first : ι} {later : List ι} {s' : SrfState α}
    (hcall : f.call first s = f.call first s') :
    f.machine.outputs s (first :: later) = f.machine.outputs s' (first :: later) := by
  simp only [Machine.outputs, machine, hcall]

/-- The context at every call but the first. -/
theorem Loads.trace_later {first : ι} (h : Loads f first s objs) {later : List ι}
    (hbuilds : Builds f (first :: later) objs) {j : ℕ} {p : SrfState α × ι}
    (hp : (f.machine.trace s (first :: later))[j + 1]? = some p) (hj : j + 1 ≤ objs.length) :
    At objs (j + 1) p.1 ∧ p.1.destructed = s.destructed := by
  obtain ⟨s', -, hat, hcall, -, hdestructed⟩ := h.call_first
  have hsame : (f.machine.trace s' (first :: later))[j + 1]? = some p := by
    rw [← hp]
    simp only [Machine.trace, List.getElem?_cons_succ, machine, hcall]
  obtain ⟨hatj, hkept⟩ := hat.trace hbuilds hsame (by omega)
  rw [Nat.zero_add] at hatj
  exact ⟨hatj, hkept.trans hdestructed⟩

theorem Loads.emitsOnce {first : ι} (h : Loads f first s objs) {later : List ι}
    (hlater : later.length = objs.length) (hbuilds : Builds f (first :: later) objs) :
    EmitsOnce f s first later objs := by
  obtain ⟨s', hentered, hat, hcall, hconstructed, hdestructed⟩ := h.call_first
  have hcalls : (first :: later).length = objs.length - 0 + 1 := by
    rw [List.length_cons, hlater, Nat.sub_zero]
  have hstart : ∀ p, (f.machine.trace s (first :: later))[0]? = some p → (s, first) = p := by
    intro p hp
    simpa [Machine.trace] using hp
  obtain ⟨houtputs, hextra, hmade, hgone⟩ := hat.run hcalls hbuilds
  have hrun : f.machine.run s (first :: later) = f.machine.run s' (first :: later) := by
    simp only [Machine.run, machine, hcall]
  refine ⟨by rw [Loads.outputs_first hcall, houtputs, List.drop_zero], ?_, ?_, ?_⟩
  · intro j p hp hj
    cases j with
    | zero =>
      obtain ⟨funcctx, fctx, hcursor⟩ := hat.cursor hj
      rw [← hstart p hp]
      exact ⟨s', funcctx, fctx, hentered, hcursor⟩
    | succ j =>
      obtain ⟨hatj, -⟩ := h.trace_later hbuilds hp (by omega)
      obtain ⟨funcctx, fctx, hcursor⟩ := hatj.cursor hj
      exact ⟨p.1, funcctx, fctx, hatj.entered p.2, hcursor⟩
  · intro p hp
    obtain ⟨j, hj⟩ := List.mem_iff_getElem?.mp hp
    cases j with
    | zero => rw [← hstart p hj]
    | succ j =>
      have hbound := (List.getElem?_eq_some_iff.mp hj).1
      rw [Machine.length_trace, hcalls] at hbound
      exact (h.trace_later hbuilds hj (by omega)).2
  · rw [hrun]
    exact ⟨hmade.trans hconstructed, by rw [hgone, hdestructed], hextra⟩

/-- **A run returns every loaded element once exactly when all its rows are built.** -/
theorem Loads.emitsOnce_iff {first : ι} (h : Loads f first s objs) {later : List ι}
    (hlater : later.length = objs.length) :
    EmitsOnce f s first later objs ↔ Builds f (first :: later) objs := by
  constructor
  · intro hemits
    obtain ⟨s', -, hat, hcall, -⟩ := h.call_first
    have houtputs := hemits.replies
    rw [Loads.outputs_first hcall] at houtputs
    exact hat.builds houtputs
  · exact h.emitsOnce hlater

end SetReturning

end PgConsul.Extension
