import PgConsul.Extension.ServerRefinement

/-! # A query on a set-returning function

The executor calls a set-returning function until it answers anything but a row. What a whole query
comes to is said here without the calls: the list that was loaded, or an error, of the first call or
of the first row that an input function refuses.
-/
namespace PgConsul.Extension
set_option autoImplicit false
open Foundations Consul Cpr

/-! ## The last reply of a query -/

/-- The executor calls no further. -/
def SrfReply.stops (reply : SrfReply) : Bool := reply.ends || reply.raises

theorem SrfReply.next_not_stops (values : List (Option Buffer)) :
    ¬ (SrfReply.next values).stops = true := Bool.false_ne_true

namespace SetReturning
variable {ι α : Type} {f : SetReturning ι α} {columns : α → List Bytes} {s : SrfState α}
  {funcctx : FuncCallContext α} {fctx : Fctx α}

/-- What is raised on the first of the rows that is refused. -/
def refusal (f : SetReturning ι α) (columns : α → List Bytes) (objs : List α) : Option PgError :=
  objs.findSome? fun obj => f.build ((columns obj).map some)

/-- A query behind its first call: the elements the server counts, or the error of a row. -/
def queried (f : SetReturning ι α) (columns : α → List Bytes) :
    Except PgError (Option (List α)) → Except PgError (Option (List α))
  | .ok (some objs) =>
    match f.refusal columns (countable objs) with
    | some e => .error e
    | none => .ok (some (countable objs))
  | result => result

/-- The reply that ends a query. -/
def lastReply : Except PgError (Option (List α)) → SrfReply
  | .error e => .error e
  | .ok none => .null
  | .ok (some _) => .done

theorem find_stops_first {first : ι} {later : List ι} {reply : SrfReply}
    (hreply : (f.call first s).2 = reply) (hstops : reply.stops = true) :
    (f.machine.outputs s (first :: later)).find? SrfReply.stops = some reply := by
  subst hreply
  exact List.find?_cons_of_pos hstops

/-- From an open run: the rows left, and then the end or the error of a row. -/
theorem Running.find_stops (hwrites : f.Writes columns) (h : Running s funcctx fctx) {is : List ι}
    (his : is.length = (countable fctx.objs).length - fctx.iter + 1) :
    (f.machine.outputs s is).find? SrfReply.stops =
      some ((f.refusal columns ((countable fctx.objs).drop fctx.iter)).elim .done .error) := by
  have hlength := length_countable fctx.objs
  induction is generalizing s funcctx fctx with
  | nil => simp at his
  | cons i is ih =>
    rw [Machine.outputs, show f.machine.step s i = f.perCall i s from h.call_eq i]
    by_cases hlt : fctx.iter < fctx.objs.length % 2 ^ 32
    · obtain ⟨obj, hobj⟩ := exists_current hlt
      rw [countable_drop hlt hobj, refusal, List.findSome?_cons, ← hwrites i obj]
      cases hbuild : f.build (cells (f.values i obj)) with
      | none =>
        obtain ⟨funcctx', hcall, hnext⟩ := h.perCall_next (f := f) i hlt hobj hbuild
        rw [List.length_cons] at his
        rw [hcall, List.find?_cons_of_neg (SrfReply.next_not_stops _)]
        exact ih hnext (by dsimp only; omega) hlength
      | some e =>
        rw [h.perCall_error i hlt hobj hbuild, List.find?_cons_of_pos rfl]
        rfl
    · rw [List.drop_eq_nil_of_le (by omega), h.perCall_done i hlt, List.find?_cons_of_pos rfl]
      rfl

/-- **The calls of a query end as `queried` says**, at a call site that accepts records and has no
open run. -/
theorem query_lastReply (hwrites : f.Writes columns) (fresh : s.fnExtra = none) {first : ι}
    (composite : f.composite first = true) {later : List ι}
    (hlater : ∀ objs, (f.load first s.agent).result = .ok (some objs) →
      later.length = (countable objs).length) :
    (f.machine.outputs s (first :: later)).find? SrfReply.stops =
      some (lastReply (f.queried columns (f.load first s.agent).result)) := by
  have hfirst : f.entered first s = f.firstCall first s := by rw [entered, fresh]
  rw [firstCall] at hfirst
  simp only [composite, Bool.not_true, Bool.false_eq_true, if_false] at hfirst
  cases hload : (f.load first s.agent).result with
  | error e =>
    rw [hload] at hfirst
    exact find_stops_first (by rw [call, hfirst]; rfl) rfl
  | ok loaded =>
    rw [hload] at hfirst
    cases loaded with
    | none =>
      exact find_stops_first (by rw [call, hfirst]; rfl) rfl
    | some objs =>
      obtain ⟨t, ht, funcctx, running⟩ : ∃ t, f.entered first s = (t, none) ∧
          ∃ funcctx, Running t funcctx ⟨objs, 0⟩ :=
        ⟨_, hfirst, _, rfl, rfl, rfl, rfl, Nat.zero_le _⟩
      have hcall : f.call first s = f.call first t := by
        rw [running.call_eq, call, ht]
      rw [Loads.outputs_first hcall, running.find_stops hwrites (by simp [hlater objs hload]),
        List.drop_zero, queried]
      cases f.refusal columns (countable objs) <;> rfl

end SetReturning

/-! ## consul_kv_get -/

abbrev KvGetResult := Except PgError (Option (List KVPair))

/-- `SELECT * FROM consul_kv_get(…)`: what is sent, the agent behind it, and the pairs of the rows. -/
def consulKvGet (platform : Platform) (inputs : InputFunctions) (network : Network)
    (memory : ℕ → Indeterminate) (args : KvGetArgs) (agent : Agent) : Called KvGetResult :=
  let called := v1KvGet platform network memory args agent
  ⟨called.requests, called.agent, (kvGet platform inputs).queried kvColumns called.result⟩

theorem consulKvGet_lastReply (platform : Platform) (inputs : InputFunctions) (call : KvGetCall)
    {s : SrfState KVPair} (fresh : s.fnExtra = none) (composite : call.composite = true)
    {later : List KvGetCall}
    (hlater : ∀ kvps, (v1KvGet platform call.network call.pairs call.args s.agent).result =
      .ok (some kvps) → later.length = (countable kvps).length) :
    ((kvGet platform inputs).machine.outputs s (call :: later)).find? SrfReply.stops =
      some (SetReturning.lastReply
        (consulKvGet platform inputs call.network call.pairs call.args s.agent).result) :=
  SetReturning.query_lastReply (kvGet_writes platform inputs) fresh composite hlater

end PgConsul.Extension
