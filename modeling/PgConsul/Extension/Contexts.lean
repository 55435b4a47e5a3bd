import PgConsul.Extension.Rows

/-! # Memory contexts over a run

The first call works in the context of the whole run and goes back to the caller's at the end of its
block, and the object made in it is destructed by the call that finishes. `PG_RETURN_NULL` leaves
the block of `pg_consul_v1_kv_get` between the two. Here this is followed over whole runs, whatever
the session does between the calls, up to a call that raises an error.
-/
namespace PgConsul.Extension
set_option autoImplicit false
open Foundations Consul Cpr

/-! ## Replies -/

namespace SrfReply

/-- A row, NULL or done. -/
def returns : SrfReply → Bool
  | next _ | done | null => true
  | unsupported _ | error _ | undefined => false

/-- The executor asks for no further row. -/
def ends : SrfReply → Bool
  | done | null => true
  | next _ | unsupported _ | error _ | undefined => false

def raises : SrfReply → Bool
  | unsupported _ | error _ => true
  | next _ | done | null | undefined => false

theorem not_returns_of_raises {reply : SrfReply} (h : reply.raises = true) :
    reply.returns = false ∧ reply.ends = false := by
  cases reply with
  | unsupported | error => exact ⟨rfl, rfl⟩
  | next | done | null | undefined => cases h

end SrfReply

/-- A call as the session enters it: the agent may be another one and so may the memory context. -/
structure Entry (ι : Type) where
  agent : Agent
  context : MemoryContext
  call : ι

namespace SetReturning
variable {ι α : Type} (f : SetReturning ι α)

def enter (e : Entry ι) (s : SrfState α) : SrfState α :=
  { s with agent := e.agent, current := e.context }

/-- The calls of one call site in a session. -/
def session : Machine (SrfState α) (Entry ι) SrfReply := ⟨fun s e => f.call e.call (enter e s)⟩

/-- The calls of a run up to the first that does not return. -/
def calls (s : SrfState α) (es : List (Entry ι)) : List (SrfState α × Entry ι) :=
  f.session.liveTrace SrfReply.returns s es

/-! ## One call -/

/-- The first call of a run, when it leaves its block with NULL. -/
structure NullFirst (i : ι) (s : SrfState α) : Prop where
  fresh : s.fnExtra = none
  composite : f.composite i = true
  loaded : (f.load i s.agent).result = .ok none

/-- Between the calls: no context and nothing owed, or a run whose object is still to be
destructed. -/
inductive Sound (s : SrfState α) : Prop where
  | idle (fresh : s.fnExtra = none) (balanced : s.constructed = s.destructed)
  | active {funcctx : FuncCallContext α} {fctx : Fctx α} (running : Running s funcctx fctx)
      (owed : s.constructed = s.destructed + 1)

/-- What a call can come to. -/
inductive Outcome (i : ι) (s : SrfState α) : SrfState α × SrfReply → Prop where
  | raised {s' : SrfState α} {reply : SrfReply} (notNull : ¬ f.NullFirst i s)
      (raises : reply.raises = true) : Outcome i s (s', reply)
  | null {s' : SrfState α} (first : f.NullFirst i s) (sound : Sound s')
      (owed : s'.constructed = s'.destructed + 1) : Outcome i s (s', .null)
  | next {s' : SrfState α} {values : List (Option Buffer)} (notNull : ¬ f.NullFirst i s)
      (kept : s'.current = s.current) (sound : Sound s') : Outcome i s (s', .next values)
  | done {s' : SrfState α} (notNull : ¬ f.NullFirst i s) (kept : s'.current = s.current)
      (sound : Sound s') (balanced : s'.constructed = s'.destructed) : Outcome i s (s', .done)

variable {f} {i : ι} {s : SrfState α}

theorem Running.perCall_outcome {t : SrfState α} {funcctx : FuncCallContext α} {fctx : Fctx α}
    (h : Running t funcctx fctx) (owed : t.constructed = t.destructed + 1)
    (kept : t.current = s.current) (notNull : ¬ f.NullFirst i s) :
    Outcome f i s (f.perCall i t) := by
  by_cases hlt : fctx.iter < fctx.objs.length % 2 ^ 32
  · obtain ⟨obj, hobj⟩ := exists_current hlt
    cases hbuild : f.build (cells (f.values i obj)) with
    | none =>
      obtain ⟨funcctx', hcall, hnext⟩ := h.perCall_next (f := f) i hlt hobj hbuild
      rw [hcall]
      exact .next notNull kept (.active hnext owed)
    | some e =>
      rw [h.perCall_error i hlt hobj hbuild]
      exact .raised notNull rfl
  · rw [h.perCall_done i hlt]
    exact .done notNull kept (.idle rfl owed) owed

/-- **What a call comes to between sound states.** -/
theorem Sound.call_outcome (h : Sound s) (i : ι) : Outcome f i s (f.call i s) := by
  cases h with
  | active running owed =>
    have notNull : ¬ f.NullFirst i s := by
      intro hnull
      have hcontext := running.context
      rw [hnull.fresh] at hcontext
      cases hcontext
    rw [running.call_eq]
    exact running.perCall_outcome owed rfl notNull
  | idle fresh balanced =>
    rw [call, entered, fresh]
    have hmade : s.constructed + 1 = s.destructed + 1 := by rw [balanced]
    dsimp only [firstCall]
    cases hcomposite : f.composite i with
    | false => exact .raised (fun hnull => by simp [hnull.composite] at hcomposite) rfl
    | true =>
      simp only [Bool.not_true, Bool.false_eq_true, if_false]
      cases hload : (f.load i s.agent).result with
      | error e => exact .raised (fun hnull => by simp [hnull.loaded] at hload) rfl
      | ok loaded =>
        cases loaded with
        | none =>
          exact .null ⟨fresh, hcomposite, hload⟩
            (.active ⟨rfl, rfl, rfl, rfl, Nat.zero_le _⟩ hmade) hmade
        | some objs =>
          have notNull : ¬ f.NullFirst i s := fun hnull => by simp [hnull.loaded] at hload
          exact Running.perCall_outcome ⟨rfl, rfl, rfl, rfl, Nat.zero_le _⟩ hmade rfl notNull

section Outcome
variable {r : SrfState α × SrfReply}

theorem Outcome.sound (h : Outcome f i s r) (hreturns : r.2.returns = true) : Sound r.1 := by
  cases h with
  | raised _ raises =>
    rw [(SrfReply.not_returns_of_raises raises).1] at hreturns
    cases hreturns
  | null _ sound => exact sound
  | next _ _ sound => exact sound
  | done _ _ sound => exact sound

theorem Outcome.defined (h : Outcome f i s r) : r.2.returns = true ∨ r.2.raises = true := by
  cases h with
  | raised _ raises => exact .inr raises
  | null | next | done => exact .inl rfl

theorem Outcome.kept (h : Outcome f i s r) (notNull : ¬ f.NullFirst i s)
    (hreturns : r.2.returns = true) : r.1.current = s.current := by
  cases h with
  | raised _ raises =>
    rw [(SrfReply.not_returns_of_raises raises).1] at hreturns
    cases hreturns
  | null first _ _ => exact absurd first notNull
  | next _ kept _ => exact kept
  | done _ kept _ _ => exact kept

theorem Outcome.balanced (h : Outcome f i s r) (notNull : ¬ f.NullFirst i s)
    (hends : r.2.ends = true) : r.1.constructed = r.1.destructed := by
  cases h with
  | raised _ raises =>
    rw [(SrfReply.not_returns_of_raises raises).2] at hends
    cases hends
  | null first _ _ => exact absurd first notNull
  | next _ _ _ => cases hends
  | done _ _ _ balanced => exact balanced

/-- NULL leaves the object behind. -/
theorem Outcome.owed (h : Outcome f i s r) (null : f.NullFirst i s) :
    r.2.ends = true ∧ r.1.constructed = r.1.destructed + 1 := by
  cases h with
  | null _ _ owed => exact ⟨rfl, owed⟩
  | raised notNull _ => exact absurd null notNull
  | next notNull _ _ => exact absurd null notNull
  | done notNull _ _ _ => exact absurd null notNull

end Outcome

/-! ## What the caller finds -/

/-- The call returns or raises; when it returns the memory context is the one it was entered in, and
when the run is over every object made is destructed. -/
structure Keeps (f : SetReturning ι α) (s : SrfState α) (e : Entry ι) : Prop where
  defined : (f.session.step s e).2.returns = true ∨ (f.session.step s e).2.raises = true
  context : (f.session.step s e).2.returns = true → (f.session.step s e).1.current = e.context
  balanced : (f.session.step s e).2.ends = true →
    (f.session.step s e).1.constructed = (f.session.step s e).1.destructed

theorem Sound.enter (h : Sound s) (e : Entry ι) : Sound (enter e s) := by
  cases h with
  | idle fresh balanced => exact .idle fresh balanced
  | active running owed =>
    obtain ⟨context, user, counted, limit, within⟩ := running
    exact .active ⟨context, user, counted, limit, within⟩ owed

theorem Sound.step_outcome (h : Sound s) (e : Entry ι) :
    Outcome f e.call (SetReturning.enter e s) (f.session.step s e) :=
  (h.enter e).call_outcome e.call

theorem Sound.keeps_iff (h : Sound s) (e : Entry ι) :
    Keeps f s e ↔ ¬ f.NullFirst e.call (SetReturning.enter e s) := by
  have houtcome := h.step_outcome (f := f) e
  constructor
  · intro hkeeps hnull
    obtain ⟨hends, howed⟩ := houtcome.owed hnull
    have hbalanced := hkeeps.balanced hends
    omega
  · intro notNull
    exact ⟨houtcome.defined, houtcome.kept notNull, houtcome.balanced notNull⟩

/-! ## A run -/

/-- Every call of the run is one the caller can go on from. -/
def Undisturbed (f : SetReturning ι α) (s : SrfState α) (es : List (Entry ι)) : Prop :=
  ∀ p ∈ f.calls s es, Keeps f p.1 p.2

theorem Sound.calls (h : Sound s) (es : List (Entry ι)) : ∀ p ∈ f.calls s es, Sound p.1 :=
  f.session.liveTrace_invariant (fun _ e hs hreturns => (hs.step_outcome e).sound hreturns) h es

theorem Sound.undisturbed_iff (h : Sound s) (es : List (Entry ι)) :
    Undisturbed f s es ↔
      ∀ p ∈ f.calls s es, ¬ f.NullFirst p.2.call (SetReturning.enter p.2 p.1) :=
  forall₂_congr fun p hp => (h.calls es p hp).keeps_iff p.2

end SetReturning

/-! ## The two functions -/

/-- No set-returning call of `pg_consul_v1_status_peers` returns NULL. -/
theorem statusPeers_not_null (inputs : InputFunctions) (i : Invocation) (s : SrfState Peer) :
    ¬ (statusPeers inputs).NullFirst i s := by
  intro h
  have hloaded : (v1StatusPeers i.network s.agent).result.map some = .ok none := h.loaded
  cases hresult : (v1StatusPeers i.network s.agent).result with
  | error e => simp [hresult, Except.map] at hloaded
  | ok peers => simp [hresult, Except.map] at hloaded

/-- A first call with NULL for the key, in a query that accepts records. -/
structure NullKey (s : SrfState KVPair) (call : KvGetCall) : Prop where
  fresh : s.fnExtra = none
  composite : call.composite = true
  key : call.args.key = none

theorem kvGet_nullFirst_iff (platform : Platform) (inputs : InputFunctions) (e : Entry KvGetCall)
    (s : SrfState KVPair) :
    (kvGet platform inputs).NullFirst e.call (SetReturning.enter e s) ↔ NullKey s e.call := by
  constructor
  · rintro ⟨fresh, composite, loaded⟩
    exact ⟨fresh, composite, (v1KvGet_null_iff ..).mp loaded⟩
  · rintro ⟨fresh, composite, key⟩
    exact ⟨fresh, composite, (v1KvGet_null_iff ..).mpr key⟩

/-- **Every run of `pg_consul_v1_status_peers` keeps the caller's memory context and leaves no
object behind, and a run of `pg_consul_v1_kv_get` does so exactly when none of its first calls gets
NULL for the key.** -/
theorem set_returning_undisturbed_iff (platform : Platform) (inputs : InputFunctions)
    (agent : Agent) (current : MemoryContext) :
    (∀ es : List (Entry KvGetCall),
        (kvGet platform inputs).Undisturbed { agent := agent, current := current } es ↔
          ∀ p ∈ (kvGet platform inputs).calls { agent := agent, current := current } es,
            ¬ NullKey p.1 p.2.call) ∧
      ∀ es : List (Entry Invocation),
        (statusPeers inputs).Undisturbed { agent := agent, current := current } es := by
  constructor
  · intro es
    have hstart : SetReturning.Sound ({ agent := agent, current := current } : SrfState KVPair) :=
      .idle rfl rfl
    rw [hstart.undisturbed_iff]
    exact forall₂_congr fun p _ => not_congr (kvGet_nullFirst_iff platform inputs p.2 p.1)
  · intro es
    have hstart : SetReturning.Sound ({ agent := agent, current := current } : SrfState Peer) :=
      .idle rfl rfl
    rw [hstart.undisturbed_iff]
    exact fun p _ => statusPeers_not_null inputs p.2.call _

/-- The first call of a run with NULL for the key, entered in context 7. -/
def nullEntry : Entry KvGetCall :=
  ⟨{}, 7, { kvGetCall with args := { recurseA with key := none } }⟩

/-- It returns NULL in the context of the run and leaves its object behind. -/
theorem set_returning_undisturbed_null :
    (∃ s, (kvGet .amd64 inputFunctions).session.step { agent := {}, current := 7 } nullEntry =
          (s, .null) ∧
        s.current = 1 ∧ s.constructed = 1 ∧ s.destructed = 0) ∧
      ¬ ∀ (platform : Platform) (inputs : InputFunctions) (agent : Agent) (current : MemoryContext)
        (es : List (Entry KvGetCall)),
        (kvGet platform inputs).Undisturbed { agent := agent, current := current } es := by
  refine ⟨⟨_, rfl, rfl, rfl, rfl⟩, fun h => ?_⟩
  have hkeeps := h .amd64 inputFunctions {} 7 [nullEntry] _ List.mem_cons_self
  have hcontext : 1 = 7 := hkeeps.context rfl
  omega

end PgConsul.Extension
