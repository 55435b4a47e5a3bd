import PgConsul.Extension.Configuration
import PgConsul.Extension.ServerRefinement

/-! # Interleaved calls

The rows of one call site come whatever is done between them: other sites, calls of other functions,
changes of the settings. In the plain server a site is a component, so its replies are a run of the
site alone.
-/
namespace PgConsul.Extension
set_option autoImplicit false
open Foundations Consul Cpr

/-! ## One site -/

/-- A call, with the agent of its moment, or the end of the query. -/
inductive SiteInput (ι : Type) where
  | call (agent : Agent) (i : ι)
  | close

namespace SetReturning
variable {ι α : Type}

def site (f : SetReturning ι α) (columns : α → List Bytes) :
    Machine (Option (List α)) (SiteInput ι) (Option Told) where
  step owed
    | .call agent i =>
      let v := f.plainVisit columns agent i owed
      (v.state, some v.told)
    | .close => (none, none)

/-- The replies that return every element once and finish; a row that is refused ends the run. -/
def inOrder (f : SetReturning ι α) (columns : α → List Bytes) : List α → List (Option Told)
  | [] => [some .done]
  | x :: xs =>
    match f.build ((columns x).map some) with
    | some e => [some (.error e)]
    | none => some (.row ((columns x).map some)) :: f.inOrder columns xs

def rows (columns : α → List Bytes) (objs : List α) : List (Option Told) :=
  objs.map fun obj => some (.row ((columns obj).map some))

def rowsThen (columns : α → List Bytes) (objs : List α) (last : Told) : List (Option Told) :=
  rows columns objs ++ [some last]

theorem length_rowsThen (columns : α → List Bytes) (objs : List α) (last : Told) :
    (rowsThen columns objs last).length = objs.length + 1 := by
  rw [rowsThen, List.length_append, rows, List.length_map, List.length_singleton]

variable {f : SetReturning ι α} {columns : α → List Bytes}

theorem inOrder_append {built : List α}
    (h : ∀ x ∈ built, f.build ((columns x).map some) = none) (rest : List α) :
    f.inOrder columns (built ++ rest) = rows columns built ++ f.inOrder columns rest := by
  induction built with
  | nil => rfl
  | cons x built ih =>
    obtain ⟨hx, hbuilt⟩ := List.forall_mem_cons.mp h
    rw [List.cons_append, inOrder, hx]
    exact congrArg _ (ih hbuilt)

theorem inOrder_built {objs : List α} (h : ∀ x ∈ objs, f.build ((columns x).map some) = none) :
    f.inOrder columns objs = rowsThen columns objs .done := by
  have happend := inOrder_append h []
  rw [List.append_nil] at happend
  exact happend

/-- The calls of an open run return the rows owed in order and finish. -/
theorem site_owed {inputs : List (SiteInput ι)} (hopen : .close ∉ inputs) {owed : List α}
    (hcount : inputs.length ≤ (f.inOrder columns owed).length) :
    (f.site columns).outputs (some owed) inputs =
      (f.inOrder columns owed).take inputs.length := by
  induction inputs generalizing owed with
  | nil => rfl
  | cons input inputs ih =>
    rw [List.mem_cons, not_or] at hopen
    cases input with
    | close => exact absurd rfl hopen.1
    | call agent i =>
      have hlast : (f.inOrder columns owed).length = 1 → inputs = [] := by
        intro hone
        rw [← List.length_eq_zero_iff]
        simpa [hone] using hcount
      rw [Machine.outputs, List.length_cons]
      cases owed with
      | nil =>
        rw [hlast rfl]
        rfl
      | cons x owed =>
        cases hbuild : f.build ((columns x).map some) with
        | some e =>
          have hreplies : f.inOrder columns (x :: owed) = [some (.error e)] := by
            rw [inOrder, hbuild]
          rw [hlast (by rw [hreplies]; rfl), hreplies]
          simp only [site, plainVisit, emit, hbuild, Machine.outputs, List.length_nil]
          rfl
        | none =>
          have hreplies : f.inOrder columns (x :: owed) =
              some (.row ((columns x).map some)) :: f.inOrder columns owed := by
            rw [inOrder, hbuild]
          rw [hreplies] at hcount ⊢
          have hrest := @ih hopen.2 owed (by simpa using hcount)
          rw [List.take_succ_cons, ← hrest]
          simp only [site, plainVisit, emit, hbuild]

/-- The first call loads `objs` and the run goes on with them. -/
theorem site_loads {agent : Agent} {first : ι} {objs : List α}
    (hcomposite : f.composite first = true)
    (hload : (f.load first agent).result = .ok (some objs)) {inputs : List (SiteInput ι)}
    (hopen : .close ∉ inputs)
    (hcount : inputs.length < (f.inOrder columns (countable objs)).length) :
    (f.site columns).outputs none (.call agent first :: inputs) =
      (f.inOrder columns (countable objs)).take (inputs.length + 1) := by
  have hfirst : (f.site columns).outputs none (.call agent first :: inputs) =
      (f.site columns).outputs (some (countable objs)) (.call agent first :: inputs) := by
    simp only [Machine.outputs, site, plainVisit, hcomposite, hload, Bool.not_true,
      Bool.false_eq_true, if_false]
  have hcalls : SiteInput.close ∉ SiteInput.call agent first :: inputs := by
    rw [List.mem_cons, not_or]
    refine ⟨fun heq => ?_, hopen⟩
    cases heq
  rw [hfirst, site_owed hcalls hcount, List.length_cons]

end SetReturning

/-! ## The sites of a server -/

namespace ServerReply

def told : ServerReply → Option Told
  | srf _ told => some told
  | session _ | closed => none

def requests : ServerReply → List Request
  | session reply => reply.requests
  | srf requests _ => requests
  | closed => []

end ServerReply

def Action.callsKvGet (site : Site) : Action → Bool
  | kvGet site' _ _ | closeKvGet site' => site' = site
  | session _ | statusPeers .. | closeStatusPeers _ => false

def Action.callsStatusPeers (site : Site) : Action → Bool
  | statusPeers site' _ _ | closeStatusPeers site' => site' = site
  | session _ | kvGet .. | closeKvGet _ => false

/-- The actions at a `consul_kv_get` site. -/
def kvGetHears (site : Site) (s : PlainServer) : Action → Option (SiteInput KvGetCall)
  | .kvGet site' _ call => if site' = site then some (.call s.session.agent call) else none
  | .closeKvGet site' => if site' = site then some .close else none
  | .session _ | .statusPeers .. | .closeStatusPeers _ => none

def statusPeersHears (site : Site) (s : PlainServer) : Action → Option (SiteInput Invocation)
  | .statusPeers site' _ call => if site' = site then some (.call s.session.agent call) else none
  | .closeStatusPeers site' => if site' = site then some .close else none
  | .session _ | .kvGet .. | .closeKvGet _ => none

theorem kvGet_component (platform : Platform) (inputs : InputFunctions) (site : Site) :
    (plainServer platform inputs).HasComponent ((kvGet platform inputs).site kvColumns)
      (fun s => s.kvGets site) (Action.callsKvGet site) (kvGetHears site) ServerReply.told where
  hears_iff s a := by
    cases a with
    | kvGet site' _ _ | closeKvGet site' =>
      by_cases hsite : site' = site <;> simp [kvGetHears, Action.callsKvGet, hsite]
    | session | statusPeers | closeStatusPeers => rfl
  moved {s a k} h := by
    cases a with
    | kvGet site' _ _ | closeKvGet site' =>
      simp only [kvGetHears, Option.ite_none_right_eq_some, Option.some.injEq] at h
      obtain ⟨rfl, rfl⟩ := h
      exact Function.update_self ..
    | session | statusPeers | closeStatusPeers => cases h
  answered {s a k} h := by
    cases a with
    | kvGet site' _ _ | closeKvGet site' =>
      simp only [kvGetHears, Option.ite_none_right_eq_some, Option.some.injEq] at h
      obtain ⟨rfl, rfl⟩ := h
      rfl
    | session | statusPeers | closeStatusPeers => cases h
  kept {s a} h := by
    cases a with
    | kvGet site' _ _ | closeKvGet site' =>
      have hsite : site' ≠ site := by
        intro heq
        simp [kvGetHears, heq] at h
      exact Function.update_of_ne hsite.symm _ _
    | session | statusPeers | closeStatusPeers => rfl

theorem statusPeers_component (platform : Platform) (inputs : InputFunctions) (site : Site) :
    (plainServer platform inputs).HasComponent ((statusPeers inputs).site peerColumns)
      (fun s => s.statusPeers site) (Action.callsStatusPeers site) (statusPeersHears site)
      ServerReply.told where
  hears_iff s a := by
    cases a with
    | statusPeers site' _ _ | closeStatusPeers site' =>
      by_cases hsite : site' = site <;> simp [statusPeersHears, Action.callsStatusPeers, hsite]
    | session | kvGet | closeKvGet => rfl
  moved {s a k} h := by
    cases a with
    | statusPeers site' _ _ | closeStatusPeers site' =>
      simp only [statusPeersHears, Option.ite_none_right_eq_some, Option.some.injEq] at h
      obtain ⟨rfl, rfl⟩ := h
      exact Function.update_self ..
    | session | kvGet | closeKvGet => cases h
  answered {s a k} h := by
    cases a with
    | statusPeers site' _ _ | closeStatusPeers site' =>
      simp only [statusPeersHears, Option.ite_none_right_eq_some, Option.some.injEq] at h
      obtain ⟨rfl, rfl⟩ := h
      rfl
    | session | kvGet | closeKvGet => cases h
  kept {s a} h := by
    cases a with
    | statusPeers site' _ _ | closeStatusPeers site' =>
      have hsite : site' ≠ site := by
        intro heq
        simp [statusPeersHears, heq] at h
      exact Function.update_of_ne hsite.symm _ _
    | session | kvGet | closeKvGet => rfl

/-! ## The rows of a run -/

/-- A first call that loads `objs`, and what any actions behind it get from the site. -/
theorem site_replies {ι α : Type} {f : SetReturning ι α} {columns : α → List Bytes}
    {view : PlainServer → Option (List α)} {mine : Action → Bool}
    {hears : PlainServer → Action → Option (SiteInput ι)} {platform : Platform}
    {inputs : InputFunctions}
    (hsite : (plainServer platform inputs).HasComponent (f.site columns) view mine hears
      ServerReply.told)
    {s : Server} {p : PlainServer} (h : ServerMirrors s p) (hidle : view p = none) {a : Action}
    {agent : Agent} {first : ι} (hfirst : hears p a = some (.call agent first)) {objs : List α}
    (hcomposite : f.composite first = true)
    (hload : (f.load first agent).result = .ok (some objs)) {later : List Action}
    (hopen : ∀ t, ∀ b ∈ later, hears t b ≠ some .close)
    (hcount : later.countP mine < (f.inOrder columns (countable objs)).length) :
    (server platform inputs).said mine ServerReply.told s (a :: later) =
      (f.inOrder columns (countable objs)).take (later.countP mine + 1) := by
  have hheard : (plainServer platform inputs).heard hears p (a :: later) =
      .call agent first :: (plainServer platform inputs).heard hears
        ((plainServer platform inputs).step p a).1 later := by
    rw [Machine.heard, hfirst, Option.toList_some, List.singleton_append]
  have hclose : SiteInput.close ∉ (plainServer platform inputs).heard hears
      ((plainServer platform inputs).step p a).1 later := by
    intro hmem
    obtain ⟨t, b, hb, htb⟩ := Machine.mem_heard hmem
    exact hopen t b hb htb
  rw [(server_simulates platform inputs).said h, hsite.said_eq, hidle, hheard,
    SetReturning.site_loads hcomposite hload hclose (by rwa [hsite.length_heard]),
    hsite.length_heard]

theorem owes_none {α : Type} {s : SrfState α} {owed : Option (List α)}
    (h : SetReturning.Owes s owed) (hidle : s.fnExtra = none) : owed = none := by
  cases h with
  | idle fresh => rfl
  | active running =>
    have hcontext := running.context
    rw [hidle] at hcontext
    cases hcontext

theorem run_mirrors (platform : Platform) (inputs : InputFunctions) (actions : List Action) :
    ServerMirrors ((server platform inputs).run serverInit actions)
      ((plainServer platform inputs).run plainInit actions) :=
  (server_simulates platform inputs).run serverInit_mirrors actions

/-- A first call at an idle site loads `kvps`, and its query is not ended behind it. -/
structure KvGetRun (platform : Platform) (s : Server) (site : Site) (call : KvGetCall)
    (kvps : List KVPair) (later : List Action) : Prop where
  idle : (s.kvGets site).fnExtra = none
  composite : call.composite = true
  loaded : (v1KvGet platform call.network call.pairs call.args s.session.agent).result =
    .ok (some kvps)
  kept : .closeKvGet site ∉ later

structure StatusPeersRun (s : Server) (site : Site) (call : Invocation) (peers : List Peer)
    (later : List Action) : Prop where
  idle : (s.statusPeers site).fnExtra = none
  composite : call.composite = true
  loaded : (v1StatusPeers call.network s.session.agent).result = .ok peers
  kept : .closeStatusPeers site ∉ later

/-- What the calls of a run at a `consul_kv_get` site get, whatever is done between them. -/
theorem kvGet_replies {platform : Platform} {inputs : InputFunctions} {s : Server} {p : PlainServer}
    (h : ServerMirrors s p) {site : Site} {call : KvGetCall} {kvps : List KVPair}
    {later : List Action} (hrun : KvGetRun platform s site call kvps later)
    (context : MemoryContext)
    (hcount : later.countP (Action.callsKvGet site) <
      ((kvGet platform inputs).inOrder kvColumns (countable kvps)).length) :
    (server platform inputs).said (Action.callsKvGet site) ServerReply.told s
        (.kvGet site context call :: later) =
      ((kvGet platform inputs).inOrder kvColumns (countable kvps)).take
        (later.countP (Action.callsKvGet site) + 1) := by
  have hsame := (h.session.alike.v1KvGet platform call.network call.pairs call.args).2
  have hfirst : kvGetHears site p (.kvGet site context call) =
      some (.call p.session.agent call) := if_pos rfl
  refine site_replies (kvGet_component platform inputs site) h
    (owes_none (h.kvGets site) hrun.idle) hfirst hrun.composite (hsame.symm.trans hrun.loaded) ?_
    hcount
  intro t b hb hclose
  cases b with
  | closeKvGet site' =>
    simp only [kvGetHears, Option.ite_none_right_eq_some] at hclose
    exact hrun.kept (hclose.1 ▸ hb)
  | kvGet site' _ _ => simp [kvGetHears] at hclose
  | session | statusPeers | closeStatusPeers => cases hclose

theorem statusPeers_replies {platform : Platform} {inputs : InputFunctions} {s : Server}
    {p : PlainServer} (h : ServerMirrors s p) {site : Site} {call : Invocation} {peers : List Peer}
    {later : List Action} (hrun : StatusPeersRun s site call peers later) (context : MemoryContext)
    (hcount : later.countP (Action.callsStatusPeers site) <
      ((statusPeers inputs).inOrder peerColumns (countable peers)).length) :
    (server platform inputs).said (Action.callsStatusPeers site) ServerReply.told s
        (.statusPeers site context call :: later) =
      ((statusPeers inputs).inOrder peerColumns (countable peers)).take
        (later.countP (Action.callsStatusPeers site) + 1) := by
  have hsame := (h.session.alike.v1StatusPeers call.network).2
  have hload : ((statusPeers inputs).load call p.session.agent).result = .ok (some peers) :=
    congrArg (Except.map some) (hsame.symm.trans hrun.loaded)
  have hfirst : statusPeersHears site p (.statusPeers site context call) =
      some (.call p.session.agent call) := if_pos rfl
  refine site_replies (statusPeers_component platform inputs site) h
    (owes_none (h.statusPeers site) hrun.idle) hfirst hrun.composite hload ?_ hcount
  intro t b hb hclose
  cases b with
  | closeStatusPeers site' =>
    simp only [statusPeersHears, Option.ite_none_right_eq_some] at hclose
    exact hrun.kept (hclose.1 ▸ hb)
  | statusPeers site' _ _ => simp [statusPeersHears] at hclose
  | session | kvGet | closeKvGet => cases hclose

/-- **A run at one call site returns the elements its first call loaded, each once and in order, and
then finishes, whatever is done between its calls** except ending the query. A pair with a number
beyond `INT8` ends a run of `consul_kv_get` with the error of that number. -/
theorem interleaved_calls_emit_rows (platform : Platform) {inputs : InputFunctions}
    (hinputs : inputs.Documented) (before later : List Action) (site : Site)
    (context : MemoryContext) :
    let s := (server platform inputs).run serverInit before
    (∀ (call : KvGetCall) (kvps : List KVPair), KvGetRun platform s site call kvps later →
      (∀ kvp ∈ countable kvps, FitsInt8 kvp) →
      later.countP (Action.callsKvGet site) ≤ (countable kvps).length →
        (server platform inputs).said (Action.callsKvGet site) ServerReply.told s
            (.kvGet site context call :: later) =
          (SetReturning.rowsThen kvColumns (countable kvps) .done).take
            (later.countP (Action.callsKvGet site) + 1)) ∧
      (∀ (call : KvGetCall) (kvps fit rest : List KVPair) (kvp : KVPair),
        KvGetRun platform s site call kvps later → countable kvps = fit ++ kvp :: rest →
        (∀ kvp' ∈ fit, FitsInt8 kvp') → ¬ FitsInt8 kvp →
        later.countP (Action.callsKvGet site) ≤ fit.length →
          ∃ n e, 2 ^ 63 ≤ n ∧ inputs .INT8 (decimal n) = some e ∧
            (server platform inputs).said (Action.callsKvGet site) ServerReply.told s
                (.kvGet site context call :: later) =
              (SetReturning.rowsThen kvColumns fit (.error e)).take
                (later.countP (Action.callsKvGet site) + 1)) ∧
      ∀ (call : Invocation) (peers : List Peer), StatusPeersRun s site call peers later →
        later.countP (Action.callsStatusPeers site) ≤ (countable peers).length →
          (server platform inputs).said (Action.callsStatusPeers site) ServerReply.told s
              (.statusPeers site context call :: later) =
            (SetReturning.rowsThen peerColumns (countable peers) .done).take
              (later.countP (Action.callsStatusPeers site) + 1) := by
  intro s
  have h : ServerMirrors s _ := run_mirrors platform inputs before
  refine ⟨fun call kvps hrun hfit hcount => ?_,
    fun call kvps fit rest kvp hrun hcut hfit hbig hcount => ?_,
    fun call peers hrun hcount => ?_⟩
  · have hreplies : (kvGet platform inputs).inOrder kvColumns (countable kvps) =
        SetReturning.rowsThen kvColumns (countable kvps) .done :=
      SetReturning.inOrder_built fun kvp hkvp =>
        (kvGet_build_iff hinputs platform kvp).mpr (hfit kvp hkvp)
    rw [kvGet_replies h hrun context, hreplies]
    rw [hreplies, SetReturning.length_rowsThen]
    exact Nat.lt_succ_of_le hcount
  · obtain ⟨n, e, hn, he, hbuild⟩ := kvGet_refused hinputs platform hbig
    have hreplies : (kvGet platform inputs).inOrder kvColumns (countable kvps) =
        SetReturning.rowsThen kvColumns fit (.error e) := by
      rw [hcut, SetReturning.inOrder_append fun kvp' hkvp' =>
        (kvGet_build_iff hinputs platform kvp').mpr (hfit kvp' hkvp'), SetReturning.inOrder, hbuild]
      rfl
    refine ⟨n, e, hn, he, ?_⟩
    rw [kvGet_replies h hrun context, hreplies]
    rw [hreplies, SetReturning.length_rowsThen]
    exact Nat.lt_succ_of_le hcount
  · have hreplies : (statusPeers inputs).inOrder peerColumns (countable peers) =
        SetReturning.rowsThen peerColumns (countable peers) .done :=
      SetReturning.inOrder_built fun peer _ => statusPeers_build hinputs peer
    rw [statusPeers_replies h hrun context, hreplies]
    rw [hreplies, SetReturning.length_rowsThen]
    exact Nat.lt_succ_of_le hcount

/-- Between two rows of a site the port is changed, and other sites and functions are called. -/
def betweenRows : List Action :=
  [.session (.port (.set 8501)), .kvGet 0 0 kvGetCall, .statusPeers 0 0 statusCall,
    .session (.ping0 fun _ => .threw []), .kvGet 1 0 kvGetCall, .closeKvGet 0,
    .statusPeers 0 0 statusCall]

theorem interleaved_calls_emit_peers :
    (server .amd64 inputFunctions).said (Action.callsStatusPeers 0) ServerReply.told serverInit
        (.statusPeers 0 0 statusCall :: betweenRows) =
      [some (.row [some (ascii "a"), some (ascii "1"), some (ascii "f")]),
        some (.row [some (ascii "b"), some (ascii "2"), some (ascii "t")]),
        some (.row [some (ascii "b"), some (ascii "2"), some (ascii "f")])] ∧
      (server .amd64 inputFunctions).said (Action.callsKvGet 1) ServerReply.told serverInit
          (.kvGet 1 0 kvGetCall :: betweenRows) =
        [some (.row [some (ascii "a"), some (ascii "val"), some (ascii "0"), some (ascii "0"),
            some (ascii "0"), some (ascii "0"), some []]),
          some .done] := by
  constructor
  · have hrun : StatusPeersRun serverInit 0 statusCall
        [⟨ascii "a", 1, false⟩, ⟨ascii "b", 2, true⟩, ⟨ascii "b", 2, false⟩] betweenRows :=
      ⟨rfl, rfl, by decide +kernel, by simp [betweenRows]⟩
    have hrows := (interleaved_calls_emit_rows .amd64 inputFunctions_documented [] betweenRows
      0 0).2.2 statusCall _ hrun (by decide)
    exact hrows.trans (by decide +kernel)
  · have hrun : KvGetRun .amd64 serverInit 1 kvGetCall [⟨0, 0, 0, 0, ascii "a", [], ascii "val"⟩]
        betweenRows := ⟨rfl, rfl, by decide +kernel, by simp [betweenRows]⟩
    have hrows := (interleaved_calls_emit_rows .amd64 inputFunctions_documented [] betweenRows
      1 0).1 kvGetCall _ hrun
      (List.forall_mem_singleton.mpr ⟨by decide, by decide, by decide, by decide⟩) (by decide)
    exact hrows.trans (by decide +kernel)

/-! ## Every step of a run -/

/-- A call at a site whose run has begun. -/
def Action.continues (s : Server) : Action → Prop
  | kvGet site _ _ => (s.kvGets site).fnExtra ≠ none
  | statusPeers site _ _ => (s.statusPeers site).fnExtra ≠ none
  | session _ | closeKvGet _ | closeStatusPeers _ => False

def Action.asksBackendAgent : Action → Bool
  | session e => e.asksBackendAgent
  | kvGet .. | statusPeers .. | closeKvGet _ | closeStatusPeers _ => true

/-- No set-returning call does what the language leaves undefined, a run sends its requests from its
first call, and all requests of the backend's agent go where the settings say. -/
structure SafeStep (platform : Platform) (inputs : InputFunctions) (s : Server) (a : Action) :
    Prop where
  defined : ((server platform inputs).step s a).2.told ≠ some .undefined
  silent : a.continues s → ((server platform inputs).step s a).2.requests = []
  configured : a.asksBackendAgent = true →
    ∀ r ∈ ((server platform inputs).step s a).2.requests, Configured s.session r

section Visits
variable {ι α : Type} {f : SetReturning ι α} {columns : α → List Bytes}

theorem emit_defined (columns : α → List Bytes) (owed : List α) :
    (f.emit columns owed).2 ≠ .undefined := by
  cases owed with
  | nil => exact Told.noConfusion
  | cons x owed =>
    rw [SetReturning.emit]
    cases f.build ((columns x).map some) with
    | none => exact Told.noConfusion
    | some e => exact Told.noConfusion

theorem plainVisit_defined (agent : Agent) (i : ι) (owed : Option (List α)) :
    (f.plainVisit columns agent i owed).told ≠ .undefined := by
  cases owed with
  | some owed => exact emit_defined columns owed
  | none =>
    unfold SetReturning.plainVisit
    dsimp only
    split
    · exact Told.noConfusion
    · split
      · exact Told.noConfusion
      · exact Told.noConfusion
      · exact emit_defined columns _

theorem plainVisit_requests (agent : Agent) (i : ι) (owed : Option (List α)) :
    ∀ r ∈ (f.plainVisit columns agent i owed).requests, r ∈ (f.load i agent).requests := by
  intro r hr
  cases owed with
  | some owed => cases hr
  | none =>
    unfold SetReturning.plainVisit at hr
    dsimp only at hr
    split at hr
    · cases hr
    · split at hr
      · exact hr
      · exact hr
      · exact hr

theorem plainVisit_silent (agent : Agent) (i : ι) {s : SrfState α} {owed : Option (List α)}
    (h : SetReturning.Owes s owed) (hopen : s.fnExtra ≠ none) :
    (f.plainVisit columns agent i owed).requests = [] := by
  cases h with
  | idle fresh => exact absurd fresh hopen
  | active running => rfl

/-- What a visit sends is addressed to the agent it finds. -/
theorem visit_addressed (hwrites : f.Writes columns) (hloads : f.LoadsByAgent) {a b : Agent}
    (h : Alike a b) {s : SrfState α} {owed : Option (List α)} (howes : SetReturning.Owes s owed)
    (context : MemoryContext) (i : ι) :
    ∀ r ∈ (f.visit ⟨a, context, i⟩ s).requests, Addressed a r := by
  intro r hr
  rw [(SetReturning.visit_mirrors hwrites hloads h howes context i).requests] at hr
  have hload := plainVisit_requests b i owed r hr
  rw [← (hloads.alike i h).1] at hload
  exact (hloads.honours i h.left).requests r hload

end Visits

theorem ServerMirrors.safeStep {s : Server} {p : PlainServer} (h : ServerMirrors s p)
    (platform : Platform) (inputs : InputFunctions) (a : Action) :
    SafeStep platform inputs s a := by
  have hconsistent := h.session.consistent
  cases a with
  | session e =>
    refine ⟨nofun, False.elim, fun hasks r hr => ?_⟩
    exact hconsistent.configured (step_addressed hconsistent platform hasks r hr)
  | kvGet site context call =>
    have hwrites := kvGet_writes platform inputs
    have hloads := kvGet_loadsByAgent platform inputs
    have hvisit := SetReturning.visit_mirrors hwrites hloads h.session.alike (h.kvGets site)
      context call
    refine ⟨?_, fun hopen => ?_, fun _ r hr => ?_⟩
    · intro htold
      exact plainVisit_defined _ _ _ (hvisit.told.symm.trans (Option.some.inj htold))
    · exact hvisit.requests.trans (plainVisit_silent _ _ (h.kvGets site) hopen)
    · exact hconsistent.configured
        (visit_addressed hwrites hloads h.session.alike (h.kvGets site) context call r hr)
  | statusPeers site context call =>
    have hwrites := statusPeers_writes inputs
    have hloads := statusPeers_loadsByAgent inputs
    have hvisit := SetReturning.visit_mirrors hwrites hloads h.session.alike (h.statusPeers site)
      context call
    refine ⟨?_, fun hopen => ?_, fun _ r hr => ?_⟩
    · intro htold
      exact plainVisit_defined _ _ _ (hvisit.told.symm.trans (Option.some.inj htold))
    · exact hvisit.requests.trans (plainVisit_silent _ _ (h.statusPeers site) hopen)
    · exact hconsistent.configured
        (visit_addressed hwrites hloads h.session.alike (h.statusPeers site) context call r hr)
  | closeKvGet site => exact ⟨nofun, False.elim, fun _ r hr => absurd hr List.not_mem_nil⟩
  | closeStatusPeers site => exact ⟨nofun, False.elim, fun _ r hr => absurd hr List.not_mem_nil⟩

/-- **Every step of every run is safe.** -/
theorem server_run_safe (platform : Platform) (inputs : InputFunctions) (actions : List Action) :
    ∀ q ∈ (server platform inputs).trace serverInit actions,
      SafeStep platform inputs q.1 q.2 := by
  intro q hq
  obtain ⟨p, hp⟩ := (server platform inputs).trace_invariant
    (I := fun s => ∃ p, ServerMirrors s p)
    (fun s a ⟨p, hp⟩ => ⟨_, (hp.step platform inputs a).1⟩) ⟨plainInit, serverInit_mirrors⟩ actions
    q hq
  exact hp.safeStep platform inputs q.2

/-- The second call of an open run. -/
theorem server_run_safe_next :
    SafeStep .amd64 inputFunctions
      (serverInit.step .amd64 inputFunctions (.statusPeers 0 1 statusCall)).1
      (.statusPeers 0 1 statusCall) :=
  server_run_safe .amd64 inputFunctions
    [.statusPeers 0 1 statusCall, .statusPeers 0 1 statusCall] (_, _)
    (List.mem_cons_of_mem _ List.mem_cons_self)

end PgConsul.Extension
