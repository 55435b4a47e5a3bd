import PgConsul.Consul.KVPairFidelity
import PgConsul.Extension.KvGetRequest

/-! # The consul-kv command line tool

The tool turns its options into a method and a query and sends one request for each key. The
variable for the method has no initialiser, and only `-m` assigns it. What the tool writes is not
said here, and what it logs is left out.
-/
namespace PgConsul.Playground
set_option autoImplicit false
open Foundations Consul Cpr Json11 Extension

/-! ## The command line -/

def methods : List Bytes := [ascii "GET", ascii "PUT", ascii "DELETE"]

/-- What the option parser accepts in key mode; an option that is not given is `none`. Arguments are
C strings. -/
structure CommandLine where
  key : List Bytes
  method : Option Bytes
  recursive : Bool
  cas : Option UInt64
  session : Option Bytes
  flags : Option UInt64
  cluster : Option Bytes
  value : Option Bytes
  host : Option Bytes
  port : Option UInt16
  key_required : key ≠ []
  method_constraint : ∀ m, method = some m → m ∈ methods
  key_text : ∀ k ∈ key, 0 ∉ k
  host_text : ∀ h, host = some h → 0 ∉ h

/-- Where `-H` is not given. -/
theorem text_of_no_host : ∀ h : Bytes, none = some h → 0 ∉ h := by
  intro host h
  cases h

/-- `enum class MethodType : char`, which can hold any `char`. -/
abbrev MethodType := UInt8

def MethodType.GET : MethodType := 0
def MethodType.PUT : MethodType := 1
def MethodType.DELETE : MethodType := 2

/-- What the memory holds of the variable `methodType`, and of the pairs decoded from the answer to
each request. -/
structure Uninitialised where
  methodType : MethodType
  pairs : ℕ → ℕ → Indeterminate

/-- The exit codes; `LOG(FATAL)` aborts the process. -/
inductive Exit where
  | EX_OK
  | EX_USAGE
  | EX_TEMPFAIL
  | EX_PROTOCOL
  | EX_CANTCREAT
  | aborted
deriving DecidableEq

/-- `methodType` behind the options, or the exit. -/
def interpretMethod (memory : MethodType) (c : CommandLine) : Except Exit MethodType :=
  match c.method with
  | none => .ok memory
  | some v =>
    if v = ascii "GET" then .ok .GET
    else if v = ascii "PUT" then
      if c.value = none then .error .EX_USAGE
      else if 1 < c.key.length then .error .EX_USAGE
      else .ok .PUT
    else if v = ascii "DELETE" then .ok .DELETE
    else .error .aborted

def agentOf (c : CommandLine) : Agent :=
  let agent : Agent := {}
  let agent := match c.host with
    | some host => (agent.setHost host).2
    | none => agent
  let agent := match c.port with
    | some port => (agent.setPort port).2
    | none => agent
  match c.cluster with
  | some cluster => (agent.setCluster cluster).2
  | none => agent

/-! ## The request loop -/

/-- The function of the HTTP client that is called. -/
inductive Method where
  | Get
  | Put
  | Delete
deriving DecidableEq

structure Sent where
  method : Method
  request : Request
  payload : Option Bytes
deriving DecidableEq

structure Run where
  requests : List Sent
  exit : Exit
deriving DecidableEq

/-- The build and the state the loop reads; logging a fatal message in a build without debug
messages does nothing. -/
structure Loop where
  platform : Platform
  debugLog : Bool
  memory : Uninitialised
  answers : ℕ → Transfer
  c : CommandLine
  methodType : MethodType

namespace Loop
variable (l : Loop)

def params (agent : Agent) : Bytes :=
  let isPut := l.methodType = .PUT
  let isDelete := l.methodType = .DELETE
  let isGet := l.methodType = .GET
  let params : Bytes := []
  let params := if agent.cluster ≠ [] then
      addParameter l.platform params ⟨ascii "dc", agent.cluster⟩
    else params
  let params := if l.c.recursive ∧ (isGet ∨ isDelete) then
      addParameter l.platform params ⟨ascii "recurse", []⟩
    else params
  let params := match l.c.cas with
    | some cas => if isPut ∨ isDelete then
        addParameter l.platform params ⟨ascii "cas", Boost.lcastPutUnsigned cas.toNat⟩
      else params
    | none => params
  let params := match l.c.session with
    | some session =>
      if isPut then addParameter l.platform params ⟨ascii "acquire", session⟩ else params
    | none => params
  match l.c.flags with
  | some flags => if isPut then
      addParameter l.platform params ⟨ascii "flags", Boost.lcastPutUnsigned flags.toNat⟩
    else params
  | none => params

/-- What the answer to a GET makes of the loop: `none` goes on. -/
def handleGet (pairs : ℕ → Indeterminate) (r : Response) : Option Exit :=
  if r.statusCode ≠ 200 then some .EX_TEMPFAIL
  else
    let kvps := initFromJsonPairs l.platform pairs [] r.text []
    if !kvps.ok then some .EX_PROTOCOL
    else if l.c.recursive then none
    else if 1 < kvps.target.length then some .EX_PROTOCOL
    else none

def handleDelete (r : Response) : Option Exit :=
  if r.statusCode ≠ 200 then some .EX_TEMPFAIL else none

def handlePut (r : Response) : Option Exit :=
  if r.statusCode ≠ 200 then some .EX_TEMPFAIL
  else if r.text = ascii "true" then none
  else if r.text = ascii "false" then some .EX_CANTCREAT
  else none

/-- One request and its answer, with the rest of the loop behind it. -/
def exchange (answer : Transfer) (sent : Sent) (handle : Response → Option Exit) (rest : Run) :
    Run :=
  match answer with
  | .threw _ => ⟨[sent], .aborted⟩
  | .answered responseCode body =>
    match handle ⟨responseCode, parseResponse body⟩ with
    | some exit => ⟨[sent], exit⟩
    | none => ⟨sent :: rest.requests, rest.exit⟩

/-- The loop over the keys behind `n` requests. -/
def run (agent : Agent) (n : ℕ) : List Bytes → Run
  | [] => ⟨[], .EX_OK⟩
  | key :: keys =>
    let kvUrl := agent.kvUrl key
    let agent := kvUrl.2
    let request : Request :=
      ⟨requestUrl kvUrl.1 (l.params agent), connectionClose, agent.timeoutMs.toNat⟩
    let value := l.c.value.getD []
    if l.methodType = .GET then
      exchange (l.answers n) ⟨.Get, request, none⟩ (l.handleGet (l.memory.pairs n))
        (run agent (n + 1) keys)
    else if l.methodType = .DELETE then
      exchange (l.answers n) ⟨.Delete, request, some value⟩ handleDelete (run agent (n + 1) keys)
    else if l.methodType = .PUT then
      exchange (l.answers n) ⟨.Put, request, some value⟩ handlePut (run agent (n + 1) keys)
    else if l.debugLog then ⟨[], .aborted⟩
    else run agent n keys

end Loop

/-- `main` in key mode: the requests and the exit. -/
def main (platform : Platform) (debugLog : Bool) (memory : Uninitialised) (answers : ℕ → Transfer)
    (c : CommandLine) : Run :=
  match interpretMethod memory.methodType c with
  | .error exit => ⟨[], exit⟩
  | .ok methodType =>
    Loop.run ⟨platform, debugLog, memory, answers, c, methodType⟩ (agentOf c) 0 c.key

/-! ## What the command line says -/

/-- The keys up to the first one whose request fails, that one included; `ok n` is success of the
request with the number `n`. -/
noncomputable def attempted {κ : Type} (ok : ℕ → Prop) (n : ℕ) : List κ → List κ
  | [] => []
  | key :: keys => key :: open Classical in if ok n then attempted ok (n + 1) keys else []

/-- `xs` are the first keys, all before the last of them succeeded, and the last one failed unless
no key is left. -/
structure StopsAtFailure {κ : Type} (ok : ℕ → Prop) (keys xs : List κ) : Prop where
  isPrefix : xs <+: keys
  started : keys ≠ [] → xs ≠ []
  before : ∀ i, i + 1 < xs.length → ok i
  stopped : xs.length < keys.length → ¬ ok (xs.length - 1)

theorem attempted_stopsAtFailure {κ : Type} (ok : ℕ → Prop) (n : ℕ) (keys : List κ) :
    StopsAtFailure (fun i => ok (n + i)) keys (attempted ok n keys) := by
  induction keys generalizing n with
  | nil => exact ⟨List.prefix_rfl, fun h => h, by simp [attempted], by simp [attempted]⟩
  | cons key keys ih =>
    by_cases hok : ok n
    · obtain ⟨hfront, hstarted, hbefore, hstopped⟩ := ih (n + 1)
      rw [attempted, if_pos hok]
      refine ⟨(List.prefix_cons_inj key).mpr hfront, fun _ => List.cons_ne_nil _ _, ?_, ?_⟩
      · intro i hi
        cases i with
        | zero => exact hok
        | succ i =>
          rw [List.length_cons] at hi
          have hok' := hbefore i (by omega)
          rwa [Nat.add_right_comm, Nat.add_assoc] at hok'
      · intro hlt
        simp only [List.length_cons, Nat.add_lt_add_iff_right] at hlt
        have hpos : 0 < (attempted ok (n + 1) keys).length := by
          have hkeys : keys ≠ [] := List.ne_nil_of_length_pos (by omega)
          exact List.length_pos_iff.mpr (hstarted hkeys)
        have hindex : n + 1 + ((attempted ok (n + 1) keys).length - 1) =
            n + ((key :: attempted ok (n + 1) keys).length - 1) := by
          rw [List.length_cons]
          omega
        have hfail := hstopped hlt
        rwa [hindex] at hfail
    · rw [attempted, if_neg hok]
      refine ⟨by simp, fun _ => List.cons_ne_nil _ _, fun i hi => ?_, fun _ => hok⟩
      rw [List.length_singleton] at hi
      omega

theorem attempted_all {κ : Type} {ok : ℕ → Prop} (h : ∀ n, ok n) (n : ℕ) (keys : List κ) :
    attempted ok n keys = keys := by
  induction keys generalizing n with
  | nil => rfl
  | cons key keys ih => rw [attempted, if_pos (h n), ih]

namespace CommandLine
variable (c : CommandLine)

/-- The method of `-m`, and GET without it. -/
def methodAsked : Method :=
  if c.method = some (ascii "PUT") then .Put
  else if c.method = some (ascii "DELETE") then .Delete
  else .Get

/-- A PUT without a value or for several keys. -/
def Refused : Prop := c.methodAsked = .Put ∧ (c.value = none ∨ 1 < c.key.length)

def settings : PlainAgent :=
  ⟨c.host.getD DEFAULT_HOST, c.port.getD DEFAULT_PORT, c.cluster.getD [], DEFAULT_TIMEOUT_MS⟩

def parameters : List Parameter :=
  (if c.settings.cluster ≠ [] then [⟨ascii "dc", c.settings.cluster⟩] else []) ++
  (if c.recursive = true ∧ c.methodAsked ≠ .Put then [⟨ascii "recurse", []⟩] else []) ++
  (if c.methodAsked ≠ .Get then
    c.cas.toList.map fun cas => ⟨ascii "cas", decimal cas.toNat⟩
  else []) ++
  (if c.methodAsked = .Put then
    c.session.toList.map fun session => ⟨ascii "acquire", session⟩
  else []) ++
  (if c.methodAsked = .Put then
    c.flags.toList.map fun flags => ⟨ascii "flags", decimal flags.toNat⟩
  else [])

/-- The request for a key. -/
def sent (platform : Platform) (key : Bytes) : Sent where
  method := c.methodAsked
  request :=
    { url := requestUrl (c.settings.url .kvEndpointUrlPrefix ++ key) (content platform c.parameters)
      header := connectionClose
      timeout := c.settings.timeoutMs.toNat }
  payload := if c.methodAsked = .Get then none else some (c.value.getD [])

/-- The answer is none of those at which the tool stops. -/
def Succeeds : Transfer → Prop
  | .threw _ => False
  | .answered responseCode body => responseCode = 200 ∧
    match c.methodAsked with
    | .Get => ∃ arr, parseText (parseResponse body) = .ok (.array arr) ∧
        (∀ obj ∈ arr, Decodable obj) ∧ (c.recursive = true ∨ arr.length ≤ 1)
    | .Put => parseResponse body ≠ ascii "false"
    | .Delete => True

end CommandLine

/-! ## The options -/

def Method.type : Method → MethodType
  | Get => .GET
  | Put => .PUT
  | Delete => .DELETE

section Options
variable {c : CommandLine}

theorem methodAsked_cases (h : c.method ≠ none) :
    (c.method = some (ascii "GET") ∧ c.methodAsked = .Get) ∨
      (c.method = some (ascii "PUT") ∧ c.methodAsked = .Put) ∨
      (c.method = some (ascii "DELETE") ∧ c.methodAsked = .Delete) := by
  have hnames : ascii "GET" ≠ ascii "PUT" ∧ ascii "GET" ≠ ascii "DELETE" ∧
      ascii "DELETE" ≠ ascii "PUT" := by decide
  obtain ⟨v, hv⟩ := Option.ne_none_iff_exists'.mp h
  have hallowed := c.method_constraint v hv
  simp only [methods, List.mem_cons, List.not_mem_nil, or_false] at hallowed
  rcases hallowed with rfl | rfl | rfl
  · exact .inl ⟨hv, by simp [CommandLine.methodAsked, hv, hnames]⟩
  · exact .inr (.inl ⟨hv, by simp [CommandLine.methodAsked, hv]⟩)
  · exact .inr (.inr ⟨hv, by simp [CommandLine.methodAsked, hv, hnames]⟩)

theorem methodAsked_absent (h : c.method = none) : c.methodAsked = .Get := by
  simp [CommandLine.methodAsked, h]

theorem interpretMethod_refused (h : c.Refused) (memory : MethodType) :
    interpretMethod memory c = .error .EX_USAGE := by
  obtain ⟨hput, hbad⟩ := h
  have hmethod : c.method = some (ascii "PUT") := by
    unfold CommandLine.methodAsked at hput
    split at hput
    · assumption
    · split at hput <;> cases hput
  have hname : ascii "PUT" ≠ ascii "GET" := by decide
  simp only [interpretMethod, hmethod, if_neg hname, if_true]
  by_cases hvalue : c.value = none
  · rw [if_pos hvalue]
  · rw [if_neg hvalue, if_pos (hbad.resolve_left hvalue)]

theorem interpretMethod_given (h : c.method ≠ none) (hrefused : ¬ c.Refused)
    (memory : MethodType) : interpretMethod memory c = .ok c.methodAsked.type := by
  have hnames : ascii "PUT" ≠ ascii "GET" ∧ ascii "DELETE" ≠ ascii "GET" ∧
      ascii "DELETE" ≠ ascii "PUT" := by decide
  rcases methodAsked_cases h with ⟨hmethod, hasked⟩ | ⟨hmethod, hasked⟩ | ⟨hmethod, hasked⟩
  · simp only [interpretMethod, hmethod, hasked, if_true, Method.type]
  · have hfine : ¬ (c.value = none ∨ 1 < c.key.length) := fun hbad => hrefused ⟨hasked, hbad⟩
    rw [not_or] at hfine
    simp only [interpretMethod, hmethod, hasked, if_neg hnames.1, if_true, if_neg hfine.1,
      if_neg hfine.2, Method.type]
  · simp only [interpretMethod, hmethod, hasked, if_neg hnames.2.1, if_neg hnames.2.2, if_true,
      Method.type]

theorem refines_agentOf (c : CommandLine) : Refines (agentOf c) c.settings := by
  have hempty : ∀ e, (agentOf c).memo e = [] := by
    intro e
    unfold agentOf
    cases c.host <;> cases c.port <;> cases c.cluster <;> cases e <;> rfl
  have hsettings : (agentOf c).settings = c.settings := by
    unfold agentOf CommandLine.settings
    cases c.host <;> cases c.port <;> cases c.cluster <;> rfl
  exact ⟨Agent.memoValid_of_empty hempty, hsettings⟩

theorem refines_kvUrl {a : Agent} {p : PlainAgent} (h : Refines a p) (key : Bytes) :
    (a.kvUrl key).1 = p.url .kvEndpointUrlPrefix ++ key ∧ Refines (a.kvUrl key).2 p := by
  obtain ⟨hmemo, rfl⟩ := h
  exact ⟨hmemo.kvUrl_url key, hmemo.kvUrl key,
    (Agent.memoized_settings _ _).trans (Agent.memoized_settings _ _)⟩

end Options

/-! ## One request -/

namespace Loop
variable {l : Loop} {agent : Agent}

theorem params_eq (htype : l.methodType = l.c.methodAsked.type)
    (hcluster : agent.cluster = l.c.settings.cluster) :
    l.params agent = content l.platform l.c.parameters := by
  unfold params CommandLine.parameters
  rw [htype, hcluster]
  cases l.c.methodAsked <;> cases l.c.cas <;> cases l.c.session <;> cases l.c.flags <;>
    cases l.c.recursive <;> by_cases hdc : l.c.settings.cluster = [] <;>
    simp [hdc, content, Method.type, MethodType.GET, MethodType.PUT, MethodType.DELETE,
      Boost.lcastPutUnsigned_eq]

theorem handleGet_none_iff (pairs : ℕ → Indeterminate) (responseCode : ℤ) (text : Bytes) :
    l.handleGet pairs ⟨responseCode, text⟩ = none ↔
      responseCode = 200 ∧ ∃ arr, parseText text = .ok (.array arr) ∧
        (∀ obj ∈ arr, Decodable obj) ∧ (l.c.recursive = true ∨ arr.length ≤ 1) := by
  unfold handleGet
  constructor
  · intro h
    split at h
    · cases h
    · next hcode =>
      simp only at h
      split at h
      · cases h
      · next hok =>
        have hok' : (initFromJsonPairs l.platform pairs [] text []).ok = true := by simpa using hok
        obtain ⟨arr, hparse⟩ := initFromJsonPairs_array hok'
        have hdecodable := initFromJsonPairs_accepts hparse hok'
        refine ⟨not_not.mp hcode, arr, hparse, hdecodable, ?_⟩
        rw [initFromJsonPairs_eq hparse hdecodable, decodedElements_length] at h
        by_cases hrecursive : l.c.recursive = true
        · exact .inl hrecursive
        · rw [if_neg hrecursive] at h
          split at h
          · cases h
          · next hfew => exact .inr (by omega)
  · rintro ⟨rfl, arr, hparse, hdecodable, hfew⟩
    simp only [initFromJsonPairs_eq hparse hdecodable, decodedElements_length]
    cases hfew with
    | inl hrecursive => simp [hrecursive]
    | inr hfew => simp [hfew]

theorem handleDelete_none_iff (responseCode : ℤ) (text : Bytes) :
    handleDelete ⟨responseCode, text⟩ = none ↔ responseCode = 200 := by
  simp [handleDelete]

theorem handlePut_none_iff (responseCode : ℤ) (text : Bytes) :
    handlePut ⟨responseCode, text⟩ = none ↔ responseCode = 200 ∧ text ≠ ascii "false" := by
  have hnames : ascii "true" ≠ ascii "false" := by decide
  unfold handlePut
  by_cases hcode : responseCode = 200 <;> by_cases htrue : text = ascii "true" <;>
    simp [hcode, htrue, hnames]

open Classical in
theorem exchange_requests {answer : Transfer} {handle : Response → Option Exit} {P : Prop}
    (hthrew : ∀ what, answer = .threw what → ¬ P)
    (hanswered : ∀ responseCode body, answer = .answered responseCode body →
      (handle ⟨responseCode, parseResponse body⟩ = none ↔ P)) (sent : Sent) (rest : Run) :
    (exchange answer sent handle rest).requests = sent :: if P then rest.requests else [] := by
  unfold exchange
  cases answer with
  | threw what => simp [hthrew what rfl]
  | answered responseCode body =>
    have hiff := hanswered responseCode body rfl
    cases hhandle : handle ⟨responseCode, parseResponse body⟩ with
    | none => simp [hhandle, hiff.mp hhandle]
    | some exit =>
      have hnot : ¬ P := by simp [← hiff, hhandle]
      simp [hhandle, hnot]

open Classical in
/-- A round of the loop sends the request for its key and goes on when it succeeds. -/
theorem run_cons (htype : l.methodType = l.c.methodAsked.type) (h : Refines agent l.c.settings)
    (n : ℕ) (key : Bytes) (keys : List Bytes) :
    (l.run agent n (key :: keys)).requests = l.c.sent l.platform key ::
      if l.c.Succeeds (l.answers n) then (l.run (agent.kvUrl key).2 (n + 1) keys).requests
      else [] := by
  obtain ⟨hurl, hkept⟩ := refines_kvUrl h key
  have hcluster : (agent.kvUrl key).2.cluster = l.c.settings.cluster :=
    congrArg PlainAgent.cluster hkept.2
  have htimeout : (agent.kvUrl key).2.timeoutMs = l.c.settings.timeoutMs :=
    congrArg PlainAgent.timeoutMs hkept.2
  have hthrew : ∀ what, l.answers n = .threw what → ¬ l.c.Succeeds (l.answers n) := by
    intro what hanswer
    rw [hanswer]
    exact not_false
  rw [run]
  simp only [hurl, params_eq htype hcluster, htimeout]
  cases hasked : l.c.methodAsked with
  | Get =>
    have hget : l.methodType = .GET := by rw [htype, hasked]; rfl
    have hhandle : ∀ responseCode body, l.answers n = .answered responseCode body →
        (l.handleGet (l.memory.pairs n) ⟨responseCode, parseResponse body⟩ = none ↔
          l.c.Succeeds (l.answers n)) := by
      intro responseCode body hanswer
      rw [handleGet_none_iff, hanswer, CommandLine.Succeeds, hasked]
    rw [if_pos hget, exchange_requests hthrew hhandle]
    simp [CommandLine.sent, hasked]
  | Delete =>
    have hdelete : l.methodType = .DELETE := by rw [htype, hasked]; rfl
    have hother : l.methodType ≠ .GET := by rw [hdelete]; decide
    have hhandle : ∀ responseCode body, l.answers n = .answered responseCode body →
        (handleDelete ⟨responseCode, parseResponse body⟩ = none ↔ l.c.Succeeds (l.answers n)) := by
      intro responseCode body hanswer
      rw [handleDelete_none_iff, hanswer, CommandLine.Succeeds, hasked]
      exact (and_iff_left trivial).symm
    rw [if_neg hother, if_pos hdelete, exchange_requests hthrew hhandle]
    simp [CommandLine.sent, hasked]
  | Put =>
    have hput : l.methodType = .PUT := by rw [htype, hasked]; rfl
    have hother : l.methodType ≠ .GET ∧ l.methodType ≠ .DELETE := by rw [hput]; decide
    have hhandle : ∀ responseCode body, l.answers n = .answered responseCode body →
        (handlePut ⟨responseCode, parseResponse body⟩ = none ↔ l.c.Succeeds (l.answers n)) := by
      intro responseCode body hanswer
      rw [handlePut_none_iff, hanswer, CommandLine.Succeeds, hasked]
    rw [if_neg hother.1, if_neg hother.2, if_pos hput, exchange_requests hthrew hhandle]
    simp [CommandLine.sent, hasked]

/-- The whole loop: the requests for the keys up to the first failure. -/
theorem run_requests (htype : l.methodType = l.c.methodAsked.type)
    (h : Refines agent l.c.settings) (n : ℕ) (keys : List Bytes) :
    (l.run agent n keys).requests =
      (attempted (fun i => l.c.Succeeds (l.answers i)) n keys).map (l.c.sent l.platform) := by
  induction keys generalizing agent n with
  | nil => rfl
  | cons key keys ih =>
    rw [run_cons htype h, ih (refines_kvUrl h key).2, attempted, List.map_cons]
    split <;> rfl

theorem exchange_head (answer : Transfer) (sent : Sent) (handle : Response → Option Exit)
    (rest : Run) : ∃ later, (exchange answer sent handle rest).requests = sent :: later := by
  unfold exchange
  cases answer with
  | threw what => exact ⟨[], rfl⟩
  | answered responseCode body =>
    cases hhandle : handle ⟨responseCode, parseResponse body⟩ with
    | none => exact ⟨rest.requests, by simp [hhandle]⟩
    | some exit => exact ⟨[], by simp [hhandle]⟩

/-- With DELETE in `methodType` the first key is deleted. -/
theorem run_deletes (htype : l.methodType = .DELETE) (agent : Agent) (n : ℕ) (key : Bytes)
    (keys : List Bytes) :
    ∃ sent later, (l.run agent n (key :: keys)).requests = sent :: later ∧
      sent.method = .Delete := by
  have hother : l.methodType ≠ .GET := by
    rw [htype]
    decide
  rw [run, if_neg hother, if_pos htype]
  obtain ⟨later, hlater⟩ := exchange_head _ _ _ _
  exact ⟨_, later, hlater, rfl⟩

end Loop

end PgConsul.Playground
