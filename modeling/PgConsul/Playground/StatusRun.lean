import PgConsul.Playground.ConsulStatus

/-! # A run of consul-status

The flags stand for a list of questions. The tool asks them one after the other, writes what an
answer is good for, and stops at the first it cannot use, with a message about it and an exit of its
own.
-/
namespace PgConsul.Playground.ConsulStatus
set_option autoImplicit false
open Foundations Consul Cpr Json11 Extension

/-! ## What the command line says -/

/-- What `-s` can ask for. -/
inductive StatusType where
  | leader
  | peers
  | self
deriving DecidableEq

def StatusType.endpoint : StatusType → Endpoint
  | leader => .statusLeaderUrl
  | peers => .statusPeersUrl
  | self => .selfUrl

def StatusType.print (debugFlag : Bool) : StatusType → Printer
  | leader => printLeader debugFlag
  | peers => printPeers
  | self => printSelf

namespace CommandLine
variable (c : CommandLine)

def asked : List StatusType :=
  if c.status = some (ascii "leader") then [.leader]
  else if c.status = some (ascii "peers") then [.peers]
  else if c.status = some (ascii "self") then [.self]
  else [.leader, .peers, .self]

def settings : PlainAgent :=
  ⟨c.host.getD DEFAULT_HOST, c.port.getD DEFAULT_PORT, [], DEFAULT_TIMEOUT_MS⟩

def request (t : StatusType) : Request :=
  ⟨requestUrl (c.settings.url t.endpoint) [], connectionClose, c.settings.timeoutMs.toNat⟩

/-- What an answer is good for, or the exit it is an end to and the message about it. -/
def answer (network : Network) (t : StatusType) : Except (Message × Exit) Printed :=
  match network (c.request t) with
  | .threw what => .error (⟨.FATAL, ascii "cpr threw an exception: " ++ cStr what⟩, .aborted)
  | .answered responseCode body =>
    if responseCode ≠ 200 then
      .error (⟨.ERROR, ascii "consul returned error " ++ decimalInt responseCode⟩, .EX_TEMPFAIL)
    else
      match t.print c.debug (parseResponse body) with
      | .error message => .error (⟨.ERROR, message⟩, .EX_PROTOCOL)
      | .ok printed => .ok printed

def good (network : Network) (t : StatusType) : Bool := (c.answer network t).toOption.isSome

/-- What is written of an answer; of one that cannot be used only the message. -/
def printed (network : Network) (t : StatusType) : Printed :=
  match c.answer network t with
  | .error (message, _) => ⟨[], [message]⟩
  | .ok printed => printed

def exit (network : Network) (t : StatusType) : Exit :=
  match c.answer network t with
  | .error (_, exit) => exit
  | .ok _ => .EX_OK

/-- One question after the other, up to the first answer that cannot be used. -/
def run (network : Network) : List StatusType → Report
  | [] => ⟨[], [], .EX_OK⟩
  | t :: ts =>
    if c.good network t then
      let later := run network ts
      ⟨c.request t :: later.requests, (c.printed network t).output ++ later.output, later.exit⟩
    else ⟨[c.request t], (c.printed network t).output, c.exit network t⟩

end CommandLine

section Run
variable {network : Network} {c : CommandLine} {agent : Agent}

/-- One of the three functions, for an agent with the settings of the command line. -/
theorem fetch_eq (h : Refines agent c.settings) (t : StatusType) :
    fetch network (agent.memoized t.endpoint) (t.print c.debug) =
      ⟨c.printed network t, c.request t, (agent.memoized t.endpoint).2, c.exit network t⟩ := by
  obtain ⟨hmemo, hsettings⟩ := h
  have hrequest : (getFrom network (agent.memoized t.endpoint) []).1 = c.request t := by
    simp [getFrom, hmemo.memoized_url, CommandLine.request, ← hsettings, Agent.settings,
      PlainAgent.url]
  unfold fetch CommandLine.printed CommandLine.exit CommandLine.answer
  dsimp only
  rw [getFrom_result, hrequest]
  cases network (c.request t) with
  | threw what => rfl
  | answered responseCode body =>
    dsimp only
    by_cases hcode : responseCode = 200
    · rw [if_neg (not_not.mpr hcode), if_neg (not_not.mpr hcode)]
      cases t.print c.debug (parseResponse body) <;> rfl
    · rw [if_pos hcode, if_pos hcode]

/-- What an answer comes to: the message about one that cannot be used and its exit, or what is
written of a text. -/
inductive Answered (network : Network) (c : CommandLine) (t : StatusType) :
    Except (Message × Exit) Printed → Prop where
  | threw (what : Bytes) : Answered network c t
      (.error (⟨.FATAL, ascii "cpr threw an exception: " ++ cStr what⟩, .aborted))
  | refused (responseCode : ℤ) : Answered network c t
      (.error (⟨.ERROR, ascii "consul returned error " ++ decimalInt responseCode⟩, .EX_TEMPFAIL))
  | unreadable (message : Bytes) : Answered network c t (.error (⟨.ERROR, message⟩, .EX_PROTOCOL))
  | read {body : Bytes} {printed : Printed} (answer : network (c.request t) = .answered 200 body)
      (print : t.print c.debug (parseResponse body) = .ok printed) :
      Answered network c t (.ok printed)

theorem answered (network : Network) (c : CommandLine) (t : StatusType) :
    Answered network c t (c.answer network t) := by
  unfold CommandLine.answer
  cases hnetwork : network (c.request t) with
  | threw what => exact .threw what
  | answered responseCode body =>
    dsimp only
    by_cases hcode : responseCode = 200
    · subst hcode
      rw [if_neg (not_not.mpr rfl)]
      cases hprint : t.print c.debug (parseResponse body) with
      | error message => exact .unreadable message
      | ok printed => exact .read hnetwork hprint
    · rw [if_pos hcode]
      exact .refused responseCode

/-- An answer is good when it is no failure. -/
theorem good_iff (t : StatusType) :
    c.good network t = true ↔ c.exit network t = .EX_OK := by
  have h := answered network c t
  rw [CommandLine.good, CommandLine.exit]
  generalize c.answer network t = answer at h ⊢
  cases h with
  | threw | refused | unreadable => exact iff_of_false Bool.false_ne_true Exit.noConfusion
  | read => exact iff_of_true rfl rfl

/-- Of an answer that is no good only a message is written, and no information. -/
theorem output_of_not_good {t : StatusType} (hgood : c.good network t = false) :
    ∃ message, (c.printed network t).output = [.log message] ∧ message.level ≠ .INFO := by
  have h := answered network c t
  rw [CommandLine.good] at hgood
  rw [CommandLine.printed]
  generalize c.answer network t = answer at h hgood ⊢
  cases h with
  | threw | refused | unreadable => exact ⟨_, rfl, Level.noConfusion⟩
  | read => cases hgood

theorem print_quiet {t : StatusType} {text : Bytes} {printed : Printed}
    (h : t.print false text = .ok printed) : printed.log = [] := by
  cases t with
  | leader =>
    rw [StatusType.print, printLeader] at h
    split at h
    · cases h
      rfl
    · cases h
  | peers =>
    rw [StatusType.print, printPeers] at h
    split at h
    · cases h
      rfl
    · cases h
  | self =>
    rw [StatusType.print, printSelf] at h
    split at h
    · cases h
    · cases h
      rfl

/-- Without `-d` a good answer leaves nothing in the log. -/
theorem log_of_good {t : StatusType} (hquiet : c.debug = false) (hgood : c.good network t = true) :
    (c.printed network t).log = [] := by
  have h := answered network c t
  rw [CommandLine.good] at hgood
  rw [CommandLine.printed]
  generalize c.answer network t = answer at h hgood ⊢
  cases h with
  | threw | refused | unreadable => cases hgood
  | read answer print =>
    rw [hquiet] at print
    exact print_quiet print

/-- A stage whose bit is set asks its question and goes on behind a good answer. -/
theorem stage_on {flags flag : Int32} (hflag : flags &&& flag ≠ 0) (h : Refines agent c.settings)
    (t : StatusType) {rest : Agent → Report} {ts : List StatusType}
    (hrest : ∀ agent, Refines agent c.settings → rest agent = c.run network ts) :
    stage flags flag (fun agent => fetch network (agent.memoized t.endpoint) (t.print c.debug)) rest
      agent = c.run network (t :: ts) := by
  have hnext : Refines (agent.memoized t.endpoint).2 c.settings :=
    ⟨h.1.memoized t.endpoint, (agent.memoized_settings t.endpoint).trans h.2⟩
  rw [stage, if_pos hflag]
  simp only [fetch_eq h t, hrest _ hnext, CommandLine.run]
  cases hgood : c.good network t with
  | true => rw [if_neg (not_not.mpr ((good_iff t).mp hgood)), if_pos rfl]
  | false =>
    have hexit : c.exit network t ≠ .EX_OK := fun hok => by
      rw [(good_iff t).mpr hok] at hgood
      cases hgood
    rw [if_pos hexit, if_neg Bool.false_ne_true]

theorem stage_off {flags flag : Int32} (hflag : flags &&& flag = 0) (status : Agent → Status)
    (rest : Agent → Report) : stage flags flag status rest agent = rest agent := by
  rw [stage, if_neg (not_not.mpr hflag)]

theorem refines_agent (c : CommandLine) : Refines (agentOf c) c.settings := by
  have hempty : ∀ e, (agentOf c).memo e = [] := by
    intro e
    unfold agentOf
    cases c.host <;> cases c.port <;> cases e <;> rfl
  have hsettings : (agentOf c).settings = c.settings := by
    unfold agentOf CommandLine.settings
    cases c.host <;> cases c.port <;> rfl
  exact ⟨Agent.memoValid_of_empty hempty, hsettings⟩

/-- The flags ask for the question exactly when the command line does. -/
theorem stage_eq {flags flag : Int32} (h : Refines agent c.settings) (t : StatusType)
    {rest : Agent → Report} {ts : List StatusType}
    (hrest : ∀ agent, Refines agent c.settings → rest agent = c.run network ts) :
    stage flags flag (fun agent => fetch network (agent.memoized t.endpoint) (t.print c.debug)) rest
      agent = c.run network ((if flags &&& flag ≠ 0 then [t] else []) ++ ts) := by
  by_cases hflag : flags &&& flag = 0
  · rw [stage_off hflag, hrest agent h, if_neg (not_not.mpr hflag), List.nil_append]
  · rw [stage_on hflag h t hrest, if_pos hflag, List.singleton_append]

/-- The questions whose bits are set. -/
def flagged (flags : Int32) : List StatusType :=
  (if flags &&& StatusFlags.LEADER ≠ 0 then [.leader] else []) ++
    ((if flags &&& StatusFlags.PEERS ≠ 0 then [.peers] else []) ++
      ((if flags &&& StatusFlags.SELF ≠ 0 then [.self] else []) ++ []))

theorem stages_eq (flags : Int32) (h : Refines agent c.settings) :
    stage flags StatusFlags.LEADER (statusLeader c.debug network)
        (stage flags StatusFlags.PEERS (statusPeers network)
          (stage flags StatusFlags.SELF (statusSelf network) fun _ => ⟨[], [], .EX_OK⟩)) agent =
      c.run network (flagged flags) :=
  stage_eq h .leader fun _ h => stage_eq h .peers fun _ h => stage_eq h .self fun _ _ => rfl

theorem interpretStatus_asked (c : CommandLine) :
    ∃ flags, interpretStatus c = .ok flags ∧ flags ≠ StatusFlags.NONE ∧ flagged flags = c.asked := by
  have hall : StatusFlags.NONE ||| StatusFlags.ALL ≠ StatusFlags.NONE ∧
      flagged (StatusFlags.NONE ||| StatusFlags.ALL) = [.leader, .peers, .self] := by decide
  unfold interpretStatus CommandLine.asked
  cases hstatus : c.status with
  | none => exact ⟨_, rfl, hall.1, hall.2⟩
  | some v =>
    have hallowed := c.status_constraint v hstatus
    simp only [statusValues, List.mem_cons, List.not_mem_nil, or_false] at hallowed
    rcases hallowed with rfl | rfl | rfl | rfl
    · exact ⟨StatusFlags.NONE ||| StatusFlags.ALL, by decide, hall.1, hall.2⟩
    · exact ⟨StatusFlags.NONE ||| StatusFlags.LEADER, by decide⟩
    · exact ⟨StatusFlags.NONE ||| StatusFlags.PEERS, by decide⟩
    · exact ⟨StatusFlags.NONE ||| StatusFlags.SELF, by decide⟩

theorem main_eq_run (network : Network) (c : CommandLine) :
    main network c = c.run network c.asked := by
  obtain ⟨flags, hflags, hnone, hasked⟩ := interpretStatus_asked c
  rw [main, hflags, ← hasked]
  simp only [if_neg hnone]
  exact stages_eq flags (refines_agent c)

end Run

/-- The questions are those of the command line, in order, up to the first answer that cannot be
used. Written is what the answers before it are good for and the message about it, and the exit is
its own; without `-d` nothing is logged but that message. -/
structure MeetsStatus (network : Network) (c : CommandLine) : Prop where
  requests : (main network c).requests =
    (c.asked.take ((c.asked.takeWhile (c.good network)).length + 1)).map c.request
  output : (main network c).output =
    (c.asked.take ((c.asked.takeWhile (c.good network)).length + 1)).flatMap fun t =>
      (c.printed network t).output
  exit : (main network c).exit =
    ((c.asked.dropWhile (c.good network)).head?.map (c.exit network)).getD .EX_OK
  success : (main network c).exit = .EX_OK ↔ ∀ t ∈ c.asked, c.good network t = true
  failed : ∀ t ∈ c.asked, c.good network t = false →
    ∃ message, (c.printed network t).output = [.log message] ∧ message.level ≠ .INFO
  quiet : c.debug = false → ∀ t ∈ c.asked, c.good network t = true →
    (c.printed network t).log = []

theorem run_spec (network : Network) (c : CommandLine) (ts : List StatusType) :
    c.run network ts =
      ⟨(ts.take ((ts.takeWhile (c.good network)).length + 1)).map c.request,
        (ts.take ((ts.takeWhile (c.good network)).length + 1)).flatMap fun t =>
          (c.printed network t).output,
        ((ts.dropWhile (c.good network)).head?.map (c.exit network)).getD .EX_OK⟩ := by
  induction ts with
  | nil => rfl
  | cons t ts ih =>
    rw [CommandLine.run]
    cases hgood : c.good network t with
    | true =>
      rw [if_pos rfl, ih, List.takeWhile_cons_of_pos hgood, List.dropWhile_cons_of_pos hgood,
        List.length_cons, List.take_succ_cons, List.flatMap_cons]
      rfl
    | false =>
      have hneg : ¬ c.good network t = true := by
        rw [hgood]
        exact Bool.false_ne_true
      rw [if_neg Bool.false_ne_true, List.takeWhile_cons_of_neg hneg,
        List.dropWhile_cons_of_neg hneg, List.length_nil, List.take_succ_cons, List.take_zero,
        List.flatMap_singleton]
      rfl

theorem run_success (network : Network) (c : CommandLine) (ts : List StatusType) :
    (c.run network ts).exit = .EX_OK ↔ ∀ t ∈ ts, c.good network t = true := by
  induction ts with
  | nil => exact iff_of_true rfl fun t ht => absurd ht List.not_mem_nil
  | cons t ts ih =>
    rw [CommandLine.run, List.forall_mem_cons]
    cases hgood : c.good network t with
    | true => rw [if_pos rfl, ih, and_iff_right rfl]
    | false =>
      rw [if_neg Bool.false_ne_true, ← good_iff, hgood]
      exact (and_iff_left_of_imp (fun h => absurd h Bool.false_ne_true)).symm

/-- **A run of the tool is what its command line says**, whatever the agent answers. -/
theorem consul_status_meets (network : Network) (c : CommandLine) : MeetsStatus network c where
  requests := by rw [main_eq_run, run_spec]
  output := by rw [main_eq_run, run_spec]
  exit := by rw [main_eq_run, run_spec]
  success := by rw [main_eq_run, run_success]
  failed t _ := output_of_not_good
  quiet hquiet t _ := log_of_good hquiet

end PgConsul.Playground.ConsulStatus
