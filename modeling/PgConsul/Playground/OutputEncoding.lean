import PgConsul.Extension.TextEncoding
import PgConsul.Playground.StatusReport
import PgConsul.Playground.StatusRun

/-! # The encoding of what consul-status writes

The tool prints hosts as they stand in the answer, peers as the JSON text of their string, and the
members of the answer about the agent as `dump` writes them. All of it is UTF-8 when the answers are
Unicode texts. What it logs of an answer it cannot read may end within a character.
-/
namespace PgConsul.Playground.ConsulStatus
set_option autoImplicit false
open Foundations Consul Cpr Json11 Extension

/-! ## Lines -/

theorem allStrings_subscript {P : Bytes → Prop} {json : Json} (h : AllStrings P json)
    (key : Bytes) : AllStrings P (subscript json key) := by
  rcases subscript_cases json key with hnull | ⟨values, rfl, hmem⟩
  · rw [hnull]
    exact .null
  · exact (allStrings_object.mp h _ hmem).2

theorem allStrings_value {P : Bytes → Prop} {json : Json} (h : AllStrings P json)
    (keys : List Bytes) : AllStrings P (keys.foldl subscript json) := by
  induction keys generalizing json with
  | nil => exact h
  | cons key keys ih => exact ih (allStrings_subscript h key)

theorem oids_ascii : ∀ e ∈ selfEntries, IsAscii e.oid := by decide +kernel

theorem line_utf8 {json : Json} (h : AllStrings IsUtf8 json) {e : Entry} (he : e ∈ selfEntries) :
    IsUtf8 (e.line json) := by
  have hvalue : IsUtf8 (dump (e.value json)) :=
    (dumpPart_dump _).utf8_iff.mpr (allStrings_value h e.keys)
  exact (isUtf8_ascii_split (by decide) _ _).mpr ⟨(oids_ascii e he).isUtf8, hvalue⟩

/-! ## Printers -/

structure Printed.IsUtf8 (printed : Printed) : Prop where
  lines : ∀ line ∈ printed.lines, Foundations.IsUtf8 line
  log : ∀ message ∈ printed.log, Foundations.IsUtf8 message.text

/-- What is written of a Unicode text is UTF-8. -/
def Printer.KeepsUtf8 (print : Printer) : Prop :=
  ∀ text printed, UnicodeText text → print text = .ok printed → printed.IsUtf8

theorem printLeader_utf8 (debugFlag : Bool) : (printLeader debugFlag).KeepsUtf8 := by
  intro text printed htext h
  rw [printLeader] at h
  split at h
  · next hok =>
    cases h
    have hmark : IsAscii (ascii "Leader: ") := by decide
    have hhost := (Peer.initFromText_utf8 htext hok).1
    refine ⟨List.forall_mem_singleton.mpr ((hmark.isUtf8_append _).mpr (Peer.str_utf8 hhost)), ?_⟩
    split
    · have hHost : IsAscii (ascii "Host: ") := by decide
      have hPort : IsAscii (ascii "Port: ") := by decide
      have hJSON : IsAscii (ascii "JSON: ") := by decide
      simp only [List.forall_mem_cons, hHost.isUtf8_append, hPort.isUtf8_append,
        hJSON.isUtf8_append]
      exact ⟨hhost, isUtf8_decimal _, Peer.json_utf8 hhost, List.forall_mem_nil _⟩
    · exact List.forall_mem_nil _
  · cases h

theorem printPeers_utf8 : Printer.KeepsUtf8 printPeers := by
  intro text printed htext h
  rw [printPeers] at h
  split at h
  · next hok =>
    cases h
    have hmark : IsAscii (ascii "JSON Peer: ") := by decide
    refine ⟨fun line hline => ?_, List.forall_mem_nil _⟩
    obtain ⟨peer, hpeer, rfl⟩ := List.mem_map.mp hline
    exact (hmark.isUtf8_append _).mpr (Peer.json_utf8 (initFromJsonPeers_utf8 htext hok peer hpeer))
  · cases h

theorem printSelf_utf8 : Printer.KeepsUtf8 printSelf := by
  intro text printed htext h
  cases hparse : parseText text with
  | error message =>
    obtain ⟨herror, hne⟩ := parse_error hparse
    rw [printSelf, herror, if_pos hne] at h
    cases h
  | ok json =>
    rw [printSelf_eq hparse] at h
    cases h
    refine ⟨fun line hline => ?_, List.forall_mem_nil _⟩
    obtain ⟨e, he, rfl⟩ := List.mem_map.mp hline
    exact line_utf8 (htext.allStrings hparse) he

/-! ## A run of the tool -/

def Line.text : Line → Bytes
  | .out text => text
  | .log message => message.text

/-- The message that ends a run at an answer that is not read, or at none. -/
inductive Line.EndsUnread : Exit → Line → Prop where
  | unreadable (text : Bytes) : EndsUnread .EX_PROTOCOL (.log ⟨.ERROR, text⟩)
  | threw (text : Bytes) : EndsUnread .aborted (.log ⟨.FATAL, text⟩)

/-- Every line is UTF-8, but for such a message. -/
def Report.IsUtf8 (report : Report) : Prop :=
  ∀ line ∈ report.output, Foundations.IsUtf8 line.text ∨ line.EndsUnread report.exit

theorem isUtf8_decimalInt (i : ℤ) : IsUtf8 (decimalInt i) := by
  rw [decimalInt]
  split
  · exact (isUtf8_ascii_cons (by decide) _).mpr (isUtf8_decimal _)
  · exact isUtf8_decimal _

section Run
variable {network : Network} {c : CommandLine} {t : StatusType}

theorem print_utf8 (debugFlag : Bool) (t : StatusType) : (t.print debugFlag).KeepsUtf8 := by
  cases t with
  | leader => exact printLeader_utf8 debugFlag
  | peers => exact printPeers_utf8
  | self => exact printSelf_utf8

theorem printed_utf8 (hanswers : UnicodeAnswers network) (hgood : c.good network t = true) :
    ∀ line ∈ (c.printed network t).output, IsUtf8 line.text := by
  have h := answered network c t
  rw [CommandLine.good] at hgood
  rw [CommandLine.printed]
  generalize c.answer network t = answer at h hgood ⊢
  cases h with
  | threw | refused | unreadable => cases hgood
  | read answer print =>
    obtain ⟨hlines, hlog⟩ := print_utf8 c.debug t _ _ (hanswers _ _ _ answer) print
    intro line hline
    rcases List.mem_append.mp hline with hline | hline
    · obtain ⟨text, htext, rfl⟩ := List.mem_map.mp hline
      exact hlines text htext
    · obtain ⟨message, hmessage, rfl⟩ := List.mem_map.mp hline
      exact hlog message hmessage

theorem message_utf8 (hgood : c.good network t = false) :
    ∀ line ∈ (c.printed network t).output,
      IsUtf8 line.text ∨ line.EndsUnread (c.exit network t) := by
  have hmark : IsAscii (ascii "consul returned error ") := by decide
  have h := answered network c t
  rw [CommandLine.good] at hgood
  rw [CommandLine.printed, CommandLine.exit]
  generalize c.answer network t = answer at h hgood ⊢
  cases h with
  | threw what => exact List.forall_mem_singleton.mpr (.inr (.threw _))
  | refused responseCode =>
    refine List.forall_mem_singleton.mpr (.inl ?_)
    exact (hmark.isUtf8_append _).mpr (isUtf8_decimalInt responseCode)
  | unreadable message => exact List.forall_mem_singleton.mpr (.inr (.unreadable message))
  | read => cases hgood

theorem run_utf8 (h : UnicodeAnswers network) (ts : List StatusType) :
    (c.run network ts).IsUtf8 := by
  induction ts with
  | nil => exact List.forall_mem_nil _
  | cons t ts ih =>
    rw [CommandLine.run]
    split
    · next hgood =>
      intro line hline
      rcases List.mem_append.mp hline with hline | hline
      · exact .inl (printed_utf8 h hgood line hline)
      · exact ih line hline
    · next hgood => exact message_utf8 (Bool.eq_false_of_not_eq_true hgood)

end Run

/-- **What consul-status writes is UTF-8** when the answers are Unicode texts, for every command
line: all that it prints and every message, but for the one about an answer it does not read. -/
theorem consul_status_utf8 {network : Network} (h : UnicodeAnswers network) (c : CommandLine) :
    (main network c).IsUtf8 := by
  rw [main_eq_run]
  exact run_utf8 h c.asked

/-- The agent's datacenter, with an escaped letter that is not ASCII. -/
def selfEscaped : Bytes := ascii "\x7b\"Config\": \x7b\"Datacenter\": \"\\u00e9\"\x7d\x7d"

def selfOnly : CommandLine := ⟨false, none, none, some (ascii "self"), by decide⟩

theorem consul_status_utf8_self : (main (fun _ => .answered 200 selfEscaped) selfOnly).IsUtf8 := by
  refine consul_status_utf8 ?_ _
  have hself : UnicodeText (parseResponse selfEscaped) := ⟨by decide +kernel, by decide +kernel⟩
  rintro r responseCode body hbody
  cases hbody
  exact hself

/-- The message about a text that ends in `é` ends within that character. -/
example : (main (fun _ => .answered 200 (ascii "tar" ++ [0xC3, 0xA9])) selfOnly).output =
    [.log ⟨.ERROR, ascii "Unable to parse json: parse error: expected true, got tar" ++ [0xC3]⟩] := by
  decide +kernel

end PgConsul.Playground.ConsulStatus
