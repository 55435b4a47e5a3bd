import Mathlib.Data.List.Lex
import PgConsul.Cpr.Session
import PgConsul.Foundations.Lines
import PgConsul.Foundations.OrderedMap

/-! # Reading a response

Behind every request `makeRequest` reads the headers and the cookies curl has collected. A header
line is cut at its first colon, and two characters further on: a line that ends before that makes
the program throw, or read in front of an empty string. Header lines of several responses, one for
each redirect, come as one text, and a status line drops what was read before it.
-/
namespace PgConsul.Cpr
set_option autoImplicit false
open Foundations

/-- What the platform decides: `std::tolower` of an `unsigned char`, and the `what()` of
`std::string::substr` for a position behind the end. -/
structure StdLib where
  tolower : UInt8 → ℤ
  substrWhat : ℕ → ℕ → Bytes

/-- libstdc++ in the C locale. -/
def StdLib.gnu : StdLib where
  tolower b := if chr 'A' ≤ b ∧ b ≤ chr 'Z' then b.toNat + 32 else b.toNat
  substrWhat pos size := ascii "basic_string::substr: __pos (which is " ++ decimal pos ++
    ascii ") > this->size() (which is " ++ decimal size ++ ascii ")"

def StdLib.caseless (lib : StdLib) (s : Bytes) : List ℤ := s.map lib.tolower

inductive Failure where
  | threw (what : Bytes)
  | undefined
deriving DecidableEq

/-- `std::map` under `CaseInsensitiveCompare`. -/
@[ext]
structure Header (lib : StdLib) where
  entries : List (Bytes × Bytes)
  ordered : OrderedMap.Ordered lib.caseless entries

namespace Header
variable {lib : StdLib}

def empty : Header lib := ⟨[], .nil⟩

def assign (header : Header lib) (key value : Bytes) : Header lib :=
  ⟨OrderedMap.assign lib.caseless key value header.entries, header.ordered.assign value⟩

def find (header : Header lib) (name : Bytes) : Option Bytes :=
  OrderedMap.find lib.caseless name header.entries

end Header

/-! ## The header parser -/

/-- `s.substr(pos, n)` -/
def substr (lib : StdLib) (s : Bytes) (pos n : ℕ) : Except Failure Bytes :=
  if s.length < pos then .error (.threw (lib.substrWhat pos s.length)) else .ok ((s.drop pos).take n)

/-- What a line of the loop assigns. -/
def headerField (lib : StdLib) (line : Bytes) : Except Failure (Option (Bytes × Bytes)) :=
  if 0 < line.length then
    match line.idxOf? (chr ':') with
    | none => .ok none
    | some found =>
      match substr lib line (found + 2) (line.length - 1) with
      | .error e => .error e
      | .ok value =>
        -- `back()` has no meaning for an empty string
        if value = [] then .error .undefined
        else
          let value :=
            if value.getLast? = some (chr '\r') then value.take (value.length - 1) else value
          .ok (some (line.take found, value))
  else .ok none

def isStatusLine (line : Bytes) : Bool := line.take 5 = ascii "HTTP/"

/-- A round of the loop. -/
def headerStep (lib : StdLib) (header : Header lib) (line : Bytes) :
    Except Failure (Header lib) :=
  let header := if isStatusLine line then .empty else header
  match headerField lib line with
  | .error e => .error e
  | .ok none => .ok header
  | .ok (some p) => .ok (header.assign p.1 p.2)

def parseHeader (lib : StdLib) (headers : Bytes) : Except Failure (Header lib) :=
  (readLines (chr '\n') headers).foldlM (headerStep lib) .empty

/-! ## One line -/

/-- At least two characters stand behind the first colon. -/
def Readable (line : Bytes) : Prop :=
  ∀ name rest, chr ':' ∉ name → line = name ++ chr ':' :: rest → 2 ≤ rest.length

/-- What becomes of a line that is not readable. -/
inductive Breaks (lib : StdLib) : Bytes → Failure → Prop where
  | nothing {name : Bytes} (h : chr ':' ∉ name) :
      Breaks lib (name ++ [chr ':']) (.threw (lib.substrWhat (name.length + 2) (name.length + 1)))
  | single {name : Bytes} (b : UInt8) (h : chr ':' ∉ name) :
      Breaks lib (name ++ [chr ':', b]) .undefined

/-- One carriage return at the end is no part of a value. -/
def dropReturn (value : Bytes) : Bytes :=
  if value.getLast? = some (chr '\r') then value.dropLast else value

/-- The name in front of the first colon, and the value behind it but for the next character. -/
def fieldOf (line : Bytes) : Option (Bytes × Bytes) :=
  match line.dropWhile (· ≠ chr ':') with
  | [] => none
  | _ :: rest => some (line.takeWhile (· ≠ chr ':'), dropReturn (rest.drop 1))

section Line
variable {lib : StdLib} {name rest line : Bytes}

theorem line_cases (line : Bytes) : chr ':' ∉ line ∨
    ∃ name rest, chr ':' ∉ name ∧ line = name ++ chr ':' :: rest := by
  by_cases h : chr ':' ∈ line
  · obtain ⟨name, rest, hline, hname⟩ := List.eq_append_cons_of_mem h
    exact .inr ⟨name, rest, hname, hline⟩
  · exact .inl h

theorem headerField_plain (h : chr ':' ∉ line) : headerField lib line = .ok none := by
  rw [headerField, List.idxOf?_eq_none_iff.mpr h]
  split <;> rfl

theorem fieldOf_plain (h : chr ':' ∉ line) : fieldOf line = none := by
  have hall : line.dropWhile (· ≠ chr ':') = [] := by
    rw [List.dropWhile_eq_nil_iff]
    intro b hb
    exact decide_eq_true fun heq => h (heq ▸ hb)
  rw [fieldOf, hall]

theorem idxOf?_colon (h : chr ':' ∉ name) :
    (name ++ chr ':' :: rest).idxOf? (chr ':') = some name.length := by
  induction name with
  | nil => simp [List.idxOf?_cons]
  | cons b name ih =>
    rw [List.mem_cons, not_or] at h
    rw [List.cons_append, List.idxOf?_cons, ih h.2]
    simp [Ne.symm h.1]

theorem fieldOf_colon (h : chr ':' ∉ name) :
    fieldOf (name ++ chr ':' :: rest) = some (name, dropReturn (rest.drop 1)) := by
  have hname : ∀ b ∈ name, decide (b ≠ chr ':') = true := by
    intro b hb
    exact decide_eq_true fun heq => h (heq ▸ hb)
  rw [fieldOf, List.dropWhile_append_of_pos hname, List.takeWhile_append_of_pos hname]
  simp

theorem headerField_colon (lib : StdLib) (h : chr ':' ∉ name) :
    headerField lib (name ++ chr ':' :: rest) =
      match rest with
      | [] => .error (.threw (lib.substrWhat (name.length + 2) (name.length + 1)))
      | [_] => .error .undefined
      | _ :: b :: value => .ok (some (name, dropReturn (b :: value))) := by
  have hlength : (name ++ chr ':' :: rest).length = name.length + 1 + rest.length := by
    rw [List.length_append, List.length_cons]
    omega
  have hpos : 0 < (name ++ chr ':' :: rest).length := by omega
  have hdrop : (name ++ chr ':' :: rest).drop (name.length + 2) = rest.drop 1 := by
    rw [List.drop_append, List.drop_eq_nil_of_le (by omega), List.nil_append]
    have hcount : name.length + 2 - name.length = 1 + 1 := by omega
    rw [hcount, List.drop_succ_cons]
  have htake : (name ++ chr ':' :: rest).take name.length = name := List.take_left' rfl
  rw [headerField, if_pos hpos, idxOf?_colon h]
  simp only [substr, hdrop, htake, hlength]
  cases rest with
  | nil =>
    rw [if_pos (by simp)]
    rfl
  | cons b rest =>
    have hin : ¬ name.length + 1 + (b :: rest).length < name.length + 2 := by
      rw [List.length_cons]
      omega
    have hall : (rest.take (name.length + 1 + (b :: rest).length - 1)) = rest := by
      refine List.take_of_length_le ?_
      rw [List.length_cons]
      omega
    rw [if_neg hin, List.drop_one, List.tail_cons, hall]
    cases rest with
    | nil => rfl
    | cons d value =>
      simp only [dropReturn, List.dropLast_eq_take]
      rfl

theorem headerField_readable (h : Readable line) : headerField lib line = .ok (fieldOf line) := by
  obtain hplain | ⟨name, rest, hname, rfl⟩ := line_cases line
  · rw [headerField_plain hplain, fieldOf_plain hplain]
  · have htwo := h name rest hname rfl
    rw [headerField_colon lib hname, fieldOf_colon hname]
    match rest, htwo with
    | _ :: b :: value, _ => rfl

theorem headerField_error_iff (e : Failure) :
    headerField lib line = .error e ↔ Breaks lib line e := by
  constructor
  · intro h
    obtain hplain | ⟨name, rest, hname, rfl⟩ := line_cases line
    · rw [headerField_plain hplain] at h
      cases h
    · rw [headerField_colon lib hname] at h
      match rest with
      | [] =>
        cases h
        exact .nothing hname
      | [b] =>
        cases h
        exact .single b hname
      | _ :: b :: value => cases h
  · intro h
    cases h with
    | nothing hname => rw [headerField_colon lib hname]
    | single b hname => rw [headerField_colon lib hname]

theorem readable_iff (lib : StdLib) : Readable line ↔ ∀ e, ¬ Breaks lib line e := by
  constructor
  · intro h e hbreaks
    rw [← headerField_error_iff, headerField_readable h] at hbreaks
    cases hbreaks
  · rintro h name rest hname rfl
    match rest with
    | [] => exact absurd (.nothing hname) (h _)
    | [b] => exact absurd (.single b hname) (h _)
    | _ :: b :: value =>
      simp only [List.length_cons]
      omega

end Line

/-! ## All lines -/

/-- The lines from the last status line on; all of them if there is none. -/
def lastMessage : List Bytes → List Bytes
  | [] => []
  | line :: lines => if lines.any isStatusLine then lastMessage lines else line :: lines

def fields (lines : List Bytes) : List (Bytes × Bytes) := (lastMessage lines).filterMap fieldOf

section Lines
variable {lib : StdLib}

theorem lastMessage_plain {lines : List Bytes} (h : lines.any isStatusLine = false) :
    lastMessage lines = lines := by
  cases lines with
  | nil => rfl
  | cons line lines =>
    rw [List.any_cons, Bool.or_eq_false_iff] at h
    rw [lastMessage, if_neg (by rw [h.2]; decide)]

theorem headerStep_readable (header : Header lib) {line : Bytes} (h : Readable line) :
    ∃ next, headerStep lib header line = .ok next ∧
      next.entries = OrderedMap.assignAll lib.caseless (fieldOf line).toList
        (if isStatusLine line then [] else header.entries) := by
  unfold headerStep
  rw [headerField_readable h]
  cases fieldOf line with
  | none =>
    refine ⟨_, rfl, ?_⟩
    split <;> rfl
  | some p =>
    refine ⟨_, rfl, ?_⟩
    split <;> rfl

/-- **The loop invariant**: the entries are the assignments of the lines since the last status
line. -/
theorem foldlM_readable {lines : List Bytes} (h : ∀ line ∈ lines, Readable line)
    (header : Header lib) :
    ∃ last, lines.foldlM (headerStep lib) header = .ok last ∧
      last.entries = OrderedMap.assignAll lib.caseless (fields lines)
        (if lines.any isStatusLine then [] else header.entries) := by
  induction lines generalizing header with
  | nil => exact ⟨header, rfl, rfl⟩
  | cons line lines ih =>
    rw [List.forall_mem_cons] at h
    obtain ⟨next, hnext, hentries⟩ := headerStep_readable header h.1
    obtain ⟨last, hlast, hrest⟩ := ih h.2 next
    refine ⟨last, ?_, ?_⟩
    · rw [List.foldlM_cons, hnext]
      exact hlast
    · rw [hrest, fields, fields, lastMessage, List.any_cons]
      cases hany : lines.any isStatusLine with
      | true => simp
      | false =>
        rw [lastMessage_plain hany, hentries]
        simp only [Bool.or_false, if_neg Bool.false_ne_true, List.filterMap_cons]
        cases fieldOf line <;> rfl

theorem headerStep_error_iff (header : Header lib) (line : Bytes) (e : Failure) :
    headerStep lib header line = .error e ↔ Breaks lib line e := by
  rw [← headerField_error_iff, headerStep]
  cases headerField lib line with
  | error e' => simp
  | ok p => cases p <;> simp

theorem readable_of_foldlM {lines : List Bytes} {header last : Header lib}
    (h : lines.foldlM (headerStep lib) header = .ok last) : ∀ line ∈ lines, Readable line := by
  induction lines generalizing header with
  | nil => exact fun line hline => absurd hline List.not_mem_nil
  | cons line lines ih =>
    rw [List.foldlM_cons] at h
    cases hstep : headerStep lib header line with
    | error e =>
      rw [hstep] at h
      cases h
    | ok next =>
      rw [hstep] at h
      refine List.forall_mem_cons.mpr ⟨(readable_iff lib).mpr fun e hbreaks => ?_, ih h⟩
      rw [← headerStep_error_iff header, hstep] at hbreaks
      cases hbreaks

theorem parseHeader_ok_iff (lib : StdLib) (headers : Bytes) :
    (∃ header, parseHeader lib headers = .ok header) ↔
      ∀ line ∈ readLines (chr '\n') headers, Readable line := by
  constructor
  · rintro ⟨header, h⟩
    exact readable_of_foldlM h
  · intro h
    obtain ⟨last, hlast, -⟩ := foldlM_readable h (.empty : Header lib)
    exact ⟨last, hlast⟩

theorem foldlM_breaks {lines : List Bytes} (header : Header lib) (e : Failure) :
    lines.foldlM (headerStep lib) header = .error e ↔
      ∃ before line after, lines = before ++ line :: after ∧ (∀ l ∈ before, Readable l) ∧
        Breaks lib line e := by
  induction lines generalizing header with
  | nil =>
    constructor
    · intro h
      cases h
    · rintro ⟨before, line, after, hlines, -⟩
      simp at hlines
  | cons first lines ih =>
    rw [List.foldlM_cons]
    by_cases hread : Readable first
    · obtain ⟨next, hnext, -⟩ := headerStep_readable header hread
      rw [hnext]
      refine (ih next).trans ⟨?_, ?_⟩
      · rintro ⟨before, line, after, rfl, hbefore, hbreaks⟩
        exact ⟨first :: before, line, after, rfl, List.forall_mem_cons.mpr ⟨hread, hbefore⟩,
          hbreaks⟩
      · rintro ⟨before, line, after, hlines, hbefore, hbreaks⟩
        cases before with
        | nil =>
          cases hlines
          exact absurd hbreaks ((readable_iff lib).mp hread e)
        | cons b before =>
          cases hlines
          exact ⟨before, line, after, rfl, (List.forall_mem_cons.mp hbefore).2, hbreaks⟩
    · obtain ⟨e', hfirst⟩ := not_forall_not.mp fun h => hread ((readable_iff lib).mpr h)
      have herror := (headerStep_error_iff header first e').mpr hfirst
      rw [herror]
      constructor
      · intro h
        cases h
        exact ⟨[], first, lines, rfl, fun l hl => absurd hl List.not_mem_nil, hfirst⟩
      · rintro ⟨before, line, after, hlines, hbefore, hbreaks⟩
        cases before with
        | nil =>
          cases hlines
          have hsame := herror.symm.trans ((headerStep_error_iff header _ e).mpr hbreaks)
          cases hsame
          rfl
        | cons b before =>
          cases hlines
          exact absurd (hbefore _ List.mem_cons_self) hread

/-- **What the parser makes of any header text**: the fields from the last status line on, if every
line can be read, and otherwise the failure of the first line that cannot. -/
theorem parseHeader_iff (lib : StdLib) (headers : Bytes) :
    (∀ header : Header lib, parseHeader lib headers = .ok header ↔
      (∀ line ∈ readLines (chr '\n') headers, Readable line) ∧
        header.entries =
          OrderedMap.assignAll lib.caseless (fields (readLines (chr '\n') headers)) []) ∧
      ∀ e, parseHeader lib headers = .error e ↔
        ∃ before line after, readLines (chr '\n') headers = before ++ line :: after ∧
          (∀ l ∈ before, Readable l) ∧ Breaks lib line e := by
  have hentries : ∀ {header : Header lib}, (∀ line ∈ readLines (chr '\n') headers, Readable line) →
      (parseHeader lib headers = .ok header ↔ header.entries =
        OrderedMap.assignAll lib.caseless (fields (readLines (chr '\n') headers)) []) := by
    intro header hread
    obtain ⟨last, hlast, hentries⟩ := foldlM_readable hread (.empty : Header lib)
    have hempty : (if (readLines (chr '\n') headers).any isStatusLine then []
        else (Header.empty : Header lib).entries) = [] := ite_self _
    rw [hempty] at hentries
    rw [parseHeader, hlast, Except.ok.injEq, ← hentries]
    exact ⟨fun h => congrArg Header.entries h.symm, fun h => Header.ext h.symm⟩
  refine ⟨fun header => ⟨fun h => ?_, ?_⟩, foldlM_breaks .empty⟩
  · have hread := readable_of_foldlM h
    exact ⟨hread, (hentries hread).mp h⟩
  · rintro ⟨hread, hheader⟩
    exact (hentries hread).mpr hheader

end Lines

/-! ## The whole answer -/

/-- What curl leaves behind: the headers and the body as `writeFunction` was given them, and the
lines of its cookie list. -/
structure Exchange where
  responseCode : ℤ
  headers : List Bytes
  body : List Bytes
  cookies : List Bytes

/-- `util::writeFunction`, call after call. -/
def written (calls : List Bytes) : Bytes := calls.foldl (fun data ptr => data ++ ptr) []

def split (toSplit : Bytes) (delimiter : UInt8) : List Bytes := readLines delimiter toSplit

/-- The last field of a line is the value and the one in front of it the name; `back()` has no
meaning for an empty list. -/
def readCookie (nc : Bytes) : Except Failure (Bytes × Bytes) :=
  match (split nc (chr '\t')).reverse with
  | value :: name :: _ => .ok (name, value)
  | _ => .error .undefined

/-- `makeRequest` behind `curl_easy_perform`; only the code and the text of a response are read. -/
def makeResponse (lib : StdLib) (x : Exchange) : Except Failure Response :=
  match x.cookies.mapM readCookie with
  | .error e => .error e
  | .ok _ =>
    match parseHeader lib (written x.headers) with
    | .error e => .error e
    | .ok _ => .ok ⟨x.responseCode, parseResponse (written x.body)⟩

/-- What the functions of the extension see of an exchange; `none` is undefined behaviour. -/
def Exchange.transfer (lib : StdLib) (x : Exchange) : Option Transfer :=
  match makeResponse lib x with
  | .error .undefined => none
  | .error (.threw what) => some (.threw what)
  | .ok _ => some (.answered x.responseCode (written x.body))

theorem written_eq (calls : List Bytes) : written calls = calls.flatten := by
  have hfold : ∀ data : Bytes, calls.foldl (fun data ptr => data ++ ptr) data =
      data ++ calls.flatten := by
    induction calls with
    | nil => simp
    | cons ptr calls ih => simp [ih]
  exact hfold []

/-- A cookie line of at least two fields. -/
def TwoFields (nc : Bytes) : Prop := 2 ≤ (split nc (chr '\t')).length

theorem readCookie_ok_iff (nc : Bytes) : (∃ p, readCookie nc = .ok p) ↔ TwoFields nc := by
  rw [TwoFields, ← List.length_reverse, readCookie]
  match (split nc (chr '\t')).reverse with
  | [] => simp
  | [_] => simp
  | value :: name :: _ => simp

theorem mapM_ok_iff {α β : Type} (f : α → Except Failure β) (xs : List α) :
    (∃ ys, xs.mapM f = .ok ys) ↔ ∀ x ∈ xs, ∃ y, f x = .ok y := by
  induction xs with
  | nil => exact ⟨fun _ x hx => absurd hx List.not_mem_nil, fun _ => ⟨[], rfl⟩⟩
  | cons x xs ih =>
    rw [List.forall_mem_cons, ← ih, List.mapM_cons]
    cases f x with
    | error e => simp [bind, Except.bind]
    | ok y => cases xs.mapM f <;> simp [bind, Except.bind, pure, Except.pure]

theorem mapM_readCookie_error {cookies : List Bytes} {e : Failure}
    (h : cookies.mapM readCookie = .error e) : e = .undefined := by
  induction cookies with
  | nil => cases h
  | cons nc cookies ih =>
    rw [List.mapM_cons] at h
    cases hfirst : readCookie nc with
    | error e' =>
      rw [hfirst] at h
      cases h
      unfold readCookie at hfirst
      split at hfirst
      · cases hfirst
      · cases hfirst
        rfl
    | ok p =>
      rw [hfirst] at h
      cases hrest : cookies.mapM readCookie with
      | error e' =>
        rw [hrest] at h
        cases h
        exact ih hrest
      | ok ps =>
        rw [hrest] at h
        cases h

/-- A response is made exactly when every cookie line has two fields and every header line can be
read. -/
theorem transfer_answered_iff (lib : StdLib) (x : Exchange) (responseCode : ℤ) (body : Bytes) :
    x.transfer lib = some (.answered responseCode body) ↔
      (∀ nc ∈ x.cookies, TwoFields nc) ∧
        (∀ line ∈ readLines (chr '\n') x.headers.flatten, Readable line) ∧
        responseCode = x.responseCode ∧ body = x.body.flatten := by
  have hcookies : (∀ nc ∈ x.cookies, TwoFields nc) ↔ ∃ ps, x.cookies.mapM readCookie = .ok ps := by
    rw [mapM_ok_iff]
    exact forall₂_congr fun nc _ => (readCookie_ok_iff nc).symm
  rw [hcookies, ← parseHeader_ok_iff lib, Exchange.transfer, makeResponse, written_eq, written_eq]
  have herror : ∀ e : Failure, (match (.error e : Except Failure Response) with
      | .error .undefined => none
      | .error (.threw what) => some (Transfer.threw what)
      | .ok _ => some (.answered x.responseCode x.body.flatten)) ≠
        some (.answered responseCode body) := by
    intro e
    cases e <;> simp
  cases x.cookies.mapM readCookie with
  | error e => simpa using herror e
  | ok ps =>
    cases parseHeader lib x.headers.flatten with
    | error e => simpa using herror e
    | ok header => simp [eq_comm]

end PgConsul.Cpr
