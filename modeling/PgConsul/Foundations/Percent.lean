import Mathlib.Data.List.TakeWhile
import PgConsul.Foundations.Bytes

/-! # Percent-encoding and the components of a URI

`percentDecode` is the RFC 3986 decoder: a `%` that is not followed by two hexadecimal digits is
malformed. `Uri.parse` cuts a URI with an authority into its components, and `queryPairs` reads a
query as `&`-separated `name=value` pairs, both percent-decoded. `queryNames` are the names a query
has, also when some of its pieces are malformed.
-/
namespace Foundations
set_option autoImplicit false

def hexValue (b : UInt8) : Option ℕ :=
  if chr '0' ≤ b ∧ b ≤ chr '9' then some (b.toNat - 48)
  else if chr 'a' ≤ b ∧ b ≤ chr 'f' then some (b.toNat - 87)
  else if chr 'A' ≤ b ∧ b ≤ chr 'F' then some (b.toNat - 55)
  else none

def percentDecode : Bytes → Option Bytes
  | [] => some []
  | c :: cs =>
    if c = chr '%' then
      match cs with
      | h :: l :: rest =>
        match hexValue h, hexValue l, percentDecode rest with
        | some hi, some lo, some out => some (UInt8.ofNat (16 * hi + lo) :: out)
        | _, _, _ => none
      | _ => none
    else (percentDecode cs).map (c :: ·)

theorem percentDecode_cons {c : UInt8} (h : c ≠ chr '%') (s : Bytes) :
    percentDecode (c :: s) = (percentDecode s).map (c :: ·) := by
  rw [percentDecode.eq_def]
  simp only [if_neg h]

theorem percentDecode_escape {h l : UInt8} {hi lo : ℕ} (hh : hexValue h = some hi)
    (hl : hexValue l = some lo) (s : Bytes) :
    percentDecode (chr '%' :: h :: l :: s) =
      (percentDecode s).map (UInt8.ofNat (16 * hi + lo) :: ·) := by
  rw [percentDecode, if_pos rfl]
  simp only [hh, hl]
  cases percentDecode s <;> rfl

/-- Decoding never lengthens, and it shortens whatever has an escape. -/
theorem percentDecode_length {s t : Bytes} (h : percentDecode s = some t) :
    t.length ≤ s.length ∧ (chr '%' ∈ s → t.length < s.length) := by
  fun_induction percentDecode s generalizing t with
  | case1 =>
    cases h
    simp
  | case2 a b rest hi lo out hout ha hb ih =>
    cases h
    have hle := (ih hout).1
    simp only [List.length_cons]
    omega
  | case3 => cases h
  | case4 => cases h
  | case5 c cs hc ih =>
    obtain ⟨u, hu, rfl⟩ := Option.map_eq_some_iff.mp h
    obtain ⟨hle, hlt⟩ := ih hu
    simp only [List.length_cons, List.mem_cons]
    refine ⟨by omega, ?_⟩
    rintro (hmem | hmem)
    · exact absurd hmem.symm hc
    · exact Nat.succ_lt_succ (hlt hmem)

theorem percentDecode_of_no_escape {s : Bytes} (h : chr '%' ∉ s) : percentDecode s = some s := by
  induction s with
  | nil => rfl
  | cons c s ih =>
    rw [List.mem_cons, not_or] at h
    rw [percentDecode_cons (Ne.symm h.1), ih h.2]
    rfl

/-! ## Components -/

structure Authority where
  userinfo : Option Bytes
  host : Bytes
  port : Option Bytes
deriving DecidableEq

def Authority.ofHostport (userinfo : Option Bytes) (hostport : Bytes) : Authority :=
  match splitLast (chr ':') hostport with
  | some (host, port) => ⟨userinfo, host, some port⟩
  | none => ⟨userinfo, hostport, none⟩

def Authority.parse (s : Bytes) : Authority :=
  match splitLast (chr '@') s with
  | some (userinfo, hostport) => Authority.ofHostport (some userinfo) hostport
  | none => Authority.ofHostport none s

structure Uri where
  scheme : Bytes
  authority : Authority
  path : Bytes
  query : Option Bytes
  fragment : Option Bytes
deriving DecidableEq

/-- A path goes on up to the first `?` or `#`, an authority up to the first `/` of these as well. -/
def inPath (b : UInt8) : Bool := b ≠ chr '?' && b ≠ chr '#'

def inAuthority (b : UInt8) : Bool := b ≠ chr '/' && inPath b

def queryOf : Bytes → Option Bytes
  | [] => none
  | c :: s => if c = chr '?' then some (s.takeWhile (· ≠ chr '#')) else none

def fragmentOf (s : Bytes) : Option Bytes :=
  match s.dropWhile (· ≠ chr '#') with
  | [] => none
  | _ :: f => some f

def Uri.parse (s : Bytes) : Option Uri :=
  match s.dropWhile (· ≠ chr ':') with
  | _ :: a :: b :: r =>
    if a = chr '/' ∧ b = chr '/' then
      let hier := r.dropWhile inAuthority
      let behind := hier.dropWhile inPath
      some
        { scheme := s.takeWhile (· ≠ chr ':')
          authority := Authority.parse (r.takeWhile inAuthority)
          path := hier.takeWhile inPath
          query := queryOf behind
          fragment := fragmentOf behind }
    else none
  | _ => none

theorem Authority.parse_hostport {host port : Bytes} (hat : chr '@' ∉ host)
    (hat' : chr '@' ∉ port) (hcolon : chr ':' ∉ port) :
    Authority.parse (host ++ chr ':' :: port) = ⟨none, host, some port⟩ := by
  have hnone : chr '@' ∉ host ++ chr ':' :: port := by
    simp only [List.mem_append, List.mem_cons, not_or]
    exact ⟨hat, by decide, hat'⟩
  rw [Authority.parse, splitLast_none hnone]
  simp only [Authority.ofHostport, splitLast_sep host hcolon]

theorem Uri.parse_http {authority : Bytes} (rest : Bytes)
    (ha : ∀ b ∈ authority, inAuthority b = true) :
    Uri.parse (ascii "http://" ++ authority ++ chr '/' :: rest) =
      some
        { scheme := ascii "http"
          authority := Authority.parse authority
          path := chr '/' :: rest.takeWhile inPath
          query := queryOf (rest.dropWhile inPath)
          fragment := fragmentOf (rest.dropWhile inPath) } := by
  have hslash : ¬ inAuthority (chr '/') = true := by decide
  have hpath : inPath (chr '/') = true := by decide
  have hscheme : ascii "http://" ++ authority ++ chr '/' :: rest =
      ascii "http" ++ chr ':' :: chr '/' :: chr '/' :: (authority ++ chr '/' :: rest) := by
    rw [show ascii "http://" = ascii "http" ++ [chr ':', chr '/', chr '/'] by decide]
    simp
  have hcolon : ∀ b ∈ ascii "http", (decide (b ≠ chr ':')) = true := by decide +kernel
  rw [hscheme, Uri.parse, List.dropWhile_append_of_pos hcolon, List.takeWhile_append_of_pos hcolon]
  simp only [ne_eq, not_true_eq_false, decide_false, Bool.false_eq_true, not_false_eq_true,
    List.dropWhile_cons_of_neg, List.takeWhile_cons_of_neg, and_self, if_true, List.append_nil]
  rw [List.dropWhile_append_of_pos ha, List.takeWhile_append_of_pos ha,
    List.dropWhile_cons_of_neg hslash, List.takeWhile_cons_of_neg hslash,
    List.dropWhile_cons_of_pos hpath, List.takeWhile_cons_of_pos hpath, List.append_nil]

/-! ## Queries -/

/-- One `name=value` pair; a missing `=` leaves the value empty. -/
def queryPair (s : Bytes) : Option (Bytes × Bytes) :=
  match percentDecode (s.takeWhile (· ≠ chr '=')),
      percentDecode ((s.dropWhile (· ≠ chr '=')).drop 1) with
  | some name, some value => some (name, value)
  | _, _ => none

def queryPairs (q : Bytes) : Option (List (Bytes × Bytes)) :=
  if q = [] then some [] else (q.splitOn (chr '&')).mapM queryPair

/-- The parameters a URI carries; no query is no parameters. -/
def Uri.parameters (u : Uri) : Option (List (Bytes × Bytes)) :=
  match u.query with
  | none => some []
  | some q => queryPairs q

/-! ## Names in a query -/

/-- The name a piece of a query gives its parameter. -/
def pieceName (piece : Bytes) : Option Bytes := percentDecode (piece.takeWhile (· ≠ chr '='))

/-- The names of a query; a piece whose name does not decode gives none. -/
def queryNames (q : Bytes) : List Bytes := (q.splitOn (chr '&')).filterMap pieceName

theorem queryNames_append (x y : Bytes) :
    queryNames (x ++ chr '&' :: y) = queryNames x ++ queryNames y := by
  rw [queryNames, List.splitOn_append_cons_self, List.filterMap_append]
  rfl

theorem mem_queryNames_piece {piece name : Bytes} (h : chr '&' ∉ piece) :
    name ∈ queryNames piece ↔ pieceName piece = some name := by
  rw [queryNames, List.splitOn_eq_singleton h, List.mem_filterMap]
  simp

/-- A byte that is no part of an escape is still there behind decoding. -/
theorem mem_percentDecode {c : UInt8} (hvalue : hexValue c = none) (hpercent : c ≠ chr '%')
    {s t : Bytes} (h : percentDecode s = some t) (hmem : c ∈ s) : c ∈ t := by
  fun_induction percentDecode s generalizing t with
  | case1 => exact absurd hmem List.not_mem_nil
  | case2 a b rest hi lo out hout ha hb ih =>
    cases h
    have hne : c ≠ a ∧ c ≠ b := by
      constructor
      · rintro rfl
        rw [hvalue] at hb
        cases hb
      · rintro rfl
        rw [hvalue] at ha
        cases ha
    simp only [List.mem_cons, hpercent, hne, false_or] at hmem
    exact List.mem_cons_of_mem _ (ih hout hmem)
  | case3 => cases h
  | case4 => cases h
  | case5 d cs hd ih =>
    obtain ⟨u, hu, rfl⟩ := Option.map_eq_some_iff.mp h
    rcases List.mem_cons.mp hmem with rfl | hmem
    · exact List.mem_cons_self
    · exact List.mem_cons_of_mem _ (ih hu hmem)

theorem exists_last_of_mem {c : UInt8} {s : Bytes} (h : c ∈ s) :
    ∃ u v, s = u ++ c :: v ∧ c ∉ v := by
  obtain ⟨x, y, hs, hx⟩ := List.eq_append_cons_of_mem (List.mem_reverse.mpr h)
  refine ⟨y.reverse, x.reverse, ?_, by simpa using hx⟩
  rw [← List.reverse_reverse s, hs]
  simp

section Glue
variable {c : UInt8} (hvalue : hexValue c = none) (hc : c ∉ [chr '%', chr '=', chr '&'])
  {name : Bytes} (hname : c ∉ name)
include hvalue hc hname

/-- What follows such a byte in a piece makes no difference to a name without it. -/
theorem pieceName_glue (s t : Bytes) :
    pieceName (s ++ c :: t) = some name ↔ pieceName (s ++ [c]) = some name := by
  simp only [List.mem_cons, List.not_mem_nil, or_false, not_or] at hc
  by_cases hequals : chr '=' ∈ s
  · obtain ⟨x, y, rfl, hx⟩ := List.eq_append_cons_of_mem hequals
    have hkept : ∀ rest : Bytes, (x ++ chr '=' :: y ++ rest).takeWhile (· ≠ chr '=') = x := by
      intro rest
      rw [List.append_assoc, List.takeWhile_append_of_pos (forall_ne_of_not_mem hx),
        List.cons_append, List.takeWhile_cons_of_neg (by simp), List.append_nil]
    rw [pieceName, pieceName, hkept, hkept]
  · have hkept : ∀ rest : Bytes, (s ++ c :: rest).takeWhile (· ≠ chr '=') =
        s ++ c :: rest.takeWhile (· ≠ chr '=') := by
      intro rest
      rw [List.takeWhile_append_of_pos (forall_ne_of_not_mem hequals),
        List.takeWhile_cons_of_pos (by simpa using hc.2.1)]
    have hnot : ∀ rest : Bytes, pieceName (s ++ c :: rest) ≠ some name := by
      intro rest hdecode
      rw [pieceName, hkept] at hdecode
      exact hname (mem_percentDecode hvalue hc.1 hdecode (by simp))
    exact iff_of_false (hnot t) (hnot [])

theorem mem_queryNames_glue (s : Bytes) {t : Bytes} (ht : chr '&' ∉ t) :
    name ∈ queryNames (s ++ c :: t) ↔ name ∈ queryNames (s ++ [c]) := by
  have hamp : chr '&' ≠ c := fun heq => hc (heq ▸ by simp)
  have hpiece : ∀ u : Bytes, chr '&' ∉ u → (name ∈ queryNames (u ++ c :: t) ↔
      name ∈ queryNames (u ++ [c])) := by
    intro u hu
    rw [mem_queryNames_piece (by simp [hu, hamp, ht]), mem_queryNames_piece (by simp [hu, hamp])]
    exact pieceName_glue hvalue hc hname u t
  by_cases hmem : chr '&' ∈ s
  · obtain ⟨u, v, rfl, hv⟩ := exists_last_of_mem hmem
    rw [List.append_assoc, List.append_assoc, List.cons_append, List.cons_append,
      queryNames_append, queryNames_append, List.mem_append, List.mem_append, hpiece v hv]
  · exact hpiece s hmem

end Glue

/-! ## The query of a URL -/

theorem dropWhile_inAuthority (s : Bytes) :
    (s.dropWhile inAuthority).dropWhile inPath = s.dropWhile inPath := by
  induction s with
  | nil => rfl
  | cons b s ih =>
    by_cases hb : inAuthority b = true
    · have hpath : inPath b = true := by
        rw [inAuthority, Bool.and_eq_true] at hb
        exact hb.2
      rw [List.dropWhile_cons_of_pos hb, List.dropWhile_cons_of_pos hpath, ih]
    · rw [List.dropWhile_cons_of_neg hb]

/-- Whatever the authority is, the query is what follows the first `?` or `#`. -/
theorem Uri.parse_query (s : Bytes) :
    ∃ u, Uri.parse (ascii "http://" ++ s) = some u ∧ u.query = queryOf (s.dropWhile inPath) := by
  have hscheme : ascii "http://" ++ s =
      ascii "http" ++ chr ':' :: chr '/' :: chr '/' :: s := by
    rw [show ascii "http://" = ascii "http" ++ [chr ':', chr '/', chr '/'] by decide]
    simp
  have hcolon : ∀ b ∈ ascii "http", (decide (b ≠ chr ':')) = true := by decide +kernel
  rw [hscheme, Uri.parse, List.dropWhile_append_of_pos hcolon]
  simp only [ne_eq, not_true_eq_false, decide_false, Bool.false_eq_true, not_false_eq_true,
    List.dropWhile_cons_of_neg, and_self, if_true]
  exact ⟨_, rfl, by simp only [dropWhile_inAuthority]⟩

end Foundations
