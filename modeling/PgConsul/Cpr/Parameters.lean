import PgConsul.Foundations.Percent
import PgConsul.Platform

/-! # Request parameters

`util::urlEncode` escapes every byte of a name or a value that is not unreserved, and
`Parameters::AddParameter` joins the results with `&` and `=`. The query is shown to decode to the
parameters that were added. Behind a text that has a query of its own it does not.
-/
namespace PgConsul.Cpr
set_option autoImplicit false
open Foundations

/-! ## Escaping -/

/-- `std::isalnum` on a `char`. -/
def isalnum (platform : Platform) (c : UInt8) : Bool :=
  if c < 0x80 then
    isDigit c || (chr 'a' ≤ c && c ≤ chr 'z') || (chr 'A' ≤ c && c ≤ chr 'Z')
  else platform.alnumHigh c

def hexByte (n : ℕ) : UInt8 := if n < 10 then UInt8.ofNat (48 + n) else UInt8.ofNat (87 + n)

def isKept (platform : Platform) (c : UInt8) : Bool :=
  isalnum platform c || c = chr '-' || c = chr '_' || c = chr '.' || c = chr '~'

def urlEncodeChar (platform : Platform) (c : UInt8) : Bytes :=
  if isKept platform c then [c]
  else [chr '%', hexByte (c.toNat / 16), hexByte (c.toNat % 16)]

/-- `util::urlEncode`. -/
def urlEncode (platform : Platform) (value : Bytes) : Bytes :=
  value.flatMap (urlEncodeChar platform)

theorem hexValue_hexByte : ∀ n < 16, hexValue (hexByte n) = some n := by decide

theorem isKept_percent (platform : Platform) : isKept platform (chr '%') = false := rfl

theorem percentDecode_urlEncodeChar (platform : Platform) (c : UInt8) (s : Bytes) :
    percentDecode (urlEncodeChar platform c ++ s) = (percentDecode s).map (c :: ·) := by
  unfold urlEncodeChar
  split
  · next hkept =>
    have hc : c ≠ chr '%' := by
      rintro rfl
      rw [isKept_percent] at hkept
      exact Bool.noConfusion hkept
    exact percentDecode_cons hc s
  · have hlt := c.toNat_lt
    have hbyte : 16 * (c.toNat / 16) + c.toNat % 16 = c.toNat := by omega
    have hdecode := percentDecode_escape (hexValue_hexByte (c.toNat / 16) (by omega))
      (hexValue_hexByte (c.toNat % 16) (by omega)) s
    simpa [hbyte] using hdecode

/-- **What was escaped decodes to itself.** -/
theorem percentDecode_urlEncode (platform : Platform) (value : Bytes) :
    percentDecode (urlEncode platform value) = some value := by
  induction value with
  | nil => rfl
  | cons c value ih =>
    rw [urlEncode, List.flatMap_cons, percentDecode_urlEncodeChar]
    rw [urlEncode] at ih
    rw [ih]
    rfl

/-- A byte the escaping neither keeps nor writes. -/
structure Unwritten (platform : Platform) (d : UInt8) : Prop where
  kept : isKept platform d = false
  percent : d ≠ chr '%'
  hex : ∀ n < 16, d ≠ hexByte n

theorem unwritten_delimiter (platform : Platform) :
    ∀ d ∈ [chr '&', chr '=', chr '#', 0], Unwritten platform d := by
  intro d hd
  simp only [List.mem_cons, List.not_mem_nil, or_false] at hd
  rcases hd with rfl | rfl | rfl | rfl
  · exact ⟨rfl, by decide, by decide⟩
  · exact ⟨rfl, by decide, by decide⟩
  · exact ⟨rfl, by decide, by decide⟩
  · exact ⟨rfl, by decide, by decide⟩

theorem not_mem_urlEncode {platform : Platform} {d : UInt8} (h : Unwritten platform d)
    (value : Bytes) : d ∉ urlEncode platform value := by
  intro hmem
  obtain ⟨c, -, hc⟩ := List.mem_flatMap.mp hmem
  unfold urlEncodeChar at hc
  split at hc
  · next hkept =>
    rw [List.mem_singleton] at hc
    rw [← hc, h.kept] at hkept
    exact Bool.noConfusion hkept
  · have hlt := c.toNat_lt
    simp only [List.mem_cons, List.not_mem_nil, or_false] at hc
    rcases hc with hpercent | hhigh | hlow
    · exact h.percent hpercent
    · exact h.hex (c.toNat / 16) (by omega) hhigh
    · exact h.hex (c.toNat % 16) (by omega) hlow

/-! ## Adding parameters -/

structure Parameter where
  key : Bytes
  value : Bytes
deriving DecidableEq

/-- The text of one parameter; an empty value drops the `=`. -/
def parameterText (platform : Platform) (p : Parameter) : Bytes :=
  if p.value = [] then urlEncode platform p.key
  else urlEncode platform p.key ++ [chr '='] ++ urlEncode platform p.value

/-- `Parameters::AddParameter`, from one `content` to the next. -/
def addParameter (platform : Platform) (content : Bytes) (p : Parameter) : Bytes :=
  (if content ≠ [] then content ++ [chr '&'] else content) ++ parameterText platform p

def content (platform : Platform) (ps : List Parameter) : Bytes :=
  ps.foldl (addParameter platform) []

theorem not_mem_parameterText {platform : Platform} {d : UInt8} (h : Unwritten platform d)
    (heq : d ≠ chr '=') (p : Parameter) : d ∉ parameterText platform p := by
  have hkey := not_mem_urlEncode h p.key
  have hvalue := not_mem_urlEncode h p.value
  unfold parameterText
  split
  · exact hkey
  · simp only [List.mem_append, List.mem_singleton, not_or]
    exact ⟨⟨hkey, heq⟩, hvalue⟩

theorem parameterText_ne_nil {platform : Platform} {p : Parameter} (h : p.key ≠ []) :
    parameterText platform p ≠ [] := by
  have hkey : urlEncode platform p.key ≠ [] := by
    intro hnil
    have hdecode := percentDecode_urlEncode platform p.key
    rw [hnil] at hdecode
    exact h (Option.some.inj hdecode).symm
  unfold parameterText
  split
  · exact hkey
  · simp

theorem foldl_addParameter (platform : Platform) {c : Bytes} (hc : c ≠ [])
    (ps : List Parameter) :
    ps.foldl (addParameter platform) c =
      c ++ (ps.map (parameterText platform)).flatMap (chr '&' :: ·) := by
  induction ps generalizing c with
  | nil => simp
  | cons p ps ih =>
    rw [List.foldl_cons, addParameter, if_pos hc, ih (by simp)]
    simp

theorem splitOn_texts {t : Bytes} (ht : chr '&' ∉ t) :
    ∀ {ts : List Bytes}, (∀ u ∈ ts, chr '&' ∉ u) →
      (t ++ ts.flatMap (chr '&' :: ·)).splitOn (chr '&') = t :: ts
  | [], _ => by rw [List.flatMap_nil, List.append_nil, List.splitOn_eq_singleton ht]
  | u :: ts, hts => by
    have hrest := splitOn_texts (hts u List.mem_cons_self)
      (fun v hv => hts v (List.mem_cons_of_mem u hv))
    rw [List.flatMap_cons, List.cons_append, List.splitOn_append_cons_self_of_not_mem ht, hrest]

theorem queryPair_parameterText (platform : Platform) (p : Parameter) :
    queryPair (parameterText platform p) = some (p.key, p.value) := by
  have hequals : chr '=' ∉ urlEncode platform p.key :=
    not_mem_urlEncode (unwritten_delimiter platform _ (by decide)) p.key
  have hkey := forall_ne_of_not_mem hequals
  unfold queryPair
  by_cases hvalue : p.value = []
  · rw [parameterText, if_pos hvalue, List.takeWhile_eq_self_iff.mpr hkey,
      List.dropWhile_eq_nil_iff.mpr hkey, percentDecode_urlEncode, hvalue]
    rfl
  · rw [parameterText, if_neg hvalue, List.append_assoc, List.takeWhile_append_of_pos hkey,
      List.dropWhile_append_of_pos hkey, List.singleton_append, List.takeWhile_cons_of_neg (by simp),
      List.dropWhile_cons_of_neg (by simp), List.append_nil, List.drop_one, List.tail_cons,
      percentDecode_urlEncode, percentDecode_urlEncode]

theorem mapM_queryPair (platform : Platform) (ps : List Parameter) :
    (ps.map (parameterText platform)).mapM queryPair = some (ps.map fun p => (p.key, p.value)) := by
  induction ps with
  | nil => rfl
  | cons p ps ih =>
    rw [List.map_cons, List.mapM_cons, queryPair_parameterText, ih]
    rfl

theorem content_cons (platform : Platform) {p : Parameter} (h : p.key ≠ [])
    (ps : List Parameter) : content platform (p :: ps) =
      parameterText platform p ++ (ps.map (parameterText platform)).flatMap (chr '&' :: ·) := by
  rw [content, List.foldl_cons, addParameter, if_neg (by simp), List.nil_append,
    foldl_addParameter platform (parameterText_ne_nil h)]

theorem amp_not_mem_parameterText (platform : Platform) (p : Parameter) :
    chr '&' ∉ parameterText platform p :=
  not_mem_parameterText (unwritten_delimiter platform _ (by decide)) (by decide) p

theorem splitOn_content (platform : Platform) {p : Parameter} (h : p.key ≠ [])
    (ps : List Parameter) :
    (content platform (p :: ps)).splitOn (chr '&') = (p :: ps).map (parameterText platform) := by
  rw [content_cons platform h, splitOn_texts (amp_not_mem_parameterText platform p), List.map_cons]
  intro u hu
  obtain ⟨q, -, rfl⟩ := List.mem_map.mp hu
  exact amp_not_mem_parameterText platform q

/-- **The query decodes to exactly the parameters that were added.** -/
theorem queryPairs_content (platform : Platform) {ps : List Parameter}
    (hkeys : ∀ p ∈ ps, p.key ≠ []) :
    queryPairs (content platform ps) = some (ps.map fun p => (p.key, p.value)) := by
  cases ps with
  | nil => rfl
  | cons p ps =>
    have hkey := hkeys p List.mem_cons_self
    have hne : content platform (p :: ps) ≠ [] := by
      rw [content_cons platform hkey]
      exact List.append_ne_nil_of_left_ne_nil (parameterText_ne_nil hkey) _
    rw [queryPairs, if_neg hne, splitOn_content platform hkey, mapM_queryPair]

/-! ## The names of the parameters -/

theorem pieceName_parameterText (platform : Platform) (p : Parameter) :
    pieceName (parameterText platform p) = some p.key := by
  have hequals : chr '=' ∉ urlEncode platform p.key :=
    not_mem_urlEncode (unwritten_delimiter platform _ (by decide)) p.key
  have hkey := forall_ne_of_not_mem hequals
  rw [pieceName, parameterText]
  split
  · rw [List.takeWhile_eq_self_iff.mpr hkey, percentDecode_urlEncode]
  · rw [List.append_assoc, List.takeWhile_append_of_pos hkey, List.singleton_append,
      List.takeWhile_cons_of_neg (by simp), List.append_nil, percentDecode_urlEncode]

theorem queryNames_content (platform : Platform) {p : Parameter} (h : p.key ≠ [])
    (ps : List Parameter) :
    queryNames (content platform (p :: ps)) = (p :: ps).map Parameter.key := by
  have hnames : ∀ qs : List Parameter,
      (qs.map (parameterText platform)).filterMap pieceName = qs.map Parameter.key := by
    intro qs
    induction qs with
    | nil => rfl
    | cons q qs ih =>
      rw [List.map_cons, List.filterMap_cons_some (pieceName_parameterText platform q), ih,
        List.map_cons]
  rw [queryNames, splitOn_content platform h]
  exact hnames (p :: ps)

/-- Behind a text and a `?` the first parameter is lost, and the others are there. -/
theorem mem_queryNames_behind (platform : Platform) {p : Parameter} {ps : List Parameter}
    (h : ∀ q ∈ p :: ps, q.key ≠ []) (s : Bytes) {name : Bytes} (hname : chr '?' ∉ name) :
    name ∈ queryNames (s ++ chr '?' :: content platform (p :: ps)) ↔
      name ∈ queryNames (s ++ [chr '?']) ∨ name ∈ ps.map Parameter.key := by
  have hglue := mem_queryNames_glue (c := chr '?') rfl (by decide) hname s
    (amp_not_mem_parameterText platform p)
  rw [content_cons platform (h p List.mem_cons_self)]
  cases ps with
  | nil =>
    rw [List.map_nil, List.flatMap_nil, List.append_nil, hglue]
    simp
  | cons q qs =>
    have hkey := h q (List.mem_cons_of_mem _ List.mem_cons_self)
    rw [List.map_cons, List.flatMap_cons, List.cons_append, ← content_cons platform hkey,
      ← List.cons_append, ← List.append_assoc, queryNames_append, List.mem_append, hglue,
      queryNames_content platform hkey]

theorem not_mem_addParameter {platform : Platform} {d : UInt8} (h : Unwritten platform d)
    (heq : d ≠ chr '=') (hamp : d ≠ chr '&') {c : Bytes} (hc : d ∉ c) (p : Parameter) :
    d ∉ addParameter platform c p := by
  have htext := not_mem_parameterText h heq p
  unfold addParameter
  split
  · simp only [List.mem_append, List.mem_singleton, not_or]
    exact ⟨⟨hc, hamp⟩, htext⟩
  · simp only [List.mem_append, not_or]
    exact ⟨hc, htext⟩

theorem not_mem_content {platform : Platform} {d : UInt8} (h : Unwritten platform d)
    (heq : d ≠ chr '=') (hamp : d ≠ chr '&') (ps : List Parameter) : d ∉ content platform ps := by
  suffices hfold : ∀ c : Bytes, d ∉ c → d ∉ ps.foldl (addParameter platform) c from
    hfold [] List.not_mem_nil
  induction ps with
  | nil => exact fun c hc => hc
  | cons p ps ih => exact fun c hc => ih _ (not_mem_addParameter h heq hamp hc p)

theorem hash_not_mem_content (platform : Platform) (ps : List Parameter) :
    chr '#' ∉ content platform ps :=
  not_mem_content (unwritten_delimiter platform _ (by decide)) (by decide) (by decide) ps

theorem zero_not_mem_content (platform : Platform) (ps : List Parameter) :
    0 ∉ content platform ps :=
  not_mem_content (unwritten_delimiter platform _ (by decide)) (by decide) (by decide) ps

end PgConsul.Cpr
