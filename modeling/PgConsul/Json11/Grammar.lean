import PgConsul.Json11.RoundTrip
import PgConsul.Json11.StringGrammar

/-! # What the parser accepts

The parser accepts exactly the JSON texts that nest at most 201 values, and its result is the value
the text stands for. One level of values is read by one round of `parse_json`, so both directions go
by induction on the levels; within one level the loops of an array and of an object each have a lemma
for what they consume and a lemma for what they find.
-/
namespace PgConsul.Json11
set_option autoImplicit false
open Foundations JsonString JsonText

/-- What the parser makes of the parts of a text: the last of two members with one key stays. -/
def reading : Reading Json where
  null := .null
  bool := .bool
  number := numberReading
  string := .string
  array := .array
  object members := .object (members.foldl (fun data m => assign m.1 m.2 data) [])

/-! ## Tokens -/

theorem isSpace_iff {b : UInt8} : isSpace b = true ↔ IsWhitespace b := by
  refine ⟨fun h => ?_, isSpace_of_isWhitespace⟩
  simp only [isSpace, Bool.or_eq_true, decide_eq_true_eq] at h
  rcases h with ((rfl | rfl) | rfl) | rfl
  · exact .inl rfl
  · exact .inr (.inl rfl)
  · exact .inr (.inr (.inl rfl))
  · exact .inr (.inr (.inr rfl))

theorem consumeWhitespace_split (s : Bytes) :
    ∃ blank, s = blank ++ consumeWhitespace s ∧ Blank blank := by
  refine ⟨s.takeWhile isSpace, List.takeWhile_append_dropWhile.symm, ?_⟩
  intro b hb
  exact isSpace_iff.mp (List.mem_takeWhile_imp hb)

theorem getNextToken_split {c : UInt8} {s rest : Bytes} (h : getNextToken s = .ok (c, rest)) :
    ∃ blank, s = blank ++ c :: rest ∧ Blank blank := by
  obtain ⟨blank, hs, hblank⟩ := consumeWhitespace_split s
  unfold getNextToken at h
  split at h
  · cases h
  · next hrest =>
    cases h
    exact ⟨blank, hrest ▸ hs, hblank⟩

theorem parseJson_blank (levels : ℕ) {blank : Bytes} (h : Blank blank) (s : Bytes) :
    parseJson levels (blank ++ s) = parseJson levels s := by
  cases levels with
  | zero => rfl
  | succ levels => rw [parseJson, parseJson, getNextToken_blank h]

/-- A text that is not all whitespace has a token. -/
theorem getNextToken_exists {c : UInt8} (hc : isSpace c = false) (t rest : Bytes) :
    ∃ d s blank, getNextToken (t ++ c :: rest) = .ok (d, s) ∧
      t ++ c :: rest = blank ++ d :: s ∧ Blank blank := by
  obtain ⟨blank, hs, hblank⟩ := consumeWhitespace_split (t ++ c :: rest)
  have hne : consumeWhitespace (t ++ c :: rest) ≠ [] := by
    intro hnil
    rw [hnil, List.append_nil] at hs
    have hmem : c ∈ blank := hs ▸ List.mem_append_right t List.mem_cons_self
    rw [isSpace_iff.mpr (hblank c hmem)] at hc
    cases hc
  cases hrest : consumeWhitespace (t ++ c :: rest) with
  | nil => exact absurd hrest hne
  | cons d s =>
    rw [hrest] at hs
    exact ⟨d, s, blank, by rw [getNextToken, hrest], hs, hblank⟩

/-- Nothing behind a value continues a number in it. -/
theorem ends_blank {blank : Bytes} (h : Blank blank) : Ends blank := by
  cases blank with
  | nil => exact ⟨noDigit_nil, by decide, by decide, by decide⟩
  | cons c blank =>
    have hpeek : peek (c :: blank) = c := rfl
    have hc := h c List.mem_cons_self
    refine ⟨?_, ?_, ?_, ?_⟩
    · rintro d ⟨⟩
      rcases hc with rfl | rfl | rfl | rfl <;> decide
    all_goals
      rw [hpeek]
      rcases hc with rfl | rfl | rfl | rfl <;> decide

/-- The tokens that end an element. -/
def closers : List UInt8 := [chr ',', chr ']', 0x7d]

theorem closers_token {c : UInt8} (h : c ∈ closers) : isSpace c = false := by
  simp only [closers, List.mem_cons, List.not_mem_nil, or_false] at h
  rcases h with rfl | rfl | rfl <;> decide

theorem ends_closer {c : UInt8} (h : c ∈ closers) {blank : Bytes} (hblank : Blank blank)
    (rest : Bytes) : Ends (blank ++ c :: rest) := by
  cases blank with
  | nil =>
    simp only [closers, List.mem_cons, List.not_mem_nil, or_false] at h
    have hpeek : peek ([] ++ c :: rest) = c := rfl
    refine ⟨?_, ?_, ?_, ?_⟩
    · rintro d ⟨⟩
      rcases h with rfl | rfl | rfl <;> decide
    all_goals
      rw [hpeek]
      rcases h with rfl | rfl | rfl <;> decide
  | cons b blank =>
    obtain ⟨hdigit, hpoint, hsmall, hcapital⟩ := ends_blank hblank
    exact ⟨hdigit, hpoint, hsmall, hcapital⟩

theorem getNextToken_closer {c : UInt8} (h : c ∈ closers) {blank : Bytes} (hblank : Blank blank)
    (rest : Bytes) : getNextToken (blank ++ c :: rest) = .ok (c, rest) := by
  rw [getNextToken_blank hblank, getNextToken_cons (closers_token h)]

/-! ## One level -/

section Level
variable {element : Bytes → Except Bytes (Json × Bytes)} {P : Bytes → Json → Prop}

/-- What `element` reads is a text in the sense of `P`, behind whitespace. -/
def Sound (element : Bytes → Except Bytes (Json × Bytes)) (P : Bytes → Json → Prop) : Prop :=
  ∀ {s v rest}, element s = .ok (v, rest) → ∃ front t, s = front ++ (t ++ rest) ∧ Blank front ∧ P t v

/-- `element` reads every text in the sense of `P`, behind whitespace. -/
structure Complete (element : Bytes → Except Bytes (Json × Bytes)) (P : Bytes → Json → Prop) :
    Prop where
  blank : ∀ {blank : Bytes}, Blank blank → ∀ s, element (blank ++ s) = element s
  reads : ∀ {t v}, P t v → ∀ {rest}, Ends rest → element (t ++ rest) = .ok (v, rest)

theorem Complete.padded (h : Complete element P) {t : Bytes} {v : Json} (ht : Padded P t v)
    {c : UInt8} (hc : c ∈ closers) (rest : Bytes) :
    ∃ behind, Blank behind ∧ element (t ++ c :: rest) = .ok (v, behind ++ c :: rest) := by
  obtain @⟨front, inner, behind, _, hfront, hinner, hbehind⟩ := ht
  refine ⟨behind, hbehind, ?_⟩
  rw [List.append_assoc, List.append_assoc, h.blank hfront,
    h.reads hinner (ends_closer hc hbehind rest)]

theorem parseArray_split (h : Sound element P) {fuel : ℕ} {s rest : Bytes} {data : List Json}
    {j : Json} (hread : parseArray element fuel s data = .ok (j, rest)) :
    ∃ t vs, s = t ++ chr ']' :: rest ∧ Elements (Padded P) t vs ∧ j = .array (data ++ vs) := by
  induction fuel generalizing s data with
  | zero => cases hread
  | succ fuel ih =>
    rw [parseArray] at hread
    cases hvalue : element s with
    | error e =>
      rw [hvalue] at hread
      cases hread
    | ok p =>
      obtain ⟨v, s'⟩ := p
      obtain ⟨front, t, hs, hfront, ht⟩ := h hvalue
      rw [hvalue] at hread
      simp only [bind, Except.bind] at hread
      cases htoken : getNextToken s' with
      | error e =>
        rw [htoken] at hread
        cases hread
      | ok p =>
        obtain ⟨ch, tail⟩ := p
        obtain ⟨behind, hs', hbehind⟩ := getNextToken_split htoken
        have hpadded := Padded.mk hfront ht hbehind
        rw [htoken] at hread
        simp only at hread
        split at hread
        · next hclose =>
          cases hread
          refine ⟨front ++ (t ++ behind), [v], ?_, .one hpadded, rfl⟩
          rw [hs, hs', hclose]
          simp
        · split at hread
          · cases hread
          · next hcomma =>
            cases hnext : getNextToken tail with
            | error e =>
              rw [hnext] at hread
              cases hread
            | ok p =>
              obtain ⟨c, tail'⟩ := p
              obtain ⟨blank, htail, hblank⟩ := getNextToken_split hnext
              rw [hnext] at hread
              obtain ⟨u, vs, hu, helements, rfl⟩ := ih hread
              have hindented := elements_indented (padded_indented P) hblank helements
              refine ⟨_, v :: vs, ?_, .cons hpadded hindented, by simp⟩
              rw [hs, hs', htail, hu, not_not.mp hcomma]
              simp

theorem parseArray_elements (h : Complete element P) {t : Bytes} {vs : List Json}
    (ht : Elements (Padded P) t vs) {fuel : ℕ} (hfuel : vs.length ≤ fuel) (rest : Bytes)
    (data : List Json) :
    parseArray element fuel (t ++ chr ']' :: rest) data = .ok (.array (data ++ vs), rest) := by
  induction ht generalizing fuel data with
  | one last =>
    obtain ⟨fuel, rfl⟩ : ∃ n, fuel = n + 1 := ⟨fuel - 1, by simp at hfuel; omega⟩
    have hclose : chr ']' ∈ closers := by decide
    obtain ⟨behind, hbehind, hread⟩ := h.padded last hclose rest
    rw [parseArray, hread]
    simp [bind, Except.bind, getNextToken_closer hclose hbehind, pure, Except.pure]
  | @cons t u v vs head tail ih =>
    obtain ⟨fuel, rfl⟩ : ∃ n, fuel = n + 1 := ⟨fuel - 1, by simp at hfuel; omega⟩
    have hcomma : chr ',' ∈ closers := by decide
    have hopen : chr ',' ≠ chr ']' := by decide
    have hbound : vs.length ≤ fuel := by simpa using hfuel
    obtain ⟨behind, hbehind, hread⟩ := h.padded head hcomma (u ++ chr ']' :: rest)
    obtain ⟨c, s, blank, hnext, hs, hblank⟩ :=
      getNextToken_exists (closers_token (c := chr ']') (by decide)) u rest
    have hloop := ih hbound (data ++ [v])
    have hskip : parseArray element fuel (c :: s) (data ++ [v]) =
        parseArray element fuel (u ++ chr ']' :: rest) (data ++ [v]) := by
      rw [hs]
      cases fuel with
      | zero => rfl
      | succ fuel => rw [parseArray, parseArray, h.blank hblank]
    rw [List.append_assoc, List.cons_append, parseArray, hread]
    simp only [bind, Except.bind, getNextToken_closer hcomma hbehind, if_neg hopen, ne_eq,
      not_true_eq_false, if_false, hnext]
    rw [hskip, hloop, List.append_assoc]
    rfl

/-- One round: a member, and the token behind it. -/
theorem parseObject_round (h : Sound element P) {fuel : ℕ} {ch : UInt8} {s rest : Bytes}
    {data : Object} {j : Json} (hread : parseObject element (fuel + 1) ch s data = .ok (j, rest)) :
    ∃ t m c tail, ch :: s = t ++ c :: tail ∧ Member (Padded P) t m ∧
      (c = 0x7d ∧ j = .object (assign m.1 m.2 data) ∧ rest = tail ∨
        c = chr ',' ∧ ∃ d tail', getNextToken tail = .ok (d, tail') ∧
          parseObject element fuel d tail' (assign m.1 m.2 data) = .ok (j, rest)) := by
  rw [parseObject] at hread
  split at hread
  · cases hread
  · next hquote =>
    cases hkey : parseString s (-1) [] with
    | error e =>
      rw [hkey] at hread
      cases hread
    | ok p =>
      obtain ⟨key, s'⟩ := p
      obtain ⟨u, ps, hs, hpieces, hcontent⟩ := parseString_split hkey held_none rfl
      rw [hkey] at hread
      simp only [bind, Except.bind, pure, Except.pure] at hread
      cases hcolon : getNextToken s' with
      | error e =>
        rw [hcolon] at hread
        cases hread
      | ok p =>
        obtain ⟨c, s''⟩ := p
        obtain ⟨blank, hs', hblank⟩ := getNextToken_split hcolon
        rw [hcolon] at hread
        simp only at hread
        split at hread
        · cases hread
        · next hc =>
          cases hvalue : element s'' with
          | error e =>
            rw [hvalue] at hread
            cases hread
          | ok p =>
            obtain ⟨v, tail⟩ := p
            obtain ⟨front, t, hs'', hfront, ht⟩ := h hvalue
            rw [hvalue] at hread
            simp only at hread
            cases htoken : getNextToken tail with
            | error e =>
              rw [htoken] at hread
              cases hread
            | ok p =>
              obtain ⟨d, tail'⟩ := p
              obtain ⟨behind, htail, hbehind⟩ := getNextToken_split htoken
              rw [htoken] at hread
              simp only at hread
              have hmember := Member.mk blank_nil hpieces hblank (Padded.mk hfront ht hbehind)
              refine ⟨_, _, d, tail', ?_, hmember, ?_⟩
              · rw [not_not.mp hquote, hs, hs', not_not.mp hc, hs'', htail]
                simp
              · have hkey' : content ps = key := hcontent.symm
                simp only [hkey']
                split at hread
                · next hclose =>
                  cases hread
                  exact .inl ⟨hclose, rfl, rfl⟩
                · split at hread
                  · cases hread
                  · next hcomma =>
                    cases hnext : getNextToken tail' with
                    | error e =>
                      rw [hnext] at hread
                      cases hread
                    | ok p =>
                      rw [hnext] at hread
                      exact .inr ⟨not_not.mp hcomma, p.1, p.2, rfl, hread⟩

theorem parseObject_split (h : Sound element P) {fuel : ℕ} {ch : UInt8} {s rest : Bytes}
    {data : Object} {j : Json} (hread : parseObject element fuel ch s data = .ok (j, rest)) :
    ∃ t ms, ch :: s = t ++ 0x7d :: rest ∧ Elements (Member (Padded P)) t ms ∧
      j = .object (ms.foldl (fun data m => assign m.1 m.2 data) data) := by
  induction fuel generalizing ch s data with
  | zero => cases hread
  | succ fuel ih =>
    obtain ⟨t, m, c, tail, hs, hmember, hclose | hcomma⟩ := parseObject_round h hread
    · obtain ⟨rfl, rfl, rfl⟩ := hclose
      exact ⟨t, [m], hs, .one hmember, rfl⟩
    · obtain ⟨rfl, d, tail', hnext, hloop⟩ := hcomma
      obtain ⟨blank, htail, hblank⟩ := getNextToken_split hnext
      obtain ⟨u, ms, hu, hmembers, rfl⟩ := ih hloop
      have hindented := elements_indented (member_indented (Padded P)) hblank hmembers
      refine ⟨_, m :: ms, ?_, .cons hmember hindented, rfl⟩
      rw [hs, htail, hu]
      simp

/-- One round over a member of the grammar. -/
theorem parseObject_reads (h : Complete element P) {t : Bytes} {m : Bytes × Json}
    (ht : Member (Padded P) t m) {c : UInt8} (hc : c ∈ closers) (rest : Bytes) :
    ∃ ch s, getNextToken (t ++ c :: rest) = .ok (ch, s) ∧
      ∀ (fuel : ℕ) (data : Object), parseObject element (fuel + 1) ch s data =
        if c = 0x7d then .ok (.object (assign m.1 m.2 data), rest)
        else if c ≠ chr ',' then .error (ascii "expected ',' in object, got " ++ esc c)
        else getNextToken rest >>= fun (d, s) => parseObject element fuel d s (assign m.1 m.2 data) := by
  obtain @⟨front, spelling, blank, t, ps, v, hfront, hkey, hblank, hvalue⟩ := ht
  obtain ⟨behind, hbehind, hread⟩ := h.padded hvalue hc rest
  have hquote : isSpace (chr '"') = false := by decide
  have hcolon : isSpace (chr ':') = false := by decide
  refine ⟨chr '"', spelling ++ chr '"' :: (blank ++ chr ':' :: (t ++ c :: rest)), ?_, ?_⟩
  · rw [List.append_assoc, getNextToken_blank hfront, List.cons_append, getNextToken_cons hquote]
    simp
  · intro fuel data
    have hstring := parseString_pieces hkey (blank ++ chr ':' :: (t ++ c :: rest)) held_none []
    rw [heldCode] at hstring
    rw [parseObject]
    simp only [ne_eq, not_true_eq_false, if_false, bind, Except.bind, pure, Except.pure, hstring,
      getNextToken_blank hblank, getNextToken_cons hcolon, hread, getNextToken_closer hc hbehind]
    simp only [heldPieces, List.nil_append]
    split
    · rfl
    · split <;> rfl

theorem parseObject_members (h : Complete element P) {t : Bytes} {ms : Object}
    (ht : Elements (Member (Padded P)) t ms) {fuel : ℕ} (hfuel : ms.length ≤ fuel) (rest : Bytes)
    (data : Object) :
    ∃ ch s, getNextToken (t ++ 0x7d :: rest) = .ok (ch, s) ∧
      parseObject element fuel ch s data =
        .ok (.object (ms.foldl (fun data m => assign m.1 m.2 data) data), rest) := by
  induction ht generalizing fuel data with
  | one last =>
    obtain ⟨fuel, rfl⟩ : ∃ n, fuel = n + 1 := ⟨fuel - 1, by simp at hfuel; omega⟩
    obtain ⟨ch, s, htoken, hround⟩ := parseObject_reads h last (c := 0x7d) (by decide) rest
    exact ⟨ch, s, htoken, hround fuel data⟩
  | @cons t u m ms head tail ih =>
    obtain ⟨fuel, rfl⟩ : ∃ n, fuel = n + 1 := ⟨fuel - 1, by simp at hfuel; omega⟩
    have hbound : ms.length ≤ fuel := by simpa using hfuel
    have hopen : chr ',' ≠ 0x7d := by decide
    obtain ⟨ch, s, htoken, hround⟩ :=
      parseObject_reads h head (c := chr ',') (by decide) (u ++ 0x7d :: rest)
    obtain ⟨d, s', hnext, hloop⟩ := ih hbound (assign m.1 m.2 data)
    refine ⟨ch, s, by rw [List.append_assoc, List.cons_append, htoken], ?_⟩
    rw [hround, if_neg hopen, if_neg (not_not.mpr rfl), hnext]
    exact hloop

end Level

/-! ## Values -/

theorem expect_split {expected s rest : Bytes} {res j : Json}
    (h : expect expected res s = .ok (j, rest)) : s = expected ++ rest ∧ j = res := by
  unfold expect at h
  split at h
  · next hprefix' =>
    cases h
    rw [List.isPrefixOf_iff_prefix] at hprefix'
    obtain ⟨tail, rfl⟩ := hprefix'
    rw [List.drop_left]
    exact ⟨rfl, rfl⟩
  · cases h

theorem array_split {levels : ℕ} (ih : Sound (parseJson levels) (IsValue reading levels))
    {s rest : Bytes} {j : Json} (h : (do
      let (ch, s) ← getNextToken s
      if ch = chr ']' then return (Json.array [], s)
      parseArray (parseJson levels) (s.length + 1) (ch :: s) []) = .ok (j, rest)) :
    ∃ t, chr '[' :: s = t ++ rest ∧ IsValue reading (levels + 1) t j := by
  cases htoken : getNextToken s with
  | error e =>
    rw [htoken] at h
    cases h
  | ok p =>
    obtain ⟨c, tail⟩ := p
    obtain ⟨blank, rfl, hblank⟩ := getNextToken_split htoken
    rw [htoken] at h
    simp only [bind, Except.bind, pure, Except.pure] at h
    split at h
    · next hclose =>
      cases h
      refine ⟨chr '[' :: (blank ++ [chr ']']), ?_, .emptyArray hblank⟩
      rw [hclose]
      simp
    · obtain ⟨t, vs, htail, helements, rfl⟩ := parseArray_split ih h
      have hindented := elements_indented (padded_indented _) hblank helements
      refine ⟨chr '[' :: (blank ++ t ++ [chr ']']), ?_, .array hindented⟩
      rw [htail]
      simp

theorem object_split {levels : ℕ} (ih : Sound (parseJson levels) (IsValue reading levels))
    {s rest : Bytes} {j : Json} (h : (do
      let (ch, s) ← getNextToken s
      if ch = 0x7d then return (Json.object [], s)
      parseObject (parseJson levels) (s.length + 1) ch s []) = .ok (j, rest)) :
    ∃ t, 0x7b :: s = t ++ rest ∧ IsValue reading (levels + 1) t j := by
  cases htoken : getNextToken s with
  | error e =>
    rw [htoken] at h
    cases h
  | ok p =>
    obtain ⟨c, tail⟩ := p
    obtain ⟨blank, rfl, hblank⟩ := getNextToken_split htoken
    rw [htoken] at h
    simp only [bind, Except.bind, pure, Except.pure] at h
    split at h
    · next hclose =>
      cases h
      refine ⟨0x7b :: (blank ++ [0x7d]), ?_, .emptyObject hblank⟩
      rw [hclose]
      simp
    · obtain ⟨t, ms, htail, hmembers, rfl⟩ := parseObject_split ih h
      have hindented := elements_indented (member_indented _) hblank hmembers
      refine ⟨0x7b :: (blank ++ t ++ [0x7d]), ?_, .object hindented⟩
      rw [htail]
      simp

/-- **What is read as a value is the text of that value.** -/
theorem parseJson_sound (levels : ℕ) : Sound (parseJson levels) (IsValue reading levels) := by
  induction levels with
  | zero =>
    intro s v rest h
    cases h
  | succ levels ih =>
    intro s v rest h
    rw [parseJson] at h
    cases htoken : getNextToken s with
    | error e =>
      rw [htoken] at h
      cases h
    | ok p =>
      obtain ⟨c, tail⟩ := p
      obtain ⟨blank, rfl, hblank⟩ := getNextToken_split htoken
      rw [htoken] at h
      -- the value starts at the token, whatever it is
      suffices hvalue : ∃ t, c :: tail = t ++ rest ∧ IsValue reading (levels + 1) t v by
        obtain ⟨t, ht, hv⟩ := hvalue
        exact ⟨blank, t, by rw [ht], hblank, hv⟩
      simp only [bind, Except.bind] at h
      split at h
      · obtain ⟨n, hn, rfl⟩ := parseNumber_split h
        exact ⟨n.text, hn, .number n⟩
      split at h
      · obtain ⟨ht, rfl⟩ := expect_split h
        exact ⟨_, ht, .true⟩
      split at h
      · obtain ⟨ht, rfl⟩ := expect_split h
        exact ⟨_, ht, .false⟩
      split at h
      · obtain ⟨ht, rfl⟩ := expect_split h
        exact ⟨_, ht, .null⟩
      split at h
      · next hquote =>
        cases hstring : parseString tail (-1) [] with
        | error e =>
          rw [hstring] at h
          cases h
        | ok p =>
          obtain ⟨str, tail'⟩ := p
          obtain ⟨u, ps, rfl, hpieces, hcontent⟩ := parseString_split hstring held_none rfl
          rw [hstring] at h
          cases h
          have hstr : str = content ps := hcontent
          refine ⟨chr '"' :: (u ++ [chr '"']), ?_, ?_⟩
          · rw [hquote]
            simp
          · rw [hstr]
            exact .string hpieces
      split at h
      · next hbrace =>
        rw [hbrace]
        exact object_split ih h
      split at h
      · next hbracket =>
        rw [hbracket]
        exact array_split ih h
      · cases h

/-- The first byte of a number sends `parse_json` to `parse_number`. -/
theorem number_head (n : Number) (rest : Bytes) :
    ∃ c s, n.text ++ rest = c :: s ∧ isSpace c = false ∧ (c = chr '-' ∨ isDigit c = true) := by
  obtain ⟨hne, hdigits⟩ := n.whole_numeral
  rw [Number.text]
  cases n.negative with
  | true => exact ⟨chr '-', _, rfl, by decide, .inl rfl⟩
  | false =>
    cases hwhole : n.whole with
    | nil => exact absurd hwhole hne
    | cons c whole =>
      have hdigit : isDigit c = true := hdigits c (hwhole ▸ List.mem_cons_self)
      refine ⟨c, _, rfl, ?_, .inr hdigit⟩
      rw [Bool.eq_false_iff]
      intro hspace
      rcases isSpace_iff.mp hspace with rfl | rfl | rfl | rfl <;> exact absurd hdigit (by decide)

/-- A value starts with a token that ends no element. -/
theorem value_head {levels : ℕ} {t : Bytes} {v : Json} (h : IsValue reading levels t v) :
    ∃ c s, t = c :: s ∧ isSpace c = false ∧ c ∉ closers := by
  cases levels with
  | zero => cases h
  | succ levels =>
    cases h with
    | null => exact ⟨chr 'n', _, rfl, by decide, by decide⟩
    | true => exact ⟨chr 't', _, rfl, by decide, by decide⟩
    | false => exact ⟨chr 'f', _, rfl, by decide, by decide⟩
    | number n =>
      obtain ⟨c, s, htext, hspace, hhead⟩ := number_head n []
      rw [List.append_nil] at htext
      refine ⟨c, s, htext, hspace, ?_⟩
      intro hmem
      simp only [closers, List.mem_cons, List.not_mem_nil, or_false] at hmem
      rcases hmem with rfl | rfl | rfl <;> exact absurd hhead (by decide)
    | string _ => exact ⟨chr '"', _, rfl, by decide, by decide⟩
    | emptyArray _ => exact ⟨chr '[', _, rfl, by decide, by decide⟩
    | array _ => exact ⟨chr '[', _, rfl, by decide, by decide⟩
    | emptyObject _ => exact ⟨0x7b, _, rfl, by decide, by decide⟩
    | object _ => exact ⟨0x7b, _, rfl, by decide, by decide⟩

theorem elements_head {levels : ℕ} {t : Bytes} {vs : List Json}
    (h : Elements (Padded (IsValue reading levels)) t vs) :
    ∃ blank c s, t = blank ++ c :: s ∧ Blank blank ∧ isSpace c = false ∧ c ∉ closers := by
  have hpadded : ∀ {u v}, Padded (IsValue reading levels) u v →
      ∃ blank c s, u = blank ++ c :: s ∧ Blank blank ∧ isSpace c = false ∧ c ∉ closers := by
    rintro u v @⟨front, inner, behind, _, hfront, hinner, -⟩
    obtain ⟨c, s, rfl, hspace, hc⟩ := value_head hinner
    exact ⟨front, c, s ++ behind, rfl, hfront, hspace, hc⟩
  cases h with
  | one last => exact hpadded last
  | @cons u w v vs head _ =>
    obtain ⟨blank, c, s, rfl, hblank, hspace, hc⟩ := hpadded head
    exact ⟨blank, c, s ++ chr ',' :: w, by simp, hblank, hspace, hc⟩

theorem members_head {P : Bytes → Json → Prop} {t : Bytes} {ms : Object}
    (h : Elements (Member P) t ms) : ∃ blank s, t = blank ++ chr '"' :: s ∧ Blank blank := by
  have hmember : ∀ {u m}, Member P u m → ∃ blank s, u = blank ++ chr '"' :: s ∧ Blank blank := by
    rintro u m ⟨hfront, -, -, -⟩
    exact ⟨_, _, rfl, hfront⟩
  cases h with
  | one last => exact hmember last
  | @cons u w m ms head _ =>
    obtain ⟨blank, s, rfl, hblank⟩ := hmember head
    exact ⟨blank, s ++ chr ',' :: w, by simp, hblank⟩

/-- The length of the text bounds the rounds of both loops. -/
theorem rounds_le {β : Type} {P : Bytes → β → Prop} {t : Bytes} {vs : List β}
    (h : Elements P t vs) {blank s : Bytes} {c : UInt8} (ht : t = blank ++ c :: s)
    (hblank : Blank blank) (hc : c ≠ chr ',') (tail : Bytes) : vs.length ≤ (s ++ tail).length + 1 := by
  have hlength := h.length_le
  have hcount : (c :: s).count (chr ',') = s.count (chr ',') := List.count_cons_of_ne hc
  have hle : s.count (chr ',') ≤ s.length := List.count_le_length
  rw [ht, List.count_append, hblank.count_comma, hcount] at hlength
  rw [List.length_append]
  omega

theorem array_reads {levels : ℕ} (ih : Complete (parseJson levels) (IsValue reading levels))
    {t : Bytes} {vs : List Json} (ht : Elements (Padded (IsValue reading levels)) t vs)
    (rest : Bytes) :
    parseJson (levels + 1) (chr '[' :: (t ++ chr ']' :: rest)) = .ok (.array vs, rest) := by
  obtain ⟨blank, c, s, hsplit, hblank, hspace, hc⟩ := elements_head ht
  have hclose : c ≠ chr ']' := by
    rintro rfl
    exact hc (by decide)
  have hcomma : c ≠ chr ',' := by
    rintro rfl
    exact hc (by decide)
  have htoken : getNextToken (t ++ chr ']' :: rest) = .ok (c, s ++ chr ']' :: rest) := by
    rw [hsplit, List.append_assoc, getNextToken_blank hblank, List.cons_append,
      getNextToken_cons hspace]
  have hrounds := rounds_le ht hsplit hblank hcomma (chr ']' :: rest)
  have hloop := parseArray_elements ih ht hrounds rest []
  -- the loop starts at the token, behind the whitespace
  rw [hsplit, List.append_assoc, List.cons_append, parseArray, ih.blank hblank] at hloop
  rw [parseJson_bracket, htoken]
  simp only [bind, Except.bind, if_neg hclose]
  exact hloop

theorem object_reads {levels : ℕ} (ih : Complete (parseJson levels) (IsValue reading levels))
    {t : Bytes} {ms : Object} (ht : Elements (Member (Padded (IsValue reading levels))) t ms)
    (rest : Bytes) :
    parseJson (levels + 1) (0x7b :: (t ++ 0x7d :: rest)) = .ok (reading.object ms, rest) := by
  obtain ⟨blank, s, hsplit, hblank⟩ := members_head ht
  have hquote : isSpace (chr '"') = false := by decide
  have hopen : chr '"' ≠ 0x7d := by decide
  have hrounds := rounds_le ht hsplit hblank (by decide) (0x7d :: rest)
  have htoken : getNextToken (t ++ 0x7d :: rest) = .ok (chr '"', s ++ 0x7d :: rest) := by
    rw [hsplit, List.append_assoc, getNextToken_blank hblank, List.cons_append,
      getNextToken_cons hquote]
  obtain ⟨ch, s', htoken', hloop⟩ := parseObject_members ih ht hrounds rest []
  rw [htoken] at htoken'
  cases htoken'
  rw [parseJson_brace, htoken]
  simp only [bind, Except.bind, if_neg hopen]
  exact hloop

/-- **Every text of a value is read as that value.** -/
theorem parseJson_complete (levels : ℕ) :
    Complete (parseJson levels) (IsValue reading levels) := by
  induction levels with
  | zero => exact ⟨fun _ _ => rfl, by rintro t v ⟨⟩⟩
  | succ levels ih =>
    refine ⟨fun hblank s => parseJson_blank _ hblank s, ?_⟩
    intro t v ht rest hrest
    cases ht with
    | null =>
      have hspace : isSpace (chr 'n') = false := by decide
      have htoken : getNextToken (ascii "null" ++ rest) = .ok (chr 'n', ascii "ull" ++ rest) :=
        getNextToken_cons hspace _
      simp only [parseJson, htoken, bind, Except.bind]
      exact expect_append (ascii "null") .null rest
    | true =>
      have hspace : isSpace (chr 't') = false := by decide
      have htoken : getNextToken (ascii "true" ++ rest) = .ok (chr 't', ascii "rue" ++ rest) :=
        getNextToken_cons hspace _
      simp only [parseJson, htoken, bind, Except.bind]
      exact expect_append (ascii "true") (.bool true) rest
    | false =>
      have hspace : isSpace (chr 'f') = false := by decide
      have htoken : getNextToken (ascii "false" ++ rest) = .ok (chr 'f', ascii "alse" ++ rest) :=
        getNextToken_cons hspace _
      simp only [parseJson, htoken, bind, Except.bind]
      exact expect_append (ascii "false") (.bool false) rest
    | number n =>
      obtain ⟨c, s, htext, hspace, hhead⟩ := number_head n rest
      have hread := parseNumber_text n hrest
      rw [htext] at hread ⊢
      simp only [parseJson, getNextToken_cons hspace, bind, Except.bind]
      rw [if_pos hhead, hread]
      rfl
    | string hpieces =>
      have hspace : isSpace (chr '"') = false := by decide
      have hstring := parseString_pieces hpieces rest held_none []
      rw [List.cons_append, List.append_assoc, List.singleton_append]
      exact parseJson_string (getNextToken_cons hspace _) hstring levels
    | emptyArray hblank =>
      have hclose : chr ']' ∈ closers := by decide
      rw [List.cons_append, List.append_assoc, List.singleton_append, parseJson_bracket,
        getNextToken_closer hclose hblank]
      rfl
    | array helements =>
      rw [List.cons_append, List.append_assoc, List.singleton_append]
      exact array_reads ih helements rest
    | emptyObject hblank =>
      have hclose : 0x7d ∈ closers := by decide
      rw [List.cons_append, List.append_assoc, List.singleton_append, parseJson_brace,
        getNextToken_closer hclose hblank]
      rfl
    | object hmembers =>
      rw [List.cons_append, List.append_assoc, List.singleton_append]
      exact object_reads ih hmembers rest

/-! ## Whole texts -/

theorem parseText_sound {text : Bytes} {j : Json} (h : parseText text = .ok j) :
    IsText reading (maxDepth + 1) text j := by
  rw [parseText] at h
  cases hread : parseJson (maxDepth + 1) text with
  | error e =>
    rw [hread] at h
    cases h
  | ok p =>
    obtain ⟨v, rest⟩ := p
    obtain ⟨front, t, rfl, hfront, ht⟩ := parseJson_sound (maxDepth + 1) hread
    rw [hread] at h
    simp only [bind, Except.bind] at h
    obtain ⟨blank, hrest, hblank⟩ := consumeWhitespace_split rest
    split at h
    · next hnil =>
      cases h
      rw [hnil, List.append_nil] at hrest
      exact .mk hfront ht (hrest ▸ hblank)
    · cases h

theorem parseText_complete {text : Bytes} {j : Json} (h : IsText reading (maxDepth + 1) text j) :
    parseText text = .ok j := by
  obtain @⟨front, t, behind, _, hfront, ht, hbehind⟩ := h
  have hread := (parseJson_complete (maxDepth + 1)).reads ht (ends_blank hbehind)
  have hblank : consumeWhitespace behind = [] := by
    have h := consumeWhitespace_blank hbehind []
    rwa [List.append_nil] at h
  rw [parseText, parseJson_blank _ hfront, hread]
  simp only [bind, Except.bind, hblank]
  rfl

/-- **The parser accepts exactly the JSON texts** that nest at most `max_depth + 1` values, and
returns the value of the text. -/
theorem parseText_iff (text : Bytes) (j : Json) :
    parseText text = .ok j ↔ IsText reading (maxDepth + 1) text j :=
  ⟨parseText_sound, parseText_complete⟩

end PgConsul.Json11
