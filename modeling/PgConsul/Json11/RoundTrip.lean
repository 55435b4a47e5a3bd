import PgConsul.Json11.StringRoundTrip

/-! # Writing and parsing a value

What `dump` writes of a value without numbers parses to that value, whatever follows it: an array is
read element by element and an object member by member, in the order of the writer. Numbers are left
out, as a long `int` is read back as a `double`.
-/
namespace PgConsul.Json11
set_option autoImplicit false
open Foundations

/-- A value without numbers, of at most `levels` levels, whose objects are ordered as maps are. -/
inductive Readable : ℕ → Json → Prop where
  | null {levels : ℕ} : Readable (levels + 1) .null
  | bool {levels : ℕ} (b : Bool) : Readable (levels + 1) (.bool b)
  | string {levels : ℕ} (s : Bytes) : Readable (levels + 1) (.string s)
  | array {levels : ℕ} {values : List Json} (elements : ∀ v ∈ values, Readable levels v) :
      Readable (levels + 1) (.array values)
  | object {levels : ℕ} {values : Object} (members : ∀ m ∈ values, Readable levels m.2)
      (ordered : (values.map Prod.fst).Pairwise (· < ·)) : Readable (levels + 1) (.object values)

/-! ## Tokens -/

theorem getNextToken_space (s : Bytes) : getNextToken (chr ' ' :: s) = getNextToken s := by
  have hblank : ∀ b ∈ [chr ' '], JsonString.IsWhitespace b := by
    intro b hb
    exact .inl (List.mem_singleton.mp hb)
  exact getNextToken_blank hblank s

theorem parseJson_space (levels : ℕ) (s : Bytes) :
    parseJson levels (chr ' ' :: s) = parseJson levels s := by
  cases levels with
  | zero => rfl
  | succ levels => rw [parseJson, parseJson, getNextToken_space]

theorem expect_append (expected : Bytes) (res : Json) (rest : Bytes) :
    expect expected res (expected ++ rest) = .ok (res, rest) := by
  have h : expected.isPrefixOf (expected ++ rest) = true := by
    rw [List.isPrefixOf_iff_prefix]
    exact List.prefix_append expected rest
  rw [expect, if_pos h, List.drop_left]

/-- The first byte of a value is a token, and closes no array. -/
theorem dump_head {levels : ℕ} {j : Json} (h : Readable levels j) :
    ∃ c s, dump j = c :: s ∧ isSpace c = false ∧ c ≠ chr ']' := by
  cases h with
  | null => exact ⟨chr 'n', ascii "ull", rfl, by decide, by decide⟩
  | bool b =>
    cases b with
    | false => exact ⟨chr 'f', ascii "alse", rfl, by decide, by decide⟩
    | true => exact ⟨chr 't', ascii "rue", rfl, by decide, by decide⟩
  | string s => exact ⟨chr '"', dumpChars 0 s ++ [chr '"'], rfl, by decide, by decide⟩
  | array _ => exact ⟨chr '[', _, rfl, by decide, by decide⟩
  | object _ _ => exact ⟨0x7b, _, rfl, by decide, by decide⟩

/-! ## Elements -/

/-- Every element but the first has a separator in front of it. -/
theorem length_dumpArray (values : List Json) :
    values.length ≤ (dumpArray false values).length := by
  induction values with
  | nil => simp
  | cons v values ih =>
    have hsep : (ascii ", ").length = 2 := rfl
    simp only [dumpArray, Bool.false_eq_true, if_false, List.length_append, List.length_cons, hsep]
    omega

theorem length_dumpObject (values : Object) : values.length ≤ (dumpObject false values).length := by
  induction values with
  | nil => simp
  | cons m values ih =>
    have hsep : (ascii ", ").length = 2 := rfl
    simp only [dumpObject, Bool.false_eq_true, if_false, List.length_append, List.length_cons, hsep]
    omega

section Levels
variable {levels : ℕ}

/-- `element` reads back what the writer makes of `v`. -/
def ReadsBack (element : Bytes → Except Bytes (Json × Bytes)) (v : Json) : Prop :=
  ∀ rest, element (dump v ++ rest) = .ok (v, rest)

theorem parseArray_dump {v : Json} {values : List Json}
    (helements : ∀ w ∈ v :: values, ReadsBack (parseJson levels) w ∧ Readable levels w)
    {fuel : ℕ} (hfuel : values.length < fuel) (rest : Bytes) (data : List Json) :
    parseArray (parseJson levels) fuel
        (dump v ++ (dumpArray false values ++ chr ']' :: rest)) data =
      .ok (.array (data ++ v :: values), rest) := by
  induction values generalizing v fuel data with
  | nil =>
    obtain ⟨fuel, rfl⟩ : ∃ n, fuel = n + 1 := ⟨fuel - 1, by omega⟩
    have hclose : isSpace (chr ']') = false := by decide
    obtain ⟨hv, -⟩ := helements v List.mem_cons_self
    rw [parseArray, hv]
    simp [dumpArray, bind, Except.bind, getNextToken_cons hclose, pure, Except.pure]
  | cons w values ih =>
    obtain ⟨fuel, rfl⟩ : ∃ n, fuel = n + 1 := ⟨fuel - 1, by omega⟩
    simp only [List.length_cons] at hfuel
    have hcomma : isSpace (chr ',') = false := by decide
    have hopen : chr ',' ≠ chr ']' := by decide
    obtain ⟨hv, -⟩ := helements v List.mem_cons_self
    obtain ⟨-, hw⟩ := helements w (List.mem_cons_of_mem v List.mem_cons_self)
    obtain ⟨c, s, hdump, hspace, -⟩ := dump_head hw
    have hbound : values.length < fuel := by omega
    have hrest := ih (fun u hu => helements u (List.mem_cons_of_mem v hu)) hbound (data ++ [v])
    have hsep : dumpArray false (w :: values) ++ chr ']' :: rest =
        chr ',' :: chr ' ' :: (dump w ++ (dumpArray false values ++ chr ']' :: rest)) := by
      simp [dumpArray, ascii]
    rw [parseArray, hv, hsep]
    rw [hdump, List.cons_append] at hrest ⊢
    simp only [bind, Except.bind, getNextToken_cons hcomma, if_neg hopen, getNextToken_space,
      getNextToken_cons hspace, ne_eq, not_true_eq_false, if_false]
    rw [hrest, List.append_assoc]
    rfl

/-! ## Members -/

theorem parseString_dumpChars (s rest : Bytes) :
    parseString (dumpChars 0 s ++ chr '"' :: rest) (-1) [] = .ok (s, rest) := by
  have h := parseString_spells (spells_dumpChars 0 s) rest settled_none []
  rwa [encodeUtf8_none] at h

/-- A key behind all the others goes to the end. -/
theorem assign_last {key : Bytes} {data : Object} (value : Json)
    (h : ∀ k ∈ data.map Prod.fst, k < key) : assign key value data = data ++ [(key, value)] := by
  induction data with
  | nil => rfl
  | cons m data ih =>
    obtain ⟨k, v⟩ := m
    simp only [List.map_cons, List.forall_mem_cons] at h
    have hne : key ≠ k := by
      rintro rfl
      exact List.lt_irrefl key h.1
    rw [assign, if_neg hne, if_neg (List.lt_asymm h.1), ih h.2, List.cons_append]

theorem last_of_ordered {m : Bytes × Json} {data values : Object}
    (h : ((data ++ m :: values).map Prod.fst).Pairwise (· < ·)) :
    ∀ k ∈ data.map Prod.fst, k < m.1 := by
  intro k hk
  rw [List.map_append, List.pairwise_append] at h
  exact h.2.2 k hk m.1 List.mem_cons_self

/-- One round of the loop: a member whose key is behind all the others. -/
theorem parseObject_member {m : Bytes × Json} (hm : ReadsBack (parseJson levels) m.2)
    {data : Object} (hlast : ∀ k ∈ data.map Prod.fst, k < m.1) (fuel : ℕ) (tail : Bytes) :
    parseObject (parseJson levels) (fuel + 1) (chr '"')
        (dumpChars 0 m.1 ++ chr '"' :: (ascii ": " ++ (dump m.2 ++ tail))) data = (do
      let (ch, s) ← getNextToken tail
      if ch = 0x7d then return (.object (data ++ [m]), s)
      if ch ≠ chr ',' then throw (ascii "expected ',' in object, got " ++ esc ch)
      let (ch, s) ← getNextToken s
      parseObject (parseJson levels) fuel ch s (data ++ [m])) := by
  have hcolon : isSpace (chr ':') = false := by decide
  have hsep : ascii ": " ++ (dump m.2 ++ tail) = chr ':' :: chr ' ' :: (dump m.2 ++ tail) := rfl
  have hread : parseJson levels (chr ' ' :: (dump m.2 ++ tail)) = .ok (m.2, tail) := by
    rw [parseJson_space, hm]
  rw [parseObject, hsep]
  simp only [ne_eq, not_true_eq_false, if_false, bind, Except.bind, pure, Except.pure,
    parseString_dumpChars, getNextToken_cons hcolon, hread, assign_last m.2 hlast]

theorem dumpMember_append (m : Bytes × Json) (tail : Bytes) :
    dumpMember m ++ tail =
      chr '"' :: (dumpChars 0 m.1 ++ chr '"' :: (ascii ": " ++ (dump m.2 ++ tail))) := by
  obtain ⟨key, value⟩ := m
  simp [dumpMember, dumpString]

theorem parseObject_dump {m : Bytes × Json} {values : Object}
    (hmembers : ∀ n ∈ m :: values, ReadsBack (parseJson levels) n.2)
    {fuel : ℕ} (hfuel : values.length < fuel) (rest : Bytes) {data : Object}
    (hordered : ((data ++ m :: values).map Prod.fst).Pairwise (· < ·)) :
    parseObject (parseJson levels) fuel (chr '"')
        (dumpChars 0 m.1 ++ chr '"' :: (ascii ": " ++ (dump m.2 ++
          (dumpObject false values ++ 0x7d :: rest)))) data =
      .ok (.object (data ++ m :: values), rest) := by
  induction values generalizing m fuel data with
  | nil =>
    obtain ⟨fuel, rfl⟩ : ∃ n, fuel = n + 1 := ⟨fuel - 1, by omega⟩
    have hclose : isSpace 0x7d = false := by decide
    rw [parseObject_member (hmembers m List.mem_cons_self) (last_of_ordered hordered), dumpObject,
      List.nil_append, getNextToken_cons hclose]
    rfl
  | cons n values ih =>
    obtain ⟨fuel, rfl⟩ : ∃ n, fuel = n + 1 := ⟨fuel - 1, by omega⟩
    simp only [List.length_cons] at hfuel
    have hcomma : isSpace (chr ',') = false := by decide
    have hquote : isSpace (chr '"') = false := by decide
    have hopen : chr ',' ≠ 0x7d := by decide
    have hsep : dumpObject false (n :: values) ++ 0x7d :: rest =
        chr ',' :: chr ' ' :: (dumpMember n ++ (dumpObject false values ++ 0x7d :: rest)) := by
      simp [dumpObject, ascii]
    have hmoved : ((data ++ [m]) ++ n :: values).map Prod.fst =
        (data ++ m :: n :: values).map Prod.fst := by
      rw [List.append_assoc, List.singleton_append]
    have hbound : values.length < fuel := by omega
    have hrest := ih (fun k hk => hmembers k (List.mem_cons_of_mem m hk)) hbound
      (hmoved ▸ hordered)
    rw [parseObject_member (hmembers m List.mem_cons_self) (last_of_ordered hordered), hsep,
      dumpMember_append]
    simp only [bind, Except.bind, getNextToken_cons hcomma, if_neg hopen, getNextToken_space,
      getNextToken_cons hquote, ne_eq, not_true_eq_false, if_false]
    rw [hrest, List.append_assoc]
    rfl

end Levels

/-! ## Values -/

theorem parseJson_bracket (levels : ℕ) (s : Bytes) :
    parseJson (levels + 1) (chr '[' :: s) = (do
      let (ch, s) ← getNextToken s
      if ch = chr ']' then return (.array [], s)
      parseArray (parseJson levels) (s.length + 1) (ch :: s) []) := by
  have hspace : isSpace (chr '[') = false := by decide
  have hnumber : ¬ (chr '[' = chr '-' ∨ isDigit (chr '[') = true) := by decide
  have hliteral : chr '[' ≠ chr 't' ∧ chr '[' ≠ chr 'f' ∧ chr '[' ≠ chr 'n' := by decide
  have hother : chr '[' ≠ chr '"' ∧ chr '[' ≠ 0x7b := by decide
  rw [parseJson, getNextToken_cons hspace]
  simp only [bind, Except.bind, hnumber, hliteral.1, hliteral.2.1, hliteral.2.2, hother.1,
    hother.2, if_false, if_true]

theorem parseJson_brace (levels : ℕ) (s : Bytes) :
    parseJson (levels + 1) (0x7b :: s) = (do
      let (ch, s) ← getNextToken s
      if ch = 0x7d then return (.object [], s)
      parseObject (parseJson levels) (s.length + 1) ch s []) := by
  have hspace : isSpace 0x7b = false := by decide
  have hnumber : ¬ ((0x7b : UInt8) = chr '-' ∨ isDigit 0x7b = true) := by decide
  have hliteral : (0x7b : UInt8) ≠ chr 't' ∧ (0x7b : UInt8) ≠ chr 'f' ∧ (0x7b : UInt8) ≠ chr 'n' :=
    by decide
  have hquote : (0x7b : UInt8) ≠ chr '"' := by decide
  rw [parseJson, getNextToken_cons hspace]
  simp only [bind, Except.bind, hnumber, hliteral.1, hliteral.2.1, hliteral.2.2, hquote, if_false,
    if_true]

theorem readsBack_array {levels : ℕ} {values : List Json}
    (helements : ∀ v ∈ values, Readable levels v)
    (hread : ∀ v ∈ values, ReadsBack (parseJson levels) v) :
    ReadsBack (parseJson (levels + 1)) (.array values) := by
  intro rest
  cases values with
  | nil =>
    have hclose : isSpace (chr ']') = false := by decide
    have htext : dump (.array []) ++ rest = chr '[' :: chr ']' :: rest := rfl
    rw [htext, parseJson_bracket, getNextToken_cons hclose]
    rfl
  | cons v values =>
    obtain ⟨c, s, hdump, hspace, hopen⟩ := dump_head (helements v List.mem_cons_self)
    have htext : dump (.array (v :: values)) ++ rest =
        chr '[' :: (dump v ++ (dumpArray false values ++ chr ']' :: rest)) := by
      simp [dump, dumpArray]
    have hbound : values.length <
        (s ++ (dumpArray false values ++ chr ']' :: rest)).length + 1 := by
      have hlength := length_dumpArray values
      simp only [List.length_append, List.length_cons]
      omega
    have hloop := parseArray_dump (fun w hw => ⟨hread w hw, helements w hw⟩) hbound rest []
    rw [htext, parseJson_bracket]
    rw [hdump, List.cons_append] at hloop ⊢
    simp only [bind, Except.bind, getNextToken_cons hspace, if_neg hopen]
    exact hloop

theorem readsBack_object {levels : ℕ} {values : Object}
    (hordered : (values.map Prod.fst).Pairwise (· < ·))
    (hread : ∀ m ∈ values, ReadsBack (parseJson levels) m.2) :
    ReadsBack (parseJson (levels + 1)) (.object values) := by
  intro rest
  cases values with
  | nil =>
    have hclose : isSpace 0x7d = false := by decide
    have htext : dump (.object []) ++ rest = 0x7b :: 0x7d :: rest := rfl
    rw [htext, parseJson_brace, getNextToken_cons hclose]
    rfl
  | cons m values =>
    have hquote : isSpace (chr '"') = false := by decide
    have hopen : chr '"' ≠ 0x7d := by decide
    have htext : dump (.object (m :: values)) ++ rest =
        0x7b :: (dumpMember m ++ (dumpObject false values ++ 0x7d :: rest)) := by
      have hbrace : chr '\x7b' = 0x7b ∧ chr '\x7d' = 0x7d := by decide
      simp [dump, dumpObject, hbrace]
    have hbound : values.length < (dumpChars 0 m.1 ++ chr '"' :: (ascii ": " ++ (dump m.2 ++
        (dumpObject false values ++ 0x7d :: rest)))).length + 1 := by
      have hlength := length_dumpObject values
      simp only [List.length_append, List.length_cons]
      omega
    rw [htext, parseJson_brace, dumpMember_append, getNextToken_cons hquote]
    simp only [bind, Except.bind, if_neg hopen]
    exact parseObject_dump hread hbound rest hordered

/-- **What the writer makes of a value parses to the value**, whatever stands behind it. -/
theorem parseJson_dump {levels : ℕ} {j : Json} (h : Readable levels j) :
    ReadsBack (parseJson levels) j := by
  induction h with
  | null =>
    intro rest
    have hspace : isSpace (chr 'n') = false := by decide
    have htoken : getNextToken (dump .null ++ rest) = .ok (chr 'n', ascii "ull" ++ rest) :=
      getNextToken_cons hspace _
    simp only [parseJson, htoken, bind, Except.bind]
    exact expect_append (ascii "null") .null rest
  | bool b =>
    intro rest
    cases b with
    | false =>
      have hspace : isSpace (chr 'f') = false := by decide
      have htoken : getNextToken (dump (.bool false) ++ rest) =
          .ok (chr 'f', ascii "alse" ++ rest) := getNextToken_cons hspace _
      simp only [parseJson, htoken, bind, Except.bind]
      exact expect_append (ascii "false") (.bool false) rest
    | true =>
      have hspace : isSpace (chr 't') = false := by decide
      have htoken : getNextToken (dump (.bool true) ++ rest) =
          .ok (chr 't', ascii "rue" ++ rest) := getNextToken_cons hspace _
      simp only [parseJson, htoken, bind, Except.bind]
      exact expect_append (ascii "true") (.bool true) rest
  | string s =>
    intro rest
    have hspace : isSpace (chr '"') = false := by decide
    have htext : dump (.string s) ++ rest = chr '"' :: (dumpChars 0 s ++ chr '"' :: rest) := by
      simp [dump, dumpString]
    rw [htext]
    exact parseJson_string (getNextToken_cons hspace _) (parseString_dumpChars s rest) _
  | array helements ih => exact readsBack_array helements ih
  | object _ hordered ih => exact readsBack_object hordered ih

theorem parseText_dump {j : Json} (h : Readable (maxDepth + 1) j) : parseText (dump j) = .ok j := by
  have hread := parseJson_dump h []
  rw [List.append_nil] at hread
  rw [parseText, hread]
  rfl

end PgConsul.Json11
