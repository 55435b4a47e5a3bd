import PgConsul.Json11.Comparison
import PgConsul.Json11.Grammar
import PgConsul.Json11.NumberRoundTrip

/-! # Writing and reading any value

What `dump` writes is a text of the grammar, so the parser reads it as the value it stands for: an
equal one in the sense of `operator==`, unless a number is not finite and was written as `null`. An
`int` of ten digits comes back as a `double` and a `double` without fraction as an `int`, which are
still equal.
-/
namespace PgConsul.Json11
set_option autoImplicit false
open Foundations JsonText

/-- At most `levels` values stand inside each other. -/
def Within : ℕ → Json → Prop
  | 0, _ => False
  | levels + 1, .array values => ∀ v ∈ values, Within levels v
  | levels + 1, .object values => ∀ m ∈ values, Within levels m.2
  | _ + 1, _ => True

theorem Within.succ {levels : ℕ} {j : Json} (h : Within levels j) : Within (levels + 1) j := by
  induction levels generalizing j with
  | zero => exact absurd h (by simp [Within])
  | succ levels ih =>
    cases j with
    | array values => exact fun v hv => ih (h v hv)
    | object values => exact fun m hm => ih (h m hm)
    | null | double | int | bool | string => trivial

/-- Every object in the value is ordered by its keys, as a `std::map` is. -/
inductive Ordered : Json → Prop where
  | null : Ordered .null
  | double (d : Double) : Ordered (.double d)
  | int (i : Int32) : Ordered (.int i)
  | bool (b : Bool) : Ordered (.bool b)
  | string (s : Bytes) : Ordered (.string s)
  | array {values : List Json} (elements : ∀ v ∈ values, Ordered v) : Ordered (.array values)
  | object {values : Object} (members : ∀ m ∈ values, Ordered m.2)
      (keys : (values.map Prod.fst).Pairwise (· < ·)) : Ordered (.object values)

/-- Every number in the value is finite. -/
inductive FiniteNumbers : Json → Prop where
  | null : FiniteNumbers .null
  | double {d : Double} (h : d.value.isSome) : FiniteNumbers (.double d)
  | int (i : Int32) : FiniteNumbers (.int i)
  | bool (b : Bool) : FiniteNumbers (.bool b)
  | string (s : Bytes) : FiniteNumbers (.string s)
  | array {values : List Json} (elements : ∀ v ∈ values, FiniteNumbers v) :
      FiniteNumbers (.array values)
  | object {values : Object} (members : ∀ m ∈ values, FiniteNumbers m.2) :
      FiniteNumbers (.object values)

/-! ## Numbers -/

theorem int_text (i : Int32) :
    ∃ n : Number, n.text = decimalInt i.toInt ∧ n.negative = decide (i.toInt < 0) ∧
      n.fraction = none ∧ n.exponent = none ∧ n.whole = decimal i.toInt.natAbs := by
  have hlead : ∀ rest, decimal i.toInt.natAbs = chr '0' :: rest → rest = [] := by
    intro rest h
    rw [decimal_leading h] at h
    cases h
    rfl
  refine ⟨⟨decide (i.toInt < 0), decimal i.toInt.natAbs, none, none, decimal_isNumeral _, hlead,
    by rintro d ⟨⟩⟩, ?_, rfl, rfl, rfl, rfl⟩
  rw [Number.text, decimalInt]
  by_cases h : i.toInt < 0
  · rw [if_pos h, decide_eq_true h]
    simp [Number.signText, Number.fractionText, Number.exponentText]
  · rw [if_neg h, decide_eq_false h]
    simp [Number.signText, Number.fractionText, Number.exponentText]

theorem magnitude_int {n : Number} (hfraction : n.fraction = none) (hexponent : n.exponent = none) :
    n.magnitude = numeral n.whole := by
  simp [Number.magnitude, hfraction, hexponent, Number.fractionValue, Number.exponentValue]

/-- Whether a number is read as an `int` or a `double`, its value is the rounded one. -/
theorem numberReading_value (n : Number) :
    ∃ d, numberDouble (numberReading n) = some d ∧
      d.value = (Double.ofRat n.negative n.magnitude).value := by
  unfold numberReading
  split
  · next hshort =>
    obtain ⟨hfraction, hexponent, hlength⟩ := hshort
    rw [Option.isNone_iff_eq_none] at hfraction hexponent
    have hsmall : numeral n.whole < 10 ^ 9 := by
      have hdigits : n.whole.length ≤ 9 := by
        have hwhole : n.whole.length ≤ n.text.length := by
          simp only [Number.text, List.length_append]
          omega
        exact le_trans hwhole hlength
      calc numeral n.whole < 10 ^ n.whole.length := numeral_lt n.whole_numeral.2
        _ ≤ 10 ^ 9 := Nat.pow_le_pow_right (by norm_num) hdigits
    refine ⟨_, rfl, ?_⟩
    rw [intDouble_value, magnitude_int hfraction hexponent,
      Double.value_ofRat_natCast _ (by omega), Double.signed]
    have hexact : ∀ i : ℤ, -10 ^ 9 < i → i < 10 ^ 9 → (Int32.ofInt i).toInt = i := by
      intro i hlow hhigh
      exact Int32.toInt_ofInt_of_le (by norm_num at hlow ⊢; omega) (by norm_num at hhigh ⊢; omega)
    split
    · next hnegative =>
      rw [hexact _ (by omega) (by omega)]
      push_cast
      rfl
    · next hnegative =>
      rw [hexact _ (by omega) (by omega)]
      push_cast
      rfl
  · exact ⟨_, rfl, rfl⟩

/-- A finite double is read back as an equal number. -/
theorem dumpDouble_text (negative : Bool) (a : Magnitude) :
    ∃ n : Number, n.text = dumpDouble (.finite negative a) ∧
      equals (numberReading n) (.double (.finite negative a)) = true := by
  obtain ⟨n, hnegative, htext, hround⟩ := formatG17_text negative a
  obtain ⟨d, hd, hvalue⟩ := numberReading_value n
  rw [hnegative, hround] at hvalue
  refine ⟨n, htext, ?_⟩
  rw [equals_numbers hd rfl]
  exact (doubleEquals_iff hvalue).mpr rfl

theorem dumpInt_text (i : Int32) :
    ∃ n : Number, n.text = decimalInt i.toInt ∧ equals (numberReading n) (.int i) = true := by
  obtain ⟨n, htext, hnegative, hfraction, hexponent, hwhole⟩ := int_text i
  obtain ⟨d, hd, hvalue⟩ := numberReading_value n
  have hround : d.value = (intDouble i).value := by
    rw [hvalue, magnitude_int hfraction hexponent, hwhole, numeral_decimal, hnegative]
    rfl
  rw [intDouble_value] at hround
  refine ⟨n, htext, ?_⟩
  rw [equals_numbers hd rfl]
  exact (doubleEquals_iff hround).mpr (intDouble_value i)

/-! ## Elements and members -/

section Level
variable {levels : ℕ}

/-- What `dump` writes of `v` is the text of a value, which equals `v` if `v` has finite numbers. -/
def Written (levels : ℕ) (v : Json) : Prop :=
  ∃ w, IsValue reading levels (dump v) w ∧ (equals w v = true ↔ FiniteNumbers v)

theorem dumpArray_elements {v : Json} {values : List Json}
    (h : ∀ u ∈ v :: values, Written levels u) :
    ∃ ws, Elements (Padded (IsValue reading levels)) (dumpArray true (v :: values)) ws ∧
      (equalsArray ws (v :: values) = true ↔ ∀ u ∈ v :: values, FiniteNumbers u) := by
  have hblank : Blank [chr ' '] := by
    intro b hb
    exact .inl (List.mem_singleton.mp hb)
  induction values generalizing v with
  | nil =>
    obtain ⟨w, hw, hfinite⟩ := h v List.mem_cons_self
    refine ⟨[w], ?_, ?_⟩
    · have htext : dumpArray true [v] = dump v := by simp [dumpArray]
      rw [htext]
      exact .one (.bare hw)
    · simp [equalsArray, hfinite]
  | cons u values ih =>
    obtain ⟨w, hw, hfinite⟩ := h v List.mem_cons_self
    obtain ⟨ws, helements, hrest⟩ := ih fun x hx => h x (List.mem_cons_of_mem v hx)
    refine ⟨w :: ws, ?_, ?_⟩
    · have htext : dumpArray true (v :: u :: values) =
          dump v ++ chr ',' :: ([chr ' '] ++ dumpArray true (u :: values)) := by
        simp [dumpArray, ascii]
      rw [htext]
      exact .cons (.bare hw) (elements_indented (padded_indented _) hblank helements)
    · rw [equalsArray, Bool.and_eq_true, hfinite, hrest, List.forall_mem_cons (l := u :: values)]

theorem dumpMember_member {m : Bytes × Json} (h : Written levels m.2) :
    ∃ w, Member (Padded (IsValue reading levels)) (dumpMember m) (m.1, w) ∧
      (equals w m.2 = true ↔ FiniteNumbers m.2) := by
  obtain ⟨key, v⟩ := m
  obtain ⟨w, hw, hfinite⟩ := h
  obtain ⟨ps, hpieces, hcontent⟩ := pieces_of_spells (spells_dumpChars 0 key)
  have hblank : Blank [chr ' '] := by
    intro b hb
    exact .inl (List.mem_singleton.mp hb)
  have hmember := Member.mk blank_nil hpieces blank_nil (padded_indented _ hblank (Padded.bare hw))
  rw [hcontent, List.drop_zero] at hmember
  refine ⟨w, ?_, hfinite⟩
  have htext : dumpMember (key, v) =
      [] ++ chr '"' :: (dumpChars 0 key ++ chr '"' :: ([] ++ chr ':' :: ([chr ' '] ++ dump v))) := by
    simp [dumpMember, dumpString, ascii]
  rw [htext]
  exact hmember

theorem dumpObject_members {m : Bytes × Json} {values : Object}
    (h : ∀ n ∈ m :: values, Written levels n.2) :
    ∃ ws, Elements (Member (Padded (IsValue reading levels))) (dumpObject true (m :: values)) ws ∧
      ws.map Prod.fst = (m :: values).map Prod.fst ∧
      (equalsObject ws (m :: values) = true ↔ ∀ n ∈ m :: values, FiniteNumbers n.2) := by
  have hblank : Blank [chr ' '] := by
    intro b hb
    exact .inl (List.mem_singleton.mp hb)
  induction values generalizing m with
  | nil =>
    obtain ⟨w, hw, hfinite⟩ := dumpMember_member (h m List.mem_cons_self)
    refine ⟨[(m.1, w)], ?_, rfl, ?_⟩
    · have htext : dumpObject true [m] = dumpMember m := by simp [dumpObject]
      rw [htext]
      exact .one hw
    · simp [equalsObject, equalsMember_iff, hfinite]
  | cons n values ih =>
    obtain ⟨w, hw, hfinite⟩ := dumpMember_member (h m List.mem_cons_self)
    obtain ⟨ws, hmembers, hkeys, hrest⟩ := ih fun x hx => h x (List.mem_cons_of_mem m hx)
    refine ⟨(m.1, w) :: ws, ?_, by rw [List.map_cons, hkeys]; rfl, ?_⟩
    · have htext : dumpObject true (m :: n :: values) =
          dumpMember m ++ chr ',' :: ([chr ' '] ++ dumpObject true (n :: values)) := by
        simp [dumpObject, ascii]
      rw [htext]
      exact .cons hw (elements_indented (member_indented _) hblank hmembers)
    · rw [equalsObject, Bool.and_eq_true, equalsMember_iff, hfinite, hrest,
        List.forall_mem_cons (l := n :: values)]
      exact and_congr_left' (and_iff_right rfl)

/-- The members of an ordered map, assigned one after the other, make up the map. -/
theorem foldl_assign {data values : Object}
    (h : ((data ++ values).map Prod.fst).Pairwise (· < ·)) :
    values.foldl (fun data m => assign m.1 m.2 data) data = data ++ values := by
  induction values generalizing data with
  | nil => rw [List.foldl_nil, List.append_nil]
  | cons m values ih =>
    rw [List.foldl_cons, assign_last m.2 (last_of_ordered h), ih (by simpa using h)]
    simp

end Level

/-! ## Values -/

theorem written_array {levels : ℕ} {values : List Json} (h : ∀ v ∈ values, Written levels v) :
    Written (levels + 1) (.array values) := by
  have hiff : (∀ v ∈ values, FiniteNumbers v) ↔ FiniteNumbers (.array values) := by
    refine ⟨.array, fun hfinite => ?_⟩
    cases hfinite with
    | array helements => exact helements
  cases values with
  | nil => exact ⟨.array [], .emptyArray blank_nil, by simpa [equals, equalsArray] using hiff⟩
  | cons v values =>
    obtain ⟨ws, helements, hequals⟩ := dumpArray_elements h
    refine ⟨.array ws, ?_, by rw [equals, hequals, hiff]⟩
    rw [dump, List.append_assoc]
    exact .array helements

theorem written_object {levels : ℕ} {values : Object} (h : ∀ m ∈ values, Written levels m.2)
    (hkeys : (values.map Prod.fst).Pairwise (· < ·)) : Written (levels + 1) (.object values) := by
  have hiff : (∀ m ∈ values, FiniteNumbers m.2) ↔ FiniteNumbers (.object values) := by
    refine ⟨.object, fun hfinite => ?_⟩
    cases hfinite with
    | object hmembers => exact hmembers
  have hbrace : chr '\x7b' = 0x7b ∧ chr '\x7d' = 0x7d := by decide
  cases values with
  | nil =>
    refine ⟨.object [], ?_, by simpa [equals, equalsObject] using hiff⟩
    rw [dump, hbrace.1, hbrace.2]
    exact .emptyObject blank_nil
  | cons m values =>
    obtain ⟨ws, hmembers, hsame, hequals⟩ := dumpObject_members h
    rw [← hsame] at hkeys
    have hassign : reading.object ws = .object ws := congrArg Json.object (foldl_assign hkeys)
    refine ⟨.object ws, ?_, by rw [equals, hequals, hiff]⟩
    rw [dump, List.append_assoc, hbrace.1, hbrace.2, ← hassign]
    exact .object hmembers

theorem written_double (levels : ℕ) (d : Double) : Written (levels + 1) (.double d) := by
  have hnull : ∀ d : Double, d.value = none → ¬ FiniteNumbers (.double d) := by
    intro d hd hfinite
    cases hfinite with
    | double h =>
      rw [hd] at h
      cases h
  cases d with
  | finite negative a =>
    obtain ⟨n, htext, hequals⟩ := dumpDouble_text negative a
    refine ⟨numberReading n, ?_, iff_of_true hequals (.double rfl)⟩
    rw [dump, ← htext]
    exact .number n
  | infinite s => exact ⟨.null, .null, iff_of_false (by simp [equals]) (hnull _ rfl)⟩
  | nan => exact ⟨.null, .null, iff_of_false (by simp [equals]) (hnull _ rfl)⟩

theorem written_of_within {levels : ℕ} {j : Json} (hwithin : Within levels j) (h : Ordered j) :
    Written levels j := by
  induction levels generalizing j with
  | zero => exact absurd hwithin (by simp [Within])
  | succ levels ih =>
    cases h with
    | null => exact ⟨.null, .null, iff_of_true (by simp [equals]) .null⟩
    | double d => exact written_double levels d
    | int i =>
      obtain ⟨n, htext, hequals⟩ := dumpInt_text i
      refine ⟨numberReading n, ?_, iff_of_true hequals (.int i)⟩
      rw [dump, ← htext]
      exact .number n
    | bool b =>
      cases b with
      | false => exact ⟨.bool false, .false, iff_of_true (by simp [equals]) (.bool false)⟩
      | true => exact ⟨.bool true, .true, iff_of_true (by simp [equals]) (.bool true)⟩
    | string s =>
      obtain ⟨ps, hpieces, hcontent⟩ := pieces_of_spells (spells_dumpChars 0 s)
      rw [List.drop_zero] at hcontent
      refine ⟨.string s, ?_, iff_of_true (by simp [equals]) (.string s)⟩
      have hvalue : IsValue reading (levels + 1) (chr '"' :: (dumpChars 0 s ++ [chr '"']))
          (.string (content ps)) := .string hpieces
      rwa [hcontent] at hvalue
    | array helements => exact written_array fun v hv => ih (hwithin v hv) (helements v hv)
    | object hmembers hkeys =>
      exact written_object (fun m hm => ih (hwithin m hm) (hmembers m hm)) hkeys

/-! ## What is read nests no deeper than allowed -/

theorem mem_assign {key : Bytes} {value : Json} {data : Object} {m : Bytes × Json}
    (h : m ∈ assign key value data) : m = (key, value) ∨ m ∈ data := by
  induction data with
  | nil => exact .inl (List.mem_singleton.mp h)
  | cons n data ih =>
    obtain ⟨k, v⟩ := n
    rw [assign] at h
    split at h
    · rcases List.mem_cons.mp h with hm | hm
      · exact .inl hm
      · exact .inr (List.mem_cons_of_mem _ hm)
    · split at h
      · rcases List.mem_cons.mp h with hm | hm
        · exact .inl hm
        · exact .inr hm
      · rcases List.mem_cons.mp h with hm | hm
        · exact .inr (hm ▸ List.mem_cons_self)
        · exact (ih hm).imp_right (List.mem_cons_of_mem _)

theorem mem_foldl_assign {data values : Object} {m : Bytes × Json}
    (h : m ∈ values.foldl (fun data m => assign m.1 m.2 data) data) : m ∈ data ∨ m ∈ values := by
  induction values generalizing data with
  | nil => exact .inl h
  | cons n values ih =>
    rcases ih h with hm | hm
    · rcases mem_assign hm with rfl | hm
      · exact .inr List.mem_cons_self
      · exact .inl hm
    · exact .inr (List.mem_cons_of_mem _ hm)

theorem value_within {levels : ℕ} {t : Bytes} {v : Json} (h : IsValue reading levels t v) :
    Within levels v := by
  induction levels generalizing t v with
  | zero => cases h
  | succ levels ih =>
    have hpadded : ∀ {t v}, Padded (IsValue reading levels) t v → Within levels v := by
      intro t v hv
      obtain ⟨u, hu⟩ := hv.exists_inner
      exact ih hu
    cases h with
    | null => trivial
    | true => trivial
    | false => trivial
    | number n =>
      change Within (levels + 1) (numberReading n)
      unfold numberReading
      split <;> trivial
    | string _ => trivial
    | emptyArray _ => exact fun v hv => absurd hv List.not_mem_nil
    | emptyObject _ => exact fun v hv => absurd hv List.not_mem_nil
    | array helements =>
      intro v hv
      obtain ⟨t, ht⟩ := helements.exists_mem hv
      exact hpadded ht
    | object hmembers =>
      intro m hm
      rcases mem_foldl_assign hm with hm | hm
      · exact absurd hm List.not_mem_nil
      · obtain ⟨t, ht⟩ := hmembers.exists_mem hm
        obtain ⟨-, -, -, hvalue⟩ := ht
        exact hpadded hvalue

/-! ## What is read is ordered -/

theorem assign_ordered {key : Bytes} {value : Json} {data : Object}
    (h : (data.map Prod.fst).Pairwise (· < ·)) :
    ((assign key value data).map Prod.fst).Pairwise (· < ·) := by
  induction data with
  | nil => exact List.pairwise_singleton _ _
  | cons m data ih =>
    obtain ⟨k, v⟩ := m
    obtain ⟨hfirst, hrest⟩ := List.pairwise_cons.mp h
    rw [assign]
    split
    · next heq =>
      subst heq
      exact h
    · next hne =>
      split
      · next hlt =>
        refine List.pairwise_cons.mpr ⟨fun l hl => ?_, h⟩
        rcases List.mem_cons.mp hl with rfl | hl
        · exact hlt
        · exact List.lt_trans hlt (hfirst l hl)
      · next hge =>
        have hbehind : k < key := by
          by_contra hnot
          exact hne (List.le_antisymm hnot hge)
        refine List.pairwise_cons.mpr ⟨fun l hl => ?_, ih hrest⟩
        obtain ⟨m, hm, rfl⟩ := List.mem_map.mp hl
        rcases mem_assign hm with rfl | hm
        · exact hbehind
        · exact hfirst m.1 (List.mem_map_of_mem hm)

theorem foldl_assign_ordered {data values : Object} (h : (data.map Prod.fst).Pairwise (· < ·)) :
    ((values.foldl (fun data m => assign m.1 m.2 data) data).map Prod.fst).Pairwise (· < ·) := by
  induction values generalizing data with
  | nil => exact h
  | cons m values ih => exact ih (assign_ordered h)

theorem value_ordered {levels : ℕ} {t : Bytes} {v : Json} (h : IsValue reading levels t v) :
    Ordered v := by
  induction levels generalizing t v with
  | zero => cases h
  | succ levels ih =>
    have hpadded : ∀ {t v}, Padded (IsValue reading levels) t v → Ordered v := by
      intro t v hv
      obtain ⟨u, hu⟩ := hv.exists_inner
      exact ih hu
    cases h with
    | null => exact .null
    | true => exact .bool true
    | false => exact .bool false
    | number n =>
      change Ordered (numberReading n)
      unfold numberReading
      split
      · exact .int _
      · exact .double _
    | string _ => exact .string _
    | emptyArray _ => exact .array fun v hv => absurd hv List.not_mem_nil
    | emptyObject _ => exact .object (fun v hv => absurd hv List.not_mem_nil) .nil
    | array helements =>
      refine .array fun v hv => ?_
      obtain ⟨t, ht⟩ := helements.exists_mem hv
      exact hpadded ht
    | object hmembers =>
      refine .object (fun m hm => ?_) (foldl_assign_ordered .nil)
      rcases mem_foldl_assign hm with hm | hm
      · exact absurd hm List.not_mem_nil
      · obtain ⟨t, ht⟩ := hmembers.exists_mem hm
        obtain ⟨-, -, -, hvalue⟩ := ht
        exact hpadded hvalue

theorem parseText_ordered {text : Bytes} {j : Json} (h : parseText text = .ok j) :
    Ordered j ∧ Within (maxDepth + 1) j := by
  obtain ⟨t, hvalue⟩ := (parseText_sound h).exists_inner
  exact ⟨value_ordered hvalue, value_within hvalue⟩

theorem equals_within {levels : ℕ} {a b : Json} (h : equals a b = true) (hwithin : Within levels a) :
    Within levels b := by
  induction levels generalizing a b with
  | zero => exact hwithin
  | succ levels ih =>
    cases b with
    | null => trivial
    | double => trivial
    | int => trivial
    | bool => trivial
    | string => trivial
    | array ys =>
      cases a <;> simp only [equals, Bool.false_eq_true] at h
      next xs =>
        intro y hy
        obtain ⟨x, hx, hxy⟩ := forall₂_right (equalsArray_forall.mp h) hy
        exact ih hxy (hwithin x hx)
    | object ys =>
      cases a <;> simp only [equals, Bool.false_eq_true] at h
      next xs =>
        intro y hy
        obtain ⟨x, hx, hxy⟩ := forall₂_right (equalsObject_forall.mp h) hy
        exact ih hxy.2 (hwithin x hx)

/-! ## Whole texts -/

theorem reads_back_iff_finite {j : Json} (hwithin : Within (maxDepth + 1) j) (h : Ordered j) :
    (∃ v, parseText (dump j) = .ok v ∧ equals v j = true) ↔ FiniteNumbers j := by
  obtain ⟨w, hw, hfinite⟩ := written_of_within hwithin h
  have hparse := parseText_complete (Padded.bare hw)
  constructor
  · rintro ⟨v, hv, hequals⟩
    rw [hparse, Except.ok.injEq] at hv
    exact hfinite.mp (hv ▸ hequals)
  · intro hnumbers
    exact ⟨w, hparse, hfinite.mpr hnumbers⟩

/-- **What `dump` writes reads back equal** exactly when it nests at most `max_depth + 1` values and
has only finite numbers. -/
theorem dump_reads_back_iff {j : Json} (h : Ordered j) :
    (∃ v, parseText (dump j) = .ok v ∧ equals v j = true) ↔
      Within (maxDepth + 1) j ∧ FiniteNumbers j := by
  constructor
  · rintro ⟨v, hparse, hequals⟩
    have hwithin := equals_within hequals (parseText_ordered hparse).2
    exact ⟨hwithin, (reads_back_iff_finite hwithin h).mp ⟨v, hparse, hequals⟩⟩
  · rintro ⟨hwithin, hfinite⟩
    exact (reads_back_iff_finite hwithin h).mpr hfinite

/-- A ten-digit `int` and a negative zero under a key. -/
def longAndZero : Json :=
  .object [(ascii "n", .array [.int 1234567890, .double (Double.zero true)])]

theorem longAndZero_reads_back :
    ∃ v, parseText (dump longAndZero) = .ok v ∧ equals v longAndZero = true := by
  have hordered : Ordered longAndZero := by
    refine .object (List.forall_mem_singleton.mpr (.array ?_)) (List.pairwise_singleton _ _)
    exact List.forall_mem_cons.mpr ⟨.int _, List.forall_mem_singleton.mpr (.double _)⟩
  have hfinite : FiniteNumbers longAndZero := by
    refine .object (List.forall_mem_singleton.mpr (.array ?_))
    exact List.forall_mem_cons.mpr ⟨.int _, List.forall_mem_singleton.mpr (.double rfl)⟩
  have hwithin : Within (maxDepth + 1) longAndZero := by
    refine List.forall_mem_singleton.mpr (List.forall_mem_cons.mpr ⟨trivial, ?_⟩)
    exact List.forall_mem_singleton.mpr trivial
  exact (dump_reads_back_iff hordered).mpr ⟨hwithin, hfinite⟩

end PgConsul.Json11
