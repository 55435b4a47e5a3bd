import PgConsul.Extension.HostCheck

/-! # The host names the check hook accepts

The host-name expression matches the strings whose pieces between dots are labels, and every
dotted quad is one of them: the address expression adds nothing.
-/
namespace PgConsul.Extension
set_option autoImplicit false
open Foundations Foundations.Regex RegularExpression

/-! ## Labels -/

/-- An ASCII letter or digit. -/
def IsAlnum (b : UInt8) : Prop :=
  (chr 'a' ≤ b ∧ b ≤ chr 'z') ∨ (chr 'A' ≤ b ∧ b ≤ chr 'Z') ∨ (chr '0' ≤ b ∧ b ≤ chr '9')

instance (b : UInt8) : Decidable (IsAlnum b) := by unfold IsAlnum; infer_instance

/-- Letters, digits and `-`, with a letter or digit at both ends. -/
structure IsLabel (w : Bytes) : Prop where
  bytes : ∀ b ∈ w, IsAlnum b ∨ b = chr '-'
  first : ∃ b, w.head? = some b ∧ IsAlnum b
  last : ∃ b, w.getLast? = some b ∧ IsAlnum b

theorem mem_alnumBytes (b : UInt8) : b ∈ alnumBytes ↔ IsAlnum b := by
  rw [alnumBytes, List.mem_append, List.mem_append, mem_byteRange (by decide),
    mem_byteRange (by decide), mem_byteRange (by decide), or_assoc]
  simp only [IsAlnum, UInt8.le_iff_toNat_le]
  rfl

theorem IsLabel.singleton {b : UInt8} (h : IsAlnum b) : IsLabel [b] :=
  ⟨by simpa using Or.inl h, ⟨b, rfl, h⟩, ⟨b, rfl, h⟩⟩

theorem mem_label_of_isLabel {w : Bytes} (h : IsLabel w) : w ∈ label.matches' := by
  obtain ⟨hbytes, ⟨b, hfirst, hb⟩, ⟨c, hlast, hc⟩⟩ := h
  rw [label, matches'_add, Language.mem_add]
  cases w with
  | nil => cases hfirst
  | cons a rest =>
    rw [List.head?_cons, Option.some_inj] at hfirst
    subst hfirst
    by_cases hrest : rest = []
    · subst hrest
      exact .inl (mem_charClass.mpr ⟨a, (mem_alnumBytes a).mpr hb, rfl⟩)
    · right
      have hsplit : rest.dropLast ++ [c] = rest := by
        rw [List.getLast?_cons_of_ne_nil hrest] at hlast
        exact List.dropLast_append_getLast? c hlast
      have hinner : rest.dropLast ∈ (star (charClass (alnumBytes ++ [chr '-']))).matches' := by
        refine mem_star_charClass.mpr fun d hd => ?_
        rw [List.mem_append, List.mem_singleton, mem_alnumBytes]
        exact hbytes d (List.mem_cons_of_mem a (List.dropLast_subset rest hd))
      have hfront : a :: rest.dropLast ∈
          (alnum * star (charClass (alnumBytes ++ [chr '-']))).matches' := by
        rw [matches'_mul, Language.mem_mul]
        exact ⟨[a], mem_charClass.mpr ⟨a, (mem_alnumBytes a).mpr hb, rfl⟩, _, hinner, rfl⟩
      rw [matches'_mul, Language.mem_mul]
      refine ⟨_, hfront, [c], mem_charClass.mpr ⟨c, (mem_alnumBytes c).mpr hc, rfl⟩, ?_⟩
      rw [List.cons_append, hsplit]

theorem isLabel_of_mem_label {w : Bytes} (h : w ∈ label.matches') : IsLabel w := by
  rw [label, matches'_add, Language.mem_add] at h
  cases h with
  | inl h =>
    obtain ⟨b, hb, rfl⟩ := mem_charClass.mp h
    exact IsLabel.singleton ((mem_alnumBytes b).mp hb)
  | inr h =>
    rw [matches'_mul, Language.mem_mul] at h
    obtain ⟨front, hfront, last, hlast, rfl⟩ := h
    rw [matches'_mul, Language.mem_mul] at hfront
    obtain ⟨first, hfirst, inner, hinner, rfl⟩ := hfront
    obtain ⟨b, hb, rfl⟩ := mem_charClass.mp hfirst
    obtain ⟨c, hc, rfl⟩ := mem_charClass.mp hlast
    have hinner := mem_star_charClass.mp hinner
    rw [mem_alnumBytes] at hb hc
    refine ⟨?_, ⟨b, by simp, hb⟩, ⟨c, List.getLast?_concat, hc⟩⟩
    intro d hd
    simp only [List.mem_append, List.mem_singleton] at hd
    rcases hd with (rfl | hd) | rfl
    · exact .inl hb
    · have hmem := hinner d hd
      rw [List.mem_append, List.mem_singleton, mem_alnumBytes] at hmem
      exact hmem
    · exact .inl hc

theorem mem_label_iff (w : Bytes) : w ∈ label.matches' ↔ IsLabel w :=
  ⟨isLabel_of_mem_label, mem_label_of_isLabel⟩

/-! ## Host names -/

/-- Labels between dots. -/
def IsHostName (h : Bytes) : Prop := ∀ w ∈ h.splitOn (chr '.'), IsLabel w

theorem rfc1123_iff (h : Bytes) : rfc1123Regex.rmatch h = true ↔ IsHostName h := by
  have hdot : ∀ w ∈ label.matches', chr '.' ∉ w := by
    intro w hw hmem
    have hbad : ¬ (IsAlnum (chr '.') ∨ chr '.' = chr '-') := by decide
    exact hbad ((isLabel_of_mem_label hw).bytes _ hmem)
  rw [rmatch_iff_matches', rfc1123Regex, dot, mem_separated hdot]
  exact forall₂_congr fun w _ => mem_label_iff w

/-! ## Addresses -/

theorem IsAlnum.of_isDigit {b : UInt8} (h : isDigit b = true) : IsAlnum b := by
  simp only [isDigit, Bool.and_eq_true, decide_eq_true_eq] at h
  exact .inr (.inr h)

theorem IsLabel.of_isNumeral {w : Bytes} (h : IsNumeral w) : IsLabel w := by
  obtain ⟨hne, hdigits⟩ := h
  refine ⟨fun b hb => .inl (.of_isDigit (hdigits b hb)), ?_, ?_⟩
  · exact ⟨w.head hne, List.head?_eq_some_head hne, .of_isDigit (hdigits _ (List.head_mem hne))⟩
  · exact ⟨w.getLast hne, List.getLast?_eq_some_getLast hne,
      .of_isDigit (hdigits _ (List.getLast_mem hne))⟩

/-- A dotted quad of numerals. -/
def quad (a b c d : Bytes) : Bytes :=
  a ++ chr '.' :: (b ++ chr '.' :: (c ++ chr '.' :: d))

theorem isHostName_quad {a b c d : Bytes} (ha : IsNumeral a) (hb : IsNumeral b) (hc : IsNumeral c)
    (hd : IsNumeral d) : IsHostName (quad a b c d) := by
  have hdot : ∀ w : Bytes, IsNumeral w → chr '.' ∉ w :=
    fun w hw hmem => absurd (hw.2 _ hmem) (by decide)
  rw [IsHostName, quad, List.splitOn_append_cons_self_of_not_mem (hdot a ha),
    List.splitOn_append_cons_self_of_not_mem (hdot b hb),
    List.splitOn_append_cons_self_of_not_mem (hdot c hc), List.splitOn_eq_singleton (hdot d hd)]
  simp only [List.forall_mem_cons, List.not_mem_nil, false_imp_iff, implies_true, and_true]
  exact ⟨.of_isNumeral ha, .of_isNumeral hb, .of_isNumeral hc, .of_isNumeral hd⟩

theorem isNumeral_of_octet {w : Bytes} (h : w ∈ octet.matches') : IsNumeral w := by
  refine ⟨?_, (over_octet fun _ hx => hx).of_matches h⟩
  rintro rfl
  have hnil : octet.rmatch [] = true := (rmatch_iff_matches' _ _).mpr h
  exact absurd hnil (by decide +kernel)

theorem mem_octet_dot (w : Bytes) :
    w ∈ (octet * dot).matches' ↔ ∃ u ∈ octet.matches', w = u ++ [chr '.'] := by
  rw [matches'_mul, Language.mem_mul]
  constructor
  · rintro ⟨u, hu, v, hv, rfl⟩
    have hsep : v = [chr '.'] := hv
    exact ⟨u, hu, by rw [hsep]⟩
  · rintro ⟨u, hu, rfl⟩
    exact ⟨u, hu, [chr '.'], rfl, rfl⟩

/-- The address expression matches four octets. -/
theorem rfc791_iff (h : Bytes) : rfc791Regex.rmatch h = true ↔
    ∃ a ∈ octet.matches', ∃ b ∈ octet.matches', ∃ c ∈ octet.matches', ∃ d ∈ octet.matches',
      quad a b c d = h := by
  rw [rmatch_iff_matches', rfc791Regex, matches'_mul, Language.mem_mul]
  constructor
  · rintro ⟨xyz, hxyz, d, hd, rfl⟩
    rw [matches'_mul, Language.mem_mul] at hxyz
    obtain ⟨xy, hxy, z, hz, rfl⟩ := hxyz
    rw [matches'_mul, Language.mem_mul] at hxy
    obtain ⟨x, hx, y, hy, rfl⟩ := hxy
    obtain ⟨a, ha, rfl⟩ := (mem_octet_dot x).mp hx
    obtain ⟨b, hb, rfl⟩ := (mem_octet_dot y).mp hy
    obtain ⟨c, hc, rfl⟩ := (mem_octet_dot z).mp hz
    exact ⟨a, ha, b, hb, c, hc, d, hd, by simp [quad]⟩
  · rintro ⟨a, ha, b, hb, c, hc, d, hd, rfl⟩
    have hfront : (a ++ [chr '.']) ++ (b ++ [chr '.']) ++ (c ++ [chr '.']) ∈
        ((octet * dot) * (octet * dot) * (octet * dot)).matches' := by
      rw [matches'_mul, matches'_mul, Language.mem_mul]
      refine ⟨_, ?_, _, (mem_octet_dot _).mpr ⟨c, hc, rfl⟩, rfl⟩
      rw [Language.mem_mul]
      exact ⟨_, (mem_octet_dot _).mpr ⟨a, ha, rfl⟩, _, (mem_octet_dot _).mpr ⟨b, hb, rfl⟩, rfl⟩
    exact ⟨_, hfront, d, hd, by simp [quad]⟩

theorem octet_decimal : ∀ n < 256, octet.rmatch (decimal n) = true := by decide +kernel

theorem isHostName_of_rfc791 {h : Bytes} (hmatch : rfc791Regex.rmatch h = true) :
    IsHostName h := by
  obtain ⟨a, ha, b, hb, c, hc, d, hd, rfl⟩ := (rfc791_iff h).mp hmatch
  exact isHostName_quad (isNumeral_of_octet ha) (isNumeral_of_octet hb) (isNumeral_of_octet hc)
    (isNumeral_of_octet hd)

/-! ## The hook -/

/-- The hook with the two expressions in the given order. -/
def checkInOrder (first second : RegularExpression UInt8) (newHost : Bytes) : Bool :=
  if RFC1123_NAME_LIMIT < newHost.length then false
  else
    let validFirst := first.rmatch newHost
    let validSecond := if validFirst then false else second.rmatch newHost
    validFirst || validSecond

theorem agentHostCheckHook_eq : agentHostCheckHook = checkInOrder rfc791Regex rfc1123Regex := rfl

/-- When the first expression matches no more than the second, the order is free and the second
decides. -/
theorem checkInOrder_eq {first second : RegularExpression UInt8} {newHost : Bytes}
    (h : first.rmatch newHost = true → second.rmatch newHost = true) :
    checkInOrder first second newHost = checkInOrder second first newHost ∧
      (checkInOrder first second newHost = true ↔
        newHost.length ≤ RFC1123_NAME_LIMIT ∧ second.rmatch newHost = true) := by
  unfold checkInOrder
  by_cases hlen : RFC1123_NAME_LIMIT < newHost.length
  · simp only [if_pos hlen, Bool.false_eq_true, false_iff, true_and]
    omega
  · simp only [if_neg hlen]
    have hle : newHost.length ≤ RFC1123_NAME_LIMIT := by omega
    cases hfirst : first.rmatch newHost with
    | true => simp [h hfirst, hle]
    | false => cases hsecond : second.rmatch newHost <;> simp [hle]

/-- **The hook accepts exactly the host names of at most 255 bytes; the dotted quads are among them
for either expression, and the order of the two does not matter.** -/
theorem agentHostCheckHook_grammar :
    (∀ h : Bytes, agentHostCheckHook h = true ↔ h.length ≤ 255 ∧ IsHostName h) ∧
      (∀ a b c d : ℕ, a ≤ 255 → b ≤ 255 → c ≤ 255 → d ≤ 255 →
        rfc791Regex.rmatch (quad (decimal a) (decimal b) (decimal c) (decimal d)) = true ∧
          rfc1123Regex.rmatch (quad (decimal a) (decimal b) (decimal c) (decimal d)) = true) ∧
      ∀ h : Bytes, agentHostCheckHook h = checkInOrder rfc1123Regex rfc791Regex h := by
  have hincluded : ∀ h : Bytes, rfc791Regex.rmatch h = true → rfc1123Regex.rmatch h = true :=
    fun h hmatch => (rfc1123_iff h).mpr (isHostName_of_rfc791 hmatch)
  refine ⟨fun h => ?_, ?_, fun h => ?_⟩
  · rw [agentHostCheckHook_eq, (checkInOrder_eq (hincluded h)).2, rfc1123_iff]
    rfl
  · intro a b c d ha hb hc hd
    have hoctet : ∀ n ≤ 255, decimal n ∈ octet.matches' := fun n hn =>
      (rmatch_iff_matches' _ _).mp (octet_decimal n (Nat.lt_succ_of_le hn))
    have hquad : rfc791Regex.rmatch (quad (decimal a) (decimal b) (decimal c) (decimal d)) = true :=
      (rfc791_iff _).mpr ⟨_, hoctet a ha, _, hoctet b hb, _, hoctet c hc, _, hoctet d hd, rfl⟩
    exact ⟨hquad, hincluded _ hquad⟩
  · rw [agentHostCheckHook_eq, (checkInOrder_eq (hincluded h)).1]

/-- The one-label host name `a-1` and the quad with leading zeros, which is no address. -/
example : agentHostCheckHook (ascii "a-1") = true ∧ agentHostCheckHook (ascii "01.2.3.04") = true ∧
    rfc791Regex.rmatch (ascii "01.2.3.04") = false := by decide +kernel

end PgConsul.Extension
