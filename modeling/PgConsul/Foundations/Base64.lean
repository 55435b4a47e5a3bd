import PgConsul.Foundations.Bytes

/-! # The base64 text of RFC 4648

Three bytes are one 24-bit group, written as four characters of six bits each; a last group of one
or two bytes is padded with `=`.
-/
namespace Foundations.Base64
set_option autoImplicit false

def alphabet : Bytes :=
  ascii "ABCDEFGHIJKLMNOPQRSTUVWXYZabcdefghijklmnopqrstuvwxyz0123456789+/"

def sextetChar (n : ℕ) : UInt8 := alphabet.getD n 0

def group (a b c : UInt8) : ℕ := a.toNat * 65536 + b.toNat * 256 + c.toNat

/-- The `i`-th six bits of a group, most significant first. -/
def sextet (n i : ℕ) : ℕ := n / 64 ^ (3 - i) % 64

def encode : Bytes → Bytes
  | [] => []
  | [a] =>
    let n := group a 0 0
    [sextetChar (sextet n 0), sextetChar (sextet n 1), chr '=', chr '=']
  | [a, b] =>
    let n := group a b 0
    [sextetChar (sextet n 0), sextetChar (sextet n 1), sextetChar (sextet n 2), chr '=']
  | a :: b :: c :: rest =>
    let n := group a b c
    sextetChar (sextet n 0) :: sextetChar (sextet n 1) :: sextetChar (sextet n 2) ::
      sextetChar (sextet n 3) :: encode rest

theorem sextet_lt (n i : ℕ) : sextet n i < 64 := Nat.mod_lt _ (by norm_num)

/-- The bytes of a group, read back from its sextets. -/
theorem group_bytes (a b c : UInt8) :
    4 * sextet (group a b c) 0 + sextet (group a b c) 1 / 16 = a.toNat ∧
      16 * (sextet (group a b c) 1 % 16) + sextet (group a b c) 2 / 4 = b.toNat ∧
      64 * (sextet (group a b c) 2 % 4) + sextet (group a b c) 3 = c.toNat := by
  have ha := a.toNat_lt
  have hb := b.toNat_lt
  have hc := c.toNat_lt
  simp only [sextet, group]
  norm_num
  omega

/-! ## The shape of the text -/

theorem length_encode (v : Bytes) : (encode v).length = 4 * ((v.length + 2) / 3) := by
  fun_induction encode v with
  | case1 => rfl
  | case2 a n => simp
  | case3 a b n => simp
  | case4 a b c rest n ih =>
    simp only [List.length_cons, ih]
    omega

theorem encode_append {u : Bytes} (hu : 3 ∣ u.length) (w : Bytes) :
    encode (u ++ w) = encode u ++ encode w := by
  fun_induction encode u with
  | case1 => rfl
  | case2 a n =>
    simp only [List.length_cons, List.length_nil] at hu
    omega
  | case3 a b n =>
    simp only [List.length_cons, List.length_nil] at hu
    omega
  | case4 a b c rest n ih =>
    have hrest : 3 ∣ rest.length := by
      simp only [List.length_cons] at hu
      omega
    simp [encode, ih hrest, n]

theorem sextetChar_ne_newline : ∀ f < 64, sextetChar f ≠ chr '\n' := by decide +kernel

theorem newline_not_mem_encode (v : Bytes) : chr '\n' ∉ encode v := by
  have hchar : ∀ n i, chr '\n' ≠ sextetChar (sextet n i) :=
    fun n i => (sextetChar_ne_newline _ (sextet_lt n i)).symm
  have hpad : chr '\n' ≠ chr '=' := by decide
  fun_induction encode v with
  | case1 => exact List.not_mem_nil
  | case2 a n => simp [hchar, hpad]
  | case3 a b n => simp [hchar, hpad]
  | case4 a b c rest n ih => simp [hchar, ih]

end Foundations.Base64
