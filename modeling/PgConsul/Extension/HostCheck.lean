import PgConsul.Foundations.CString
import PgConsul.Foundations.Percent
import PgConsul.Foundations.Regex

/-! # The check hook of `consul.agent_host`

The hook matches a host against two regular expressions. Both are written over letters, digits, `-`
and `.` only, so an accepted host holds no delimiter of a URL.
-/
namespace PgConsul.Extension
set_option autoImplicit false
open Foundations Foundations.Regex RegularExpression

/-! ## The expressions -/

def digit : RegularExpression UInt8 := charClass (byteRange '0' '9')

def digitFrom (a b : Char) : RegularExpression UInt8 := charClass (byteRange a b)

/-- `[0-9]|[1-9][0-9]|1[0-9]{2}|2[0-4][0-9]|25[0-5]` -/
def octet : RegularExpression UInt8 :=
  digit + digitFrom '1' '9' * digit + char (chr '1') * (digit * digit) +
    char (chr '2') * digitFrom '0' '4' * digit +
    char (chr '2') * char (chr '5') * digitFrom '0' '5'

def dot : RegularExpression UInt8 := char (chr '.')

/-- `^(octet\.){3}octet$` -/
def rfc791Regex : RegularExpression UInt8 :=
  (octet * dot) * (octet * dot) * (octet * dot) * octet

def alnumBytes : Bytes := byteRange 'a' 'z' ++ byteRange 'A' 'Z' ++ byteRange '0' '9'

def alnum : RegularExpression UInt8 := charClass alnumBytes

/-- `[a-zA-Z0-9]|[a-zA-Z0-9][a-zA-Z0-9\-]*[a-zA-Z0-9]` -/
def label : RegularExpression UInt8 :=
  alnum + alnum * star (charClass (alnumBytes ++ [chr '-'])) * alnum

/-- `^(label\.)*label$` -/
def rfc1123Regex : RegularExpression UInt8 := star (label * dot) * label

/-! ## The hook -/

def RFC1123_NAME_LIMIT : ℕ := 255

/-- `pg_consul_agent_host_check_hook(const char*)`. -/
def agentHostCheckHook (newHost : Bytes) : Bool :=
  if RFC1123_NAME_LIMIT < newHost.length then false
  else
    let validIp := rfc791Regex.rmatch newHost
    let validHost := if validIp then false else rfc1123Regex.rmatch newHost
    validIp || validHost

/-- The overload PostgreSQL calls; `none` is a null pointer. -/
def agentHostCheckHookPtr : Option Bytes → Bool
  | none => false
  | some newHost => agentHostCheckHook newHost

/-! ## The letters of an accepted host -/

def IsHostByte (b : UInt8) : Prop := b ∈ alnumBytes ++ [chr '-', chr '.']

instance (b : UInt8) : Decidable (IsHostByte b) := by unfold IsHostByte; infer_instance

theorem over_of_mem {bs : Bytes} (h : bs ⊆ alnumBytes ++ [chr '-', chr '.']) :
    Over IsHostByte (charClass bs) := over_charClass fun _ hb => h hb

theorem isDigit_of_mem_byteRange {a b : Char} (ha : 48 ≤ a.toNat) (hb : b.toNat ≤ 57) {x : UInt8}
    (hx : x ∈ byteRange a b) : isDigit x = true := by
  rw [mem_byteRange (by omega)] at hx
  exact isDigit_iff.mpr ⟨ha.trans hx.1, hx.2.trans hb⟩

/-- An octet is made of digits. -/
theorem over_octet {p : UInt8 → Prop} (h : ∀ x, isDigit x = true → p x) : Over p octet := by
  have hclass : ∀ a b : Char, 48 ≤ a.toNat → b.toNat ≤ 57 → Over p (digitFrom a b) :=
    fun a b ha hb => over_charClass fun x hx => h x (isDigit_of_mem_byteRange ha hb hx)
  have hdigit : Over p digit := hclass '0' '9' (by decide) (by decide)
  have h19 : Over p (digitFrom '1' '9') := hclass '1' '9' (by decide) (by decide)
  have h04 : Over p (digitFrom '0' '4') := hclass '0' '4' (by decide) (by decide)
  have h05 : Over p (digitFrom '0' '5') := hclass '0' '5' (by decide) (by decide)
  have h1 : p (chr '1') := h _ rfl
  have h2 : p (chr '2') := h _ rfl
  have h5 : p (chr '5') := h _ rfl
  exact ⟨⟨⟨⟨hdigit, h19, hdigit⟩, h1, hdigit, hdigit⟩, ⟨h2, h04⟩, hdigit⟩, ⟨h2, h5⟩, h05⟩

theorem isHostByte_of_isDigit {x : UInt8} (h : isDigit x = true) : IsHostByte x := by
  have hmem : x ∈ byteRange '0' '9' := (mem_byteRange (by decide)).mpr (isDigit_iff.mp h)
  exact List.mem_append_left _ (List.mem_append_right _ hmem)

theorem over_rfc791 : Over IsHostByte rfc791Regex := by
  have hdot : IsHostByte (chr '.') := by decide
  have hoctet : Over IsHostByte octet := over_octet fun _ => isHostByte_of_isDigit
  exact ⟨⟨⟨⟨hoctet, hdot⟩, hoctet, hdot⟩, hoctet, hdot⟩, hoctet⟩

theorem over_rfc1123 : Over IsHostByte rfc1123Regex := by
  have hdot : IsHostByte (chr '.') := by decide
  have halnum : Over IsHostByte alnum := over_of_mem (List.subset_append_left _ _)
  have hinner : Over IsHostByte (charClass (alnumBytes ++ [chr '-'])) := over_of_mem (by decide)
  have hlabel : Over IsHostByte label := ⟨halnum, ⟨halnum, hinner⟩, halnum⟩
  exact ⟨⟨hlabel, hdot⟩, hlabel⟩

theorem agentHostCheckHook_bytes {host : Bytes} (h : agentHostCheckHook host = true) :
    ∀ b ∈ host, IsHostByte b := by
  unfold agentHostCheckHook at h
  split at h
  · exact Bool.noConfusion h
  · simp only [Bool.or_eq_true] at h
    rcases h with h | h
    · exact over_rfc791.of_matches ((rmatch_iff_matches' _ _).mp h)
    · split at h
      · exact Bool.noConfusion h
      · exact over_rfc1123.of_matches ((rmatch_iff_matches' _ _).mp h)

/-- **No delimiter of a URL and no NUL occurs in an accepted host.** -/
theorem agentHostCheckHook_delimiter {host : Bytes} (h : agentHostCheckHook host = true)
    {d : UInt8} (hd : ¬ IsHostByte d) : d ∉ host := by
  intro hmem
  exact hd (agentHostCheckHook_bytes h d hmem)

theorem agentHostCheckHook_inAuthority {host : Bytes} (h : agentHostCheckHook host = true) :
    ∀ b ∈ host, inAuthority b = true := by
  have hall : ∀ b ∈ alnumBytes ++ [chr '-', chr '.'], inAuthority b = true := by decide +kernel
  exact fun b hb => hall b (agentHostCheckHook_bytes h b hb)

theorem agentHostCheckHook_default : agentHostCheckHook (ascii "127.0.0.1") = true := by
  decide +kernel

example : agentHostCheckHook (ascii "lo-cal.d0") = true ∧
    agentHostCheckHook (ascii "127..4") = false := by decide +kernel

end PgConsul.Extension
