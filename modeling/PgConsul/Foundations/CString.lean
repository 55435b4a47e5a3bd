import Mathlib.Data.List.TakeWhile
import PgConsul.Foundations.Bytes

/-! # NUL-terminated strings

`cStr` is what a C string reader keeps of a buffer. `readCString` reads a C string out of a memory
that need not hold a terminator: it scans at most the whole address space and fails when no NUL
comes. A `CharPtr` may outlive its string, and then its reader gets what the memory holds.
-/
namespace Foundations
set_option autoImplicit false

/-- The bytes of `buffer` before its first NUL. -/
def cStr (buffer : Bytes) : Bytes := buffer.takeWhile (· ≠ 0)

theorem cStr_eq_self {s : Bytes} (h : 0 ∉ s) : cStr s = s := by
  rw [cStr, List.takeWhile_eq_self_iff]
  exact forall_ne_of_not_mem h

theorem not_mem_cStr (s : Bytes) : 0 ∉ cStr s := by
  intro h
  simpa using List.mem_takeWhile_imp h

theorem cStr_append {s : Bytes} (h : 0 ∉ s) (t : Bytes) : cStr (s ++ t) = s ++ cStr t :=
  List.takeWhile_append_of_pos (forall_ne_of_not_mem h)

/-- A terminated buffer reads back its content exactly when the content has no NUL. -/
theorem cStr_terminated_iff (s : Bytes) : cStr (s ++ [0]) = s ↔ 0 ∉ s := by
  constructor
  · intro h
    rw [← h]
    exact not_mem_cStr _
  · intro h
    rw [cStr_append h]
    simp [cStr]

/-! ## Reading from memory -/

abbrev Memory := ℕ → UInt8

/-- Scan at most `room` bytes from address `i`. -/
def readFrom (mem : Memory) : ℕ → ℕ → Option Bytes
  | 0, _ => none
  | room + 1, i => if mem i = 0 then some [] else (readFrom mem room (i + 1)).map (mem i :: ·)

def addressSpace : ℕ := 2 ^ 64

/-- The C string at address 0, if a NUL comes at all. -/
def readCString (mem : Memory) : Option Bytes := readFrom mem addressSpace 0

def place (s : Bytes) (rest : Memory) : Memory :=
  fun i => if h : i < s.length then s[i] else rest (i - s.length)

theorem map_range_place (s : Bytes) (rest : Memory) :
    (List.range s.length).map (place s rest) = s := by
  apply List.ext_getElem
  · simp
  · intro i h1 h2
    simp [place, h2]

theorem readFrom_place (s : Bytes) (rest : Memory) (hs : 0 ∉ s) (room k : ℕ) (hk : k ≤ s.length) :
    readFrom (place s rest) (k + room) (s.length - k) =
      (readFrom (place s rest) room s.length).map (s.drop (s.length - k) ++ ·) := by
  induction k with
  | zero => simp
  | succ k ih =>
    have hi : s.length - (k + 1) < s.length := by omega
    have hget : place s rest (s.length - (k + 1)) = s[s.length - (k + 1)] := by simp [place, hi]
    have hne : s[s.length - (k + 1)] ≠ 0 := fun h0 => hs (h0 ▸ List.getElem_mem hi)
    have hnext : s.length - (k + 1) + 1 = s.length - k := by omega
    have hroom : k + 1 + room = (k + room) + 1 := by omega
    have hdrop : s.drop (s.length - (k + 1)) = s[s.length - (k + 1)] :: s.drop (s.length - k) := by
      rw [List.drop_eq_getElem_cons hi, hnext]
    rw [hroom, readFrom, hget, if_neg hne, hnext, ih (by omega), hdrop, Option.map_map]
    rfl

theorem readFrom_at_nul (mem : Memory) (room i : ℕ) (h : mem i = 0) :
    readFrom mem (room + 1) i = some [] := by
  rw [readFrom, if_pos h]

theorem readFrom_ne_nil (mem : Memory) (room i : ℕ) (h : mem i ≠ 0) :
    readFrom mem room i ≠ some [] := by
  cases room with
  | zero => simp [readFrom]
  | succ room => simp [readFrom, h]

theorem zero_not_mem_readFrom {mem : Memory} {room i : ℕ} {s : Bytes}
    (h : readFrom mem room i = some s) : 0 ∉ s := by
  induction room generalizing i s with
  | zero => simp [readFrom] at h
  | succ room ih =>
    rw [readFrom] at h
    split at h
    · cases h
      simp
    · next hne =>
      obtain ⟨t, ht, rfl⟩ := Option.map_eq_some_iff.mp h
      simp only [List.mem_cons, not_or]
      exact ⟨Ne.symm hne, ih ht⟩

/-- Reading `s` back as a C string succeeds exactly when the byte behind it is NUL. -/
theorem readCString_place_iff {s : Bytes} (rest : Memory) (hs : 0 ∉ s)
    (hlen : s.length < addressSpace) : readCString (place s rest) = some s ↔ rest 0 = 0 := by
  obtain ⟨room, hroom⟩ : ∃ room, addressSpace = s.length + (room + 1) :=
    ⟨addressSpace - s.length - 1, by omega⟩
  have hread : readCString (place s rest) =
      (readFrom (place s rest) (room + 1) s.length).map (s ++ ·) := by
    have h := readFrom_place s rest hs (room + 1) s.length le_rfl
    rw [Nat.sub_self, List.drop_zero] at h
    rw [readCString, hroom, h]
  have hbehind : place s rest s.length = rest 0 := by simp [place]
  rw [hread]
  constructor
  · intro h
    by_contra hne
    obtain ⟨t, ht, hst⟩ := Option.map_eq_some_iff.mp h
    have htnil : t = [] := by simpa using hst
    subst htnil
    exact readFrom_ne_nil _ _ _ (hbehind ▸ hne) ht
  · intro h
    rw [readFrom_at_nul _ _ _ (hbehind.trans h)]
    simp

/-! ## Pointers -/

/-- A `const char *`: into a string that is still there, or into one that is destroyed. -/
inductive CharPtr where
  | live (s : Bytes)
  | dangling (s : Bytes)

namespace CharPtr

/-- The string the pointer was taken of. -/
def pointee : CharPtr → Bytes
  | live s | dangling s => s

/-- What a reader finds. The language says nothing about the storage of a destroyed string: `memory`
is what it holds then. -/
def read (memory : Memory) : CharPtr → Option Bytes
  | live s => some (cStr s)
  | dangling _ => readCString memory

/-- The reader finds the string. -/
def Intact (memory : Memory) (p : CharPtr) : Prop := p.read memory = some p.pointee

end CharPtr

end Foundations
