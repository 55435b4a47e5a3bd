import PgConsul.Foundations.CString

/-! # Text arguments

A `text` value is a header word, the bytes it counts and whatever memory lies behind them; nothing
terminates the bytes. The program reads such a value by its length in one place and as a C string in
another.
-/
namespace PgConsul.Extension
set_option autoImplicit false
open Foundations

def VARHDRSZ : ℕ := 4

def varsize (header : UInt32) : ℕ := (header >>> 2 &&& 0x3FFFFFFF).toNat

/-- A value as `PG_GETARG_TEXT_P` returns it; the header counts itself and the payload. -/
structure TextDatum where
  header : UInt32
  payload : Bytes
  behind : Memory
  size : varsize header = payload.length + VARHDRSZ

namespace TextDatum

def vardata (d : TextDatum) : Memory := place d.payload d.behind

/-- `s.assign(VARDATA(d), VARSIZE(d) - VARHDRSZ)`. -/
def assigned (d : TextDatum) : Bytes := (List.range (varsize d.header - VARHDRSZ)).map d.vardata

/-- `std::string{VARDATA(d)}`; `none` when the scan never finds a NUL. -/
def constructed (d : TextDatum) : Option Bytes := readCString d.vardata

theorem assigned_eq (d : TextDatum) : d.assigned = d.payload := by
  rw [assigned, d.size, Nat.add_sub_cancel]
  exact map_range_place d.payload d.behind

theorem length_lt (d : TextDatum) : d.payload.length < addressSpace := by
  have hsize := d.size
  have hlt := (d.header >>> 2 &&& 0x3FFFFFFF).toNat_lt
  rw [varsize] at hsize
  unfold addressSpace
  omega

/-- **Reading as a C string gives the payload exactly when the byte behind it is NUL.** -/
theorem constructed_eq_iff (d : TextDatum) (h : 0 ∉ d.payload) :
    d.constructed = some d.payload ↔ d.behind 0 = 0 :=
  readCString_place_iff d.behind h d.length_lt

theorem zero_not_mem_constructed {d : TextDatum} {s : Bytes} (h : d.constructed = some s) :
    0 ∉ s := zero_not_mem_readFrom h

end TextDatum

def textA : TextDatum := ⟨20, ascii "a", fun _ => 0, by decide⟩

def localhost (behind : Memory) : TextDatum := ⟨52, ascii "127.0.0.1", behind, by decide⟩

end PgConsul.Extension
