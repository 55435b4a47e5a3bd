import PgConsul.Foundations.Binary64
import PgConsul.Foundations.Bytes

/-! # What the language leaves open

Two calls of the program have no meaning fixed by the C++ standard for every argument. The model
takes the answer there from a `Platform`, and every result holds for all of them.
-/
namespace PgConsul
set_option autoImplicit false
open Foundations

structure Platform where
  /-- `static_cast<int>` of a double whose integer part an `int` does not hold. -/
  castOverflow : Double → Int32
  /-- `std::isalnum` of a negative `char`, which also depends on the locale. -/
  alnumHigh : UInt8 → Bool

/-- The 64-bit Intel target in the C locale: the cast gives `INT_MIN`, no high byte is a letter. -/
def Platform.amd64 : Platform where
  castOverflow _ := -2147483648
  alnumHigh _ := false

end PgConsul
