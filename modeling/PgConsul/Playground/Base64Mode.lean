import PgConsul.B64.Meaning

/-! # The base64 modes of consul-kv

`-E` prints a string between two marker lines, broken into lines of 72 characters, and `-D` prints
what a base64 text decodes to. What one prints between its markers the other reads back, however the
lines are put together again.
-/
namespace PgConsul.Playground
set_option autoImplicit false
open Foundations B64

end PgConsul.Playground
