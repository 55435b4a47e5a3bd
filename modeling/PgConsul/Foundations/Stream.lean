import PgConsul.Foundations.Bytes

/-! # Reading a stream in blocks

`streamReads n s` are the blocks a loop gets that calls `istream::read` with a buffer of `n` bytes
until a read comes back short: a full block leaves the stream good and the loop reads on, so an
input whose length is a multiple of `n` ends with an empty block.
-/
namespace Foundations
set_option autoImplicit false

/-- `fuel` bounds the reads; a read takes at least one byte, so the input's length is enough. -/
def streamReadsFrom (n : ℕ) : ℕ → Bytes → List Bytes
  | 0, s => [s]
  | fuel + 1, s => if s.length < n then [s] else s.take n :: streamReadsFrom n fuel (s.drop n)

def streamReads (n : ℕ) (s : Bytes) : List Bytes := streamReadsFrom n s.length s

theorem streamReadsFrom_flatten (n fuel : ℕ) (s : Bytes) :
    (streamReadsFrom n fuel s).flatten = s := by
  induction fuel generalizing s with
  | zero => simp [streamReadsFrom]
  | succ fuel ih =>
    rw [streamReadsFrom]
    split
    · simp
    · rw [List.flatten_cons, ih, List.take_append_drop]

theorem streamReads_flatten (n : ℕ) (s : Bytes) : (streamReads n s).flatten = s :=
  streamReadsFrom_flatten n s.length s

end Foundations
