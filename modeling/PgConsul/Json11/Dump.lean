import PgConsul.Json11.Value

/-! # Writing JSON -/
namespace PgConsul.Json11
set_option autoImplicit false
open Foundations

/-! ## Numbers -/

def hexDigit (n : ℕ) : UInt8 := if n < 10 then digitByte n else UInt8.ofNat (87 + n)

def stripZeros (digits : Bytes) : Bytes := (digits.reverse.dropWhile (· = chr '0')).reverse

def fraction (digits : Bytes) : Bytes :=
  let digits := stripZeros digits
  if digits = [] then [] else chr '.' :: digits

/-- `%.17g` of the positive number with the 17 digits `digits` and the decimal exponent `x`. -/
def general (digits : Bytes) (x : ℤ) : Bytes :=
  if 0 ≤ x ∧ x < 17 then
    digits.take (x.toNat + 1) ++ fraction (digits.drop (x.toNat + 1))
  else if -4 ≤ x ∧ x < 0 then
    chr '0' :: fraction (List.replicate ((-x).toNat - 1) (chr '0') ++ digits)
  else
    digits.take 1 ++ fraction (digits.drop 1) ++ [chr 'e', if x < 0 then chr '-' else chr '+'] ++
      (if x.natAbs < 10 then chr '0' :: decimal x.natAbs else decimal x.natAbs)

/-- `snprintf("%.17g")`: 17 significant digits, rounded from the exact value. -/
def formatG17 (negative : Bool) (q : ℚ) : Bytes :=
  let sign := if negative then [chr '-'] else []
  if q ≤ 0 then sign ++ [chr '0']
  else
    let x := Int.log 10 q
    let n := Double.roundHalfEven (q / 10 ^ (x - 16))
    if n = 10 ^ 17 then sign ++ general (decimal (10 ^ 16)) (x + 1)
    else sign ++ general (decimal n) x

def dumpDouble : Double → Bytes
  | .finite negative a => formatG17 negative a.value
  | .infinite _ => ascii "null"
  | .nan => ascii "null"

/-! ## Strings -/

/-- The loop over the characters; `skip` of them are already written (`i += 2`). -/
def dumpChars : ℕ → Bytes → Bytes
  | _, [] => []
  | skip + 1, _ :: rest => dumpChars skip rest
  | 0, ch :: rest =>
    if ch = chr '\\' then ascii "\\\\" ++ dumpChars 0 rest
    else if ch = chr '"' then ascii "\\\"" ++ dumpChars 0 rest
    else if ch = 0x08 then ascii "\\b" ++ dumpChars 0 rest
    else if ch = 0x0c then ascii "\\f" ++ dumpChars 0 rest
    else if ch = chr '\n' then ascii "\\n" ++ dumpChars 0 rest
    else if ch = chr '\r' then ascii "\\r" ++ dumpChars 0 rest
    else if ch = chr '\t' then ascii "\\t" ++ dumpChars 0 rest
    else if ch ≤ 0x1f then
      ascii "\\u00" ++ [hexDigit (ch.toNat / 16), hexDigit (ch.toNat % 16)] ++ dumpChars 0 rest
    else if ch = 0xe2 ∧ rest.take 2 = [0x80, 0xa8] then ascii "\\u2028" ++ dumpChars 2 rest
    else if ch = 0xe2 ∧ rest.take 2 = [0x80, 0xa9] then ascii "\\u2029" ++ dumpChars 2 rest
    else ch :: dumpChars 0 rest

def dumpString (value : Bytes) : Bytes := [chr '"'] ++ dumpChars 0 value ++ [chr '"']

/-! ## Values -/

mutual

def dump : Json → Bytes
  | .null => ascii "null"
  | .double d => dumpDouble d
  | .int i => decimalInt i.toInt
  | .bool b => if b then ascii "true" else ascii "false"
  | .string s => dumpString s
  | .array values => [chr '['] ++ dumpArray true values ++ [chr ']']
  | .object values => [chr '{'] ++ dumpObject true values ++ [chr '}']

def dumpArray (first : Bool) : List Json → Bytes
  | [] => []
  | value :: values => (if first then [] else ascii ", ") ++ dump value ++ dumpArray false values

def dumpObject (first : Bool) : List (Bytes × Json) → Bytes
  | [] => []
  | kv :: values =>
    (if first then [] else ascii ", ") ++ dumpMember kv ++ dumpObject false values

def dumpMember : Bytes × Json → Bytes
  | (key, value) => dumpString key ++ ascii ": " ++ dump value

end

example : dump (.array [.int 1, .object [(ascii "k", .string (ascii "\n"))]]) =
    ascii "[1, \x7b\"k\": \"\\n\"\x7d]" := by decide

end PgConsul.Json11
