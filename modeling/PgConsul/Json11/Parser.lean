import PgConsul.Json11.Value

/-! # Parsing JSON

`JsonParser` walks the text by an index that only its own functions move; here each of them takes
what is left of the text and returns what it leaves. `fail` keeps the first message and every
caller returns after it, so a failure is an exception. `i--` is putting the character back.
-/
namespace PgConsul.Json11
set_option autoImplicit false
open Foundations

def maxDepth : ℕ := 200

/-- `(int)c` of a `char`. -/
def charInt (c : UInt8) : ℤ := if c < 0x80 then c.toNat else (c.toNat : ℤ) - 256

/-- `esc(c)`: a character in an error message. -/
def esc (c : UInt8) : Bytes :=
  if 0x20 ≤ c ∧ c ≤ 0x7f then ascii "'" ++ [c] ++ ascii "' (" ++ decimalInt (charInt c) ++ ascii ")"
  else ascii "(" ++ decimalInt (charInt c) ++ ascii ")"

def isSpace (c : UInt8) : Bool := c = chr ' ' || c = chr '\r' || c = chr '\n' || c = chr '\t'

def consumeWhitespace (s : Bytes) : Bytes := s.dropWhile isSpace

def getNextToken (s : Bytes) : Except Bytes (UInt8 × Bytes) :=
  match consumeWhitespace s with
  | [] => .error (ascii "unexpected end of input")
  | c :: rest => .ok (c, rest)

/-! ## Strings -/

/-- `encode_utf8(pt, out)`: what it appends. -/
def encodeUtf8 (pt : ℤ) : Bytes :=
  if pt < 0 then []
  else
    let n := pt.toNat
    if n < 0x80 then [UInt8.ofNat n]
    else if n < 0x800 then [UInt8.ofNat (n >>> 6 ||| 0xC0), UInt8.ofNat (n &&& 0x3F ||| 0x80)]
    else if n < 0x10000 then
      [UInt8.ofNat (n >>> 12 ||| 0xE0), UInt8.ofNat (n >>> 6 &&& 0x3F ||| 0x80),
        UInt8.ofNat (n &&& 0x3F ||| 0x80)]
    else
      [UInt8.ofNat (n >>> 18 ||| 0xF0), UInt8.ofNat (n >>> 12 &&& 0x3F ||| 0x80),
        UInt8.ofNat (n >>> 6 &&& 0x3F ||| 0x80), UInt8.ofNat (n &&& 0x3F ||| 0x80)]

def hexDigitValue (c : UInt8) : Option ℕ :=
  if chr 'a' ≤ c ∧ c ≤ chr 'f' then some (c.toNat - 87)
  else if chr 'A' ≤ c ∧ c ≤ chr 'F' then some (c.toNat - 55)
  else if isDigit c then some (c.toNat - 48)
  else none

/-- The codepoint of a `\u` escape, `none` when one of the four characters is no digit. -/
def escapedCodepoint (a b c d : UInt8) : Option ℤ :=
  match hexDigitValue a, hexDigitValue b, hexDigitValue c, hexDigitValue d with
  | some a, some b, some c, some d => some (((a * 16 + b) * 16 + c) * 16 + d : ℕ)
  | _, _, _, _ => none

def simpleEscape (c : UInt8) : Option UInt8 :=
  if c = chr 'b' then some 0x08
  else if c = chr 'f' then some 0x0c
  else if c = chr 'n' then some (chr '\n')
  else if c = chr 'r' then some (chr '\r')
  else if c = chr 't' then some (chr '\t')
  else if c = chr '"' ∨ c = chr '\\' ∨ c = chr '/' then some c
  else none

/-- `parse_string`; `last` is `last_escaped_codepoint`, a code point not written yet because the
next escape may complete its surrogate pair. -/
def parseString : Bytes → ℤ → Bytes → Except Bytes (Bytes × Bytes)
  | [], _, _ => .error (ascii "unexpected end of input in string")
  | ch :: s, last, out =>
    if ch = chr '"' then .ok (out ++ encodeUtf8 last, s)
    else if ch ≤ 0x1f then .error (ascii "unescaped " ++ esc ch ++ ascii " in string")
    else if ch ≠ chr '\\' then parseString s (-1) (out ++ encodeUtf8 last ++ [ch])
    else
      match s with
      | [] => .error (ascii "unexpected end of input in string")
      | e :: s =>
        if e = chr 'u' then
          match s with
          | a :: b :: c :: d :: s =>
            match escapedCodepoint a b c d with
            | none => .error (ascii "bad \\u escape: " ++ [a, b, c, d])
            | some codepoint =>
              if (0xD800 ≤ last ∧ last ≤ 0xDBFF) ∧ 0xDC00 ≤ codepoint ∧ codepoint ≤ 0xDFFF then
                parseString s (-1)
                  (out ++ encodeUtf8 ((last - 0xD800) * 1024 + (codepoint - 0xDC00) + 0x10000))
              else parseString s codepoint (out ++ encodeUtf8 last)
          | short => .error (ascii "bad \\u escape: " ++ short)
        else
          match simpleEscape e with
          | some c => parseString s (-1) (out ++ encodeUtf8 last ++ [c])
          | none => .error (ascii "invalid escape character " ++ esc e)

/-! ## Numbers -/

def peek (s : Bytes) : UInt8 := s.headD 0

def digitsValue (digits : Bytes) : ℕ := digits.foldl (fun n c => n * 10 + (c.toNat - 48)) 0

/-- `std::atoi` on an optional minus and digits. -/
def atoi (text : Bytes) : Int32 :=
  match text with
  | [] => 0
  | c :: digits =>
    if c = chr '-' then Int32.ofInt (-(digitsValue digits : ℤ))
    else Int32.ofInt (digitsValue text)

/-- `std::strtod` on the text of a JSON number, correctly rounded. -/
def strtod (text : Bytes) : Double :=
  let negative := peek text = chr '-'
  let text := if negative then text.drop 1 else text
  let whole := text.takeWhile isDigit
  let text := text.dropWhile isDigit
  let fraction := if peek text = chr '.' then (text.drop 1).takeWhile isDigit else []
  let text := if peek text = chr '.' then (text.drop 1).dropWhile isDigit else text
  let exponent : ℤ :=
    if peek text = chr 'e' ∨ peek text = chr 'E' then
      let text := text.drop 1
      if peek text = chr '-' then -(digitsValue (text.drop 1) : ℤ)
      else if peek text = chr '+' then digitsValue (text.drop 1)
      else digitsValue text
    else 0
  Double.ofRat negative
    ((digitsValue (whole ++ fraction) : ℚ) * 10 ^ (exponent - (fraction.length : ℤ)))

def parseInteger (s : Bytes) : Except Bytes Bytes :=
  if peek s = chr '0' then
    if isDigit (peek (s.drop 1)) then .error (ascii "leading 0s not permitted in numbers")
    else .ok (s.drop 1)
  else if chr '1' ≤ peek s ∧ peek s ≤ chr '9' then .ok (s.dropWhile isDigit)
  else .error (ascii "invalid " ++ esc (peek s) ++ ascii " in number")

def parseFraction (s : Bytes) : Except Bytes Bytes :=
  if peek s = chr '.' then
    if isDigit (peek (s.drop 1)) then .ok ((s.drop 1).dropWhile isDigit)
    else .error (ascii "at least one digit required in fractional part")
  else .ok s

def parseExponent (s : Bytes) : Except Bytes Bytes :=
  if peek s = chr 'e' ∨ peek s = chr 'E' then
    let s := s.drop 1
    let s := if peek s = chr '+' ∨ peek s = chr '-' then s.drop 1 else s
    if isDigit (peek s) then .ok (s.dropWhile isDigit)
    else .error (ascii "at least one digit required in exponent")
  else .ok s

def intDigits10 : ℕ := 9

/-- A short number without fraction and exponent is an `int`, any other one a `double`. -/
def parseNumber (s : Bytes) : Except Bytes (Json × Bytes) := do
  let behind ← parseInteger (if peek s = chr '-' then s.drop 1 else s)
  if peek behind ≠ chr '.' ∧ peek behind ≠ chr 'e' ∧ peek behind ≠ chr 'E' ∧
      s.length - behind.length ≤ intDigits10 then
    return (.int (atoi (s.take (s.length - behind.length))), behind)
  let behind ← parseFraction behind
  let behind ← parseExponent behind
  return (.double (strtod (s.take (s.length - behind.length))), behind)

/-! ## Values -/

def expect (expected : Bytes) (res : Json) (s : Bytes) : Except Bytes (Json × Bytes) :=
  if expected.isPrefixOf s then .ok (res, s.drop expected.length)
  else .error (ascii "parse error: expected " ++ expected ++ ascii ", got " ++
    s.take expected.length)

/-- The members behind the brace, from the token `ch` on. Every round reads at least a quote, so
the length of the text bounds the rounds. -/
def parseObject (element : Bytes → Except Bytes (Json × Bytes)) :
    ℕ → UInt8 → Bytes → Object → Except Bytes (Json × Bytes)
  | 0, _, _, _ => .error (ascii "unexpected end of input")
  | fuel + 1, ch, s, data => do
    if ch ≠ chr '"' then throw (ascii "expected '\"' in object, got " ++ esc ch)
    let (key, s) ← parseString s (-1) []
    let (ch, s) ← getNextToken s
    if ch ≠ chr ':' then throw (ascii "expected ':' in object, got " ++ esc ch)
    let (value, s) ← element s
    let data := assign key value data
    let (ch, s) ← getNextToken s
    if ch = 0x7d then return (.object data, s)
    if ch ≠ chr ',' then throw (ascii "expected ',' in object, got " ++ esc ch)
    let (ch, s) ← getNextToken s
    parseObject element fuel ch s data

/-- The elements behind the bracket; `s` starts at the token already seen. -/
def parseArray (element : Bytes → Except Bytes (Json × Bytes)) :
    ℕ → Bytes → List Json → Except Bytes (Json × Bytes)
  | 0, _, _ => .error (ascii "unexpected end of input")
  | fuel + 1, s, data => do
    let (value, s) ← element s
    let data := data ++ [value]
    let (ch, s) ← getNextToken s
    if ch = chr ']' then return (.array data, s)
    if ch ≠ chr ',' then throw (ascii "expected ',' in list, got " ++ esc ch)
    let (ch, s) ← getNextToken s
    parseArray element fuel (ch :: s) data

/-- `parse_json`, with the number of levels it may still open. -/
def parseJson : ℕ → Bytes → Except Bytes (Json × Bytes)
  | 0, _ => .error (ascii "exceeded maximum nesting depth")
  | levels + 1, s => do
    let (ch, s) ← getNextToken s
    if ch = chr '-' ∨ isDigit ch then parseNumber (ch :: s)
    else if ch = chr 't' then expect (ascii "true") (.bool true) (ch :: s)
    else if ch = chr 'f' then expect (ascii "false") (.bool false) (ch :: s)
    else if ch = chr 'n' then expect (ascii "null") .null (ch :: s)
    else if ch = chr '"' then
      let (value, s) ← parseString s (-1) []
      return (.string value, s)
    else if ch = 0x7b then
      let (ch, s) ← getNextToken s
      if ch = 0x7d then return (.object [], s)
      parseObject (parseJson levels) (s.length + 1) ch s []
    else if ch = chr '[' then
      let (ch, s) ← getNextToken s
      if ch = chr ']' then return (.array [], s)
      parseArray (parseJson levels) (s.length + 1) (ch :: s) []
    else throw (ascii "expected value, got " ++ esc ch)

/-- The whole text: one value and nothing but whitespace behind it. -/
def parseText (text : Bytes) : Except Bytes Json := do
  let (result, rest) ← parseJson (maxDepth + 1) text
  match consumeWhitespace rest with
  | [] => return result
  | c :: _ => throw (ascii "unexpected trailing " ++ esc c)

/-- `Json::parse(in, err)`: `err` is written on failure only. -/
def parse (text err : Bytes) : Json × Bytes :=
  match parseText text with
  | .ok result => (result, err)
  | .error message => (.null, message)

example : parseText (ascii " [\x7b\"a\": -12\x7d, \"\\ud83d\\ude00\\n\", true]") =
    .ok (.array [.object [(ascii "a", .int (-12))],
      .string [0xf0, 0x9f, 0x98, 0x80, 0x0a], .bool true]) := by decide +kernel

end PgConsul.Json11
