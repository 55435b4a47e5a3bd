import PgConsul.Platform

/-! # JSON values

`json11::Json` with its accessors, each of which answers a default for a value of another type. A
number is an `int` or a `double`, and an object is a `std::map`: its members are kept in the order
of their keys.
-/
namespace PgConsul.Json11
set_option autoImplicit false
open Foundations

inductive Json where
  | null
  | double (value : Double)
  | int (value : Int32)
  | bool (value : Bool)
  | string (value : Bytes)
  | array (values : List Json)
  | object (values : List (Bytes × Json))

abbrev Object := List (Bytes × Json)

inductive JsonType where
  | NUL | NUMBER | BOOL | STRING | ARRAY | OBJECT
deriving DecidableEq

namespace Json

def type : Json → JsonType
  | null => .NUL
  | double _ => .NUMBER
  | int _ => .NUMBER
  | bool _ => .BOOL
  | string _ => .STRING
  | array _ => .ARRAY
  | object _ => .OBJECT

def isNull (j : Json) : Bool := j.type = .NUL
def isNumber (j : Json) : Bool := j.type = .NUMBER
def isBool (j : Json) : Bool := j.type = .BOOL
def isString (j : Json) : Bool := j.type = .STRING
def isArray (j : Json) : Bool := j.type = .ARRAY
def isObject (j : Json) : Bool := j.type = .OBJECT

/-- `static_cast<int>(m_value)`. -/
def doubleToInt (platform : Platform) (d : Double) : Int32 :=
  match d.trunc with
  | some i => if -2 ^ 31 ≤ i ∧ i < 2 ^ 31 then Int32.ofInt i else platform.castOverflow d
  | none => platform.castOverflow d

def intValue (platform : Platform) : Json → Int32
  | double d => doubleToInt platform d
  | int i => i
  | _ => 0

def stringValue : Json → Bytes
  | string s => s
  | _ => []

def arrayItems : Json → List Json
  | array values => values
  | _ => []

def objectItems : Json → Object
  | object values => values
  | _ => []

def typeStr (j : Json) : Bytes :=
  match j.type with
  | .NUL => ascii "null"
  | .NUMBER => ascii "number"
  | .BOOL => ascii "bool"
  | .STRING => ascii "string"
  | .OBJECT => ascii "object"
  | .ARRAY => ascii "array"

/-- The exact number a NUMBER stands for. -/
def numberValue : Json → Option ℚ
  | double d => d.value
  | int i => some (i.toInt : ℚ)
  | _ => none

end Json

/-! ## Deciding equality -/

mutual

def same : Json → Json → Bool
  | .null, .null => true
  | .double d, .double e => d = e
  | .int i, .int j => i = j
  | .bool b, .bool c => b = c
  | .string s, .string t => s = t
  | .array xs, .array ys => sameArray xs ys
  | .object xs, .object ys => sameObject xs ys
  | _, _ => false

def sameArray : List Json → List Json → Bool
  | [], [] => true
  | x :: xs, y :: ys => same x y && sameArray xs ys
  | _, _ => false

def sameObject : List (Bytes × Json) → List (Bytes × Json) → Bool
  | [], [] => true
  | x :: xs, y :: ys => sameMember x y && sameObject xs ys
  | _, _ => false

def sameMember : Bytes × Json → Bytes × Json → Bool
  | (k, v), (l, w) => k = l && same v w

end

mutual

theorem same_iff : ∀ a b : Json, same a b = true ↔ a = b
  | .null, b => by cases b <;> simp [same]
  | .double _, b => by cases b <;> simp [same]
  | .int _, b => by cases b <;> simp [same]
  | .bool _, b => by cases b <;> simp [same]
  | .string _, b => by cases b <;> simp [same]
  | .array xs, b => by cases b <;> simp [same, sameArray_iff xs]
  | .object xs, b => by cases b <;> simp [same, sameObject_iff xs]

theorem sameArray_iff : ∀ xs ys : List Json, sameArray xs ys = true ↔ xs = ys
  | [], ys => by cases ys <;> simp [sameArray]
  | x :: xs, ys => by cases ys <;> simp [sameArray, same_iff x, sameArray_iff xs]

theorem sameObject_iff : ∀ xs ys : List (Bytes × Json), sameObject xs ys = true ↔ xs = ys
  | [], ys => by cases ys <;> simp [sameObject]
  | x :: xs, ys => by cases ys <;> simp [sameObject, sameMember_iff x, sameObject_iff xs]

theorem sameMember_iff : ∀ x y : Bytes × Json, sameMember x y = true ↔ x = y
  | (k, v), (l, w) => by simp [sameMember, same_iff v]

end

instance : DecidableEq Json := fun a b => decidable_of_iff _ (same_iff a b)

/-! ## Maps -/

def find (name : Bytes) (o : Object) : Option Json := o.lookup name

/-- `data[key] = value` of a map ordered by its keys. -/
def assign (key : Bytes) (value : Json) : Object → Object
  | [] => [(key, value)]
  | (k, v) :: rest =>
    if key = k then (key, value) :: rest
    else if key < k then (key, value) :: (k, v) :: rest
    else (k, v) :: assign key value rest

end PgConsul.Json11
