import SqlBuilder.Number.Binary
import SqlBuilder.SortedMap

/-!
# JSON documents

Objects list their members in key order, each key once; `Json.ofMembers` brings any list of members
into that form.  Integers that fit in 64 bits, signed or unsigned, are kept exactly, every other
number as a 64-bit floating point number.
-/

namespace SqlBuilder

open Number (Binary64)

/-- An integer in the range of the signed or of the unsigned 64-bit integers. -/
structure JsonInteger where
  value : Int
  lower : -(Nat.pow 2 63 : Int) ≤ value
  upper : value < Nat.pow 2 64
  deriving DecidableEq

/-- A JSON document. -/
inductive Json where
  | null
  | bool (b : Bool)
  | integer (n : JsonInteger)
  | float (x : Binary64)
  | string (s : String)
  | array (items : List Json)
  /-- The members by ascending key. -/
  | object (members : List (String × Json))

namespace JsonInteger

/-- The integer `n`, if it is in range. -/
def ofInt? (n : Int) : Option JsonInteger :=
  if h : -(Nat.pow 2 63 : Int) ≤ n ∧ n < Nat.pow 2 64 then some ⟨n, h.1, h.2⟩ else none

end JsonInteger

namespace Json

instance : Inhabited Json := ⟨.null⟩

/-- An object with the given members; of members with one key the last counts. -/
def ofMembers (members : List (String × Json)) : Json :=
  .object (SortedList.insertAll [] members)

/-- How deep arrays and objects may be nested in a text. -/
def maxDepth : Nat := 127

mutual

/-- Equality of documents, in which the two floating point zeros are equal. -/
def equals : Json → Json → Bool
  | .null, .null => true
  | .bool a, .bool b => a = b
  | .integer m, .integer n => m = n
  | .float x, .float y => x.equals y
  | .string s, .string t => s = t
  | .array xs, .array ys => equalItems xs ys
  | .object xs, .object ys => equalMembers xs ys
  | _, _ => false

/-- Equality item by item. -/
def equalItems : List Json → List Json → Bool
  | [], [] => true
  | x :: xs, y :: ys => equals x y && equalItems xs ys
  | _, _ => false

/-- Equality member by member. -/
def equalMembers : List (String × Json) → List (String × Json) → Bool
  | [], [] => true
  | (k, x) :: xs, (l, y) :: ys => k = l && equals x y && equalMembers xs ys
  | _, _ => false

end

end Json

end SqlBuilder
