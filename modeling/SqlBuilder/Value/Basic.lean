import SqlBuilder.Json.Printer
import SqlBuilder.Number.FloatText
import SqlBuilder.Text

/-!
# Values

What is bound to a placeholder and what a row holds: nothing, a boolean, an integer of 64 bits, a
floating point number, a text or a JSON document.  Numbers may be read off a text as well, so that a
caller who holds `"5"` can use it as one who holds `5`.
-/

namespace SqlBuilder

open Number

/-- A single SQL value. -/
inductive Value where
  | null
  | bool (b : Bool)
  | int (n : Int64)
  | float (x : Binary64)
  | text (s : String)
  | json (j : Json)

namespace Value

instance : Inhabited Value := ⟨.null⟩

def isNull : Value → Bool
  | .null => true
  | _ => false

/-- The integer: of an integer itself, or of a text that spells one between blanks. -/
def asInt? : Value → Option Int64
  | .int n => some n
  | .text s => int64OfText? (Text.trim s)
  | _ => none

/-- The number: of a number, or of a text that spells one between blanks. -/
def asFloat? : Value → Option Binary64
  | .int n => some (.ofInt n.toInt)
  | .float x => some x
  | .text s => Binary64.ofText? (Text.trim s)
  | _ => none

def asBool? : Value → Option Bool
  | .bool b => some b
  | _ => none

def asText? : Value → Option String
  | .text s => some s
  | _ => none

/-- Equality of values of one kind; numbers compare as numbers, so what is no number differs even
from itself, and an integer differs from every floating point number. -/
def equals : Value → Value → Bool
  | .null, .null => true
  | .bool a, .bool b => a = b
  | .int m, .int n => m = n
  | .float x, .float y => x.equals y
  | .text s, .text t => s = t
  | .json i, .json j => i.equals j
  | _, _ => false

/-- The value as plain text, without quotes. -/
def display : Value → String
  | .null => "NULL"
  | .bool b => if b then "true" else "false"
  | .int n => toString n.toInt
  | .float x => x.toText
  | .text s => s
  | .json j => j.toText

/-! ## SQL literals -/

/-- Writes every single quote twice. -/
def doubleQuotes (cs : List Char) : List Char :=
  cs.flatMap fun c => if c = '\'' then ['\'', '\''] else [c]

/-- A string literal: the text between single quotes, with the quotes inside doubled. -/
def quoted (s : String) : String :=
  .ofList ('\'' :: doubleQuotes s.toList ++ ['\''])

/-- The value as a SQL literal.  Numbers stand bare; text, documents and what is no finite number
are string literals. -/
def literal : Value → String
  | .null => "NULL"
  | .bool b => if b then "TRUE" else "FALSE"
  | .int n => toString n.toInt
  | .float x => if x.isFinite then x.toText else quoted x.toText
  | .text s => quoted s
  | .json j => quoted j.toText

end Value

end SqlBuilder
