import SqlBuilder.Json.Basic
import SqlBuilder.Bytes
import SqlBuilder.Number.Shortest

/-!
# Writing JSON

Compact text: no blanks, members in key order, characters outside ASCII as they are.
-/

namespace SqlBuilder.Json

open Number

/-! ## Strings -/

/-- What stands for `c` inside a string: short escapes where JSON has one, `\u` with four digits for
the other control characters, and `c` itself otherwise. -/
def escapeChar (c : Char) : List Char :=
  if c = '"' then ['\\', '"']
  else if c = '\\' then ['\\', '\\']
  else if c = '\x08' then ['\\', 'b']
  else if c = '\x0c' then ['\\', 'f']
  else if c = '\n' then ['\\', 'n']
  else if c = '\r' then ['\\', 'r']
  else if c = '\t' then ['\\', 't']
  else if c.toNat < 0x20 then
    ['\\', 'u', '0', '0', Bytes.hexDigit (c.toNat / 16), Bytes.hexDigit (c.toNat % 16)]
  else [c]

/-- A string in quotes. -/
def quoteText (s : String) : String :=
  .ofList ('"' :: s.toList.flatMap escapeChar ++ ['"'])

/-! ## Floating point numbers -/

/-- Where a decimal is written without a power of ten: the first digit stands for at least
`10 ^ leastPlain` and at most `10 ^ greatestPlain`. -/
structure FloatLayout where
  leastPlain : Int
  greatestPlain : Int

/-- Numbers from 0.00001 to below 10000000000000000 are written in full. -/
def floatLayout : FloatLayout := ⟨-5, 15⟩

/-- A positive decimal as a JSON number that shows it is no integer: by a point, or by a power of
ten with its sign. -/
def decimalText (layout : FloatLayout) (d : DecimalDigits) : List Char :=
  let ds := d.digits
  let leading : Int := d.exponent + ds.length - 1
  if layout.leastPlain ≤ leading ∧ leading ≤ layout.greatestPlain then
    if 0 ≤ d.exponent then d.positional ++ ['.', '0'] else d.positional
  else
    let mantissa :=
      match ds with
      | first :: second :: rest => first :: '.' :: second :: rest
      | ds => ds
    let sign := if leading < 0 then '-' else '+'
    mantissa ++ 'e' :: sign :: (toString leading.natAbs).toList

/-- A floating point number: the fewest digits that read back, or `null` where JSON has no
number. -/
def floatText (x : Binary64) : String :=
  match x.value with
  | .finite negative mantissa exponent =>
    signText negative
      ++ .ofList (decimalText floatLayout (shortestDigits .toEven mantissa exponent))
  | _ => "null"

/-! ## Documents -/

mutual

/-- The compact text of a document. -/
def toText : Json → String
  | .null => "null"
  | .bool b => if b then "true" else "false"
  | .integer n => toString n.value
  | .float x => floatText x
  | .string s => quoteText s
  | .array items => "[" ++ itemsText items ++ "]"
  | .object members => "\x7b" ++ membersText members ++ "\x7d"

/-- The items of an array with commas between them. -/
def itemsText : List Json → String
  | [] => ""
  | [x] => toText x
  | x :: y :: rest => toText x ++ "," ++ itemsText (y :: rest)

/-- The members of an object with commas between them. -/
def membersText : List (String × Json) → String
  | [] => ""
  | [(k, x)] => quoteText k ++ ":" ++ toText x
  | (k, x) :: y :: rest => quoteText k ++ ":" ++ toText x ++ "," ++ membersText (y :: rest)

end

end SqlBuilder.Json
