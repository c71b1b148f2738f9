import SqlBuilder.Connection.Target
import SqlBuilder.Text

/-!
# Connection strings as parameter lists

Words `key = value` between blanks.  A value may stand in single quotes, and a backslash takes the
next character as it is.  A word without a key ends the list.
-/

namespace SqlBuilder.Connection.ParameterList

/-- Takes the characters of a quoted value and the closing quote. -/
def quotedValue? : List Char → Parsed (List Char × List Char)
  | [] => none
  | '\'' :: rest => some ([], rest)
  | ['\\'] => none
  | '\\' :: c :: rest => (quotedValue? rest).map fun (v, rest) => (c :: v, rest)
  | c :: rest => (quotedValue? rest).map fun (v, rest) => (c :: v, rest)

/-- Takes the characters of a value up to a blank. -/
def bareValue : List Char → List Char × List Char
  | [] => ([], [])
  | ['\\'] => ([], [])
  | '\\' :: c :: rest =>
    let (v, rest) := bareValue rest
    (c :: v, rest)
  | c :: rest =>
    if Text.isBlank c then ([], c :: rest)
    else
      let (v, rest) := bareValue rest
      (c :: v, rest)

/-- Takes a value of either kind; a bare one holds at least one character. -/
def value? : List Char → Parsed (List Char × List Char)
  | '\'' :: rest => quotedValue? rest
  | cs =>
    let (v, rest) := bareValue cs
    if v.isEmpty then none else some (v, rest)

/-- Reads parameters until the text, or `fuel`, is used up. -/
def readAll? (fuel : Nat) (t : Target) (cs : List Char) : Parsed Target :=
  match fuel with
  | 0 => none
  | fuel + 1 =>
    let isKey (c : Char) : Bool := !Text.isBlank c && c != '='
    let cs := cs.dropWhile Text.isBlank
    let key := cs.takeWhile isKey
    if key.isEmpty then some t
    else
      match (cs.dropWhile isKey).dropWhile Text.isBlank with
      | '=' :: rest => do
        let (v, rest) ← value? (rest.dropWhile Text.isBlank)
        let t ← t.set? (.ofList key) (.ofList v)
        readAll? fuel t rest
      | _ => none

/-- The target that a parameter list describes. -/
def parse? (cs : List Char) : Parsed Target :=
  readAll? (cs.length + 1) {} cs

end SqlBuilder.Connection.ParameterList
