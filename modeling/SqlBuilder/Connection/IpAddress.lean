import SqlBuilder.Bytes
import SqlBuilder.Number.Integer

/-!
# Numeric host addresses

Which texts spell an address of version 4 or 6.  Only the spelling matters: four decimal octets, or
eight groups of hexadecimal digits of which one run may be left out as `::` and the last two may be
written as four octets.
-/

namespace SqlBuilder.Connection.IpAddress

/-- Whether a text is a decimal number up to 255 without a leading zero. -/
def isOctet (cs : List Char) : Bool :=
  match Number.naturalOfDigits? cs with
  | some n => n ≤ 255 && cs.length ≤ 3 && (cs.head? != some '0' || cs.length = 1)
  | none => false

/-- Whether a text spells an address of version 4. -/
def isVersion4 (cs : List Char) : Bool :=
  let parts := cs.splitOn '.'
  parts.length = 4 && parts.all isOctet

/-- Whether a text is one to four hexadecimal digits. -/
def isGroup (cs : List Char) : Bool :=
  1 ≤ cs.length && cs.length ≤ 4 && cs.all fun c => (Bytes.hexValue? c).isSome

/-- How many groups the parts between colons make, if they are groups; the last may be four octets
where `mixed` allows it. -/
def groupCount? (mixed : Bool) : List (List Char) → Option Nat
  | [] => some 0
  | [last] =>
    if isGroup last then some 1
    else if mixed && isVersion4 last then some 2
    else none
  | part :: rest => if isGroup part then (groupCount? mixed rest).map (· + 1) else none

/-- The groups of a side of `::`, which may be empty. -/
def sideCount? (mixed : Bool) (cs : List Char) : Option Nat :=
  if cs.isEmpty then some 0 else groupCount? mixed (cs.splitOn ':')

/-- Splits at the first `::`. -/
def splitDouble : List Char → Option (List Char × List Char)
  | ':' :: ':' :: rest => some ([], rest)
  | c :: rest => (splitDouble rest).map fun (head, tail) => (c :: head, tail)
  | [] => none

/-- Whether a text spells an address of version 6. -/
def isVersion6 (cs : List Char) : Bool :=
  match splitDouble cs with
  | none => sideCount? true cs = some 8
  | some (head, tail) =>
    match sideCount? false head, sideCount? true tail with
    | some m, some n => m + n ≤ 7
    | _, _ => false

/-- Whether a text spells an address. -/
def isAddress (cs : List Char) : Bool :=
  isVersion4 cs || isVersion6 cs

end SqlBuilder.Connection.IpAddress
