/-!
# Integers as text

A sign and decimal digits, nothing else: no blanks, no separators.  A reader may bound the result,
so a number that does not fit is refused and never wrapped.
-/

namespace SqlBuilder.Number

/-- Whether `c` is one of the ten ASCII digits. -/
def isDigit (c : Char) : Bool :=
  '0' ≤ c && c ≤ '9'

/-- The number that a run of digits spells. -/
def digitsValue (cs : List Char) : Nat :=
  cs.foldl (fun n c => n * 10 + (c.toNat - 48)) 0

/-- The number spelled by a text of one or more digits. -/
def naturalOfDigits? (cs : List Char) : Option Nat :=
  if cs.isEmpty || !cs.all isDigit then none else some (digitsValue cs)

/-- Reads digits with an optional `+` or `-` before them. -/
def integerOfText? (s : String) : Option Int :=
  match s.toList with
  | '-' :: cs => (naturalOfDigits? cs).map fun n => -(n : Int)
  | '+' :: cs => (naturalOfDigits? cs).map (↑·)
  | cs => (naturalOfDigits? cs).map (↑·)

/-- Reads digits with an optional `+` before them, up to `max`. -/
def naturalOfText? (max : Nat) (s : String) : Option Nat :=
  let digits := match s.toList with
    | '+' :: cs => cs
    | cs => cs
  (naturalOfDigits? digits).filter (· ≤ max)

/-- Whether `n` is at least `-2 ^ (bits - 1)` and below `2 ^ (bits - 1)`. -/
def fitsSigned (bits : Nat) (n : Int) : Bool :=
  -(Nat.pow 2 (bits - 1) : Int) ≤ n && n < Nat.pow 2 (bits - 1)

/-- Reads a signed 64-bit integer. -/
def int64OfText? (s : String) : Option Int64 :=
  ((integerOfText? s).filter (fitsSigned 64)).map Int64.ofInt

/-- The decimal digits of `n` in at least `width` places, filled with zeros from the left. -/
def padded (width n : Nat) : String :=
  let digits := (toString n).toList
  .ofList (List.replicate (width - digits.length) '0' ++ digits)

end SqlBuilder.Number
