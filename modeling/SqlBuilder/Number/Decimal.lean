import SqlBuilder.Number.Binary
import SqlBuilder.Number.Integer

/-!
# Exact decimal numbers

A sign, a coefficient below `2 ^ 96` and a scale of at most 28 decimal places.  Reading rounds
digits beyond those limits half away from zero and refuses a number whose whole part does not fit.
-/

namespace SqlBuilder.Number

/-- The number `± coefficient / 10 ^ scale`. -/
structure Decimal where
  negative : Bool
  coefficient : Nat
  scale : Nat
  coefficient_lt : coefficient < Nat.pow 2 96 := by decide
  scale_le : scale ≤ 28 := by decide
  deriving DecidableEq, Repr

namespace Decimal

/-- The decimal with these parts, if they respect the limits. -/
def make? (negative : Bool) (coefficient scale : Nat) : Option Decimal :=
  if h : coefficient < Nat.pow 2 96 ∧ scale ≤ 28 then
    some ⟨negative, coefficient, scale, h.1, h.2⟩
  else none

/-- Like `make?`, but a zero carries no sign. -/
def makeUnsignedZero? (negative : Bool) (coefficient scale : Nat) : Option Decimal :=
  make? (negative && coefficient != 0) coefficient scale

/-- An integer of 64 bits. -/
def ofInt64 (n : Int64) : Option Decimal :=
  make? (n.toInt < 0) n.toInt.natAbs 0

/-! ## Text -/

/-- The digits with `scale` places after the point. -/
def toText (d : Decimal) : String :=
  let digits := (toString d.coefficient).toList
  let filled := List.replicate (d.scale + 1 - digits.length) '0' ++ digits
  let whole := filled.take (filled.length - d.scale)
  let fraction := filled.drop (filled.length - d.scale)
  let sign := if d.negative then "-" else ""
  sign ++ .ofList (if d.scale = 0 then whole else whole ++ '.' :: fraction)

/-- How far digits have been read: the coefficient so far, the places after the point, and whether
the point and any digit were met. -/
structure Reading where
  coefficient : Nat := 0
  scale : Nat := 0
  pointSeen : Bool := false
  digitSeen : Bool := false
  deriving Repr

/-- The coefficient after a digit that no longer fits.  It rounds half up; a coefficient that leaves
96 bits by that gives up its last place. -/
def Reading.roundBy (r : Reading) (digit : Nat) : Option (Nat × Nat) :=
  if digit < 5 then some (r.coefficient, r.scale)
  else if r.coefficient + 1 < Nat.pow 2 96 then some (r.coefficient + 1, r.scale)
  else if r.scale = 0 then none
  else some ((r.coefficient + 1 + 4) / 10, r.scale - 1)

/-- Whether only digits and separators stand in a text.  Nothing else may follow the last place that
counts. -/
def isTail (cs : List Char) : Bool :=
  cs.all fun c => isDigit c || c = '_'

/-- The least coefficient that is read in wide arithmetic: from here on another digit might need
more than 64 bits. -/
def wideFrom : Nat := (Nat.pow 2 64 - 1) / 10 - 255

/-- Whether the last digit was read in wide arithmetic. -/
def Reading.isWide (r : Reading) : Bool :=
  wideFrom ≤ r.coefficient / 10

/-- The end of a reading whose places are used up: the next digit rounds.  A separator in its place
is skipped in wide arithmetic, and stands for a zero before that. -/
def Reading.finishAtLimit (r : Reading) (cs : List Char) : Option (Nat × Nat) :=
  if !isTail cs then none
  else
    match if r.isWide then cs.dropWhile (· = '_') else cs with
    | c :: _ => if isDigit c then r.roundBy (c.toNat - 48) else some (r.coefficient, r.scale)
    | [] => some (r.coefficient, r.scale)

/-- Reads digits, `_` between them and one point.  After the point, reading stops at the 28th place
and before a digit that would need a 97th bit; before the point such a digit makes the number too
large. -/
def readDigits : Reading → List Char → Option (Nat × Nat)
  | r, [] => if r.digitSeen then some (r.coefficient, r.scale) else none
  | r, c :: cs =>
    if r.scale = 28 then r.finishAtLimit (c :: cs)
    else if isDigit c then
      let digit := c.toNat - 48
      let next := r.coefficient * 10 + digit
      if Nat.pow 2 96 ≤ next then
        if r.pointSeen && isTail cs then r.roundBy digit else none
      else
        readDigits
          { r with coefficient := next, scale := if r.pointSeen then r.scale + 1 else r.scale,
                   digitSeen := true } cs
    else if c = '.' && !r.pointSeen then readDigits { r with pointSeen := true } cs
    else if c = '_' && r.digitSeen then readDigits r cs
    else none

/-- Splits off a leading sign. -/
def splitSign : List Char → Bool × List Char
  | '-' :: cs => (true, cs)
  | '+' :: cs => (false, cs)
  | cs => (false, cs)

/-- Reads a decimal without a power of ten. -/
def ofPlainDigits? (cs : List Char) : Option Decimal :=
  let (negative, digits) := splitSign cs
  (readDigits {} digits).bind fun (coefficient, scale) =>
    makeUnsignedZero? negative coefficient scale

/-- Drops zeros at the end of the places, at most `steps` of them. -/
def stripPlaces (steps coefficient scale : Nat) : Nat × Nat :=
  match steps with
  | 0 => (coefficient, scale)
  | steps + 1 =>
    if scale ≠ 0 ∧ coefficient % 10 = 0 then stripPlaces steps (coefficient / 10) (scale - 1)
    else (coefficient, scale)

/-- The decimal without zeros at the end of its places. -/
def normalize? (d : Decimal) : Option Decimal :=
  if d.coefficient = 0 then make? false 0 0
  else
    let (coefficient, scale) := stripPlaces 28 d.coefficient d.scale
    make? d.negative coefficient scale

/-- Moves the point of a number read from text by its power of ten.  It moves at most 28 places to
the left, and places behind the 28th round half up. -/
def shift? (base : Decimal) (down : Bool) (power : Nat) : Option Decimal :=
  if down then
    if 28 < power then none
    else
      let excess := base.scale + power - 28
      let coefficient := roundHalfUp base.coefficient (Nat.pow 10 excess)
      make? base.negative coefficient (base.scale + power - excess)
  else if power ≤ base.scale then make? base.negative base.coefficient (base.scale - power)
  else if 28 < power then none
  else
    (make? base.negative (base.coefficient * Nat.pow 10 (power - base.scale)) 0).bind normalize?

/-- Reads the digits of a power of ten: an optional minus sign, then a number below `2 ^ 32` that
may carry a plus sign of its own. -/
def readPower? (cs : List Char) : Option (Bool × Nat) :=
  let (down, number) :=
    match cs with
    | '-' :: rest => (true, rest)
    | rest => (false, rest)
  (naturalOfText? (Nat.pow 2 32 - 1) (.ofList number)).map (down, ·)

/-- Reads a decimal: digits with `_` between them and a point, optionally followed by `e` and a
power of ten. -/
def ofText? (s : String) : Option Decimal :=
  let cs := s.toList
  let isMark (c : Char) : Bool := c = 'e' || c = 'E'
  match cs.dropWhile (!isMark ·) with
  | [] => ofPlainDigits? cs
  | _ :: power => do
    let base ← ofPlainDigits? (cs.takeWhile (!isMark ·))
    let (down, n) ← readPower? power
    base.shift? down n

end Decimal

end SqlBuilder.Number
