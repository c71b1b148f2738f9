import SqlBuilder.Number.Binary

/-!
# The fewest digits that read back

A finite number of the 64-bit format is surrounded by the interval of reals that round to it.  For
one digit, two digits and so on, the number's two neighbours on the decimal grid with that many
digits are tried; the first grid that meets the interval gives the digits, of two neighbours inside
it the nearer.  Seventeen digits always suffice.
-/

namespace SqlBuilder.Number

/-- Which of two decimal neighbours at equal distance is taken. -/
inductive Tie where
  | toEven
  | up
  deriving DecidableEq, Repr

/-- A positive decimal number: `coefficient * 10 ^ exponent`. -/
structure DecimalDigits where
  coefficient : Nat
  exponent : Int
  deriving DecidableEq, Repr

namespace DecimalDigits

/-- The digits of the coefficient. -/
def digits (d : DecimalDigits) : List Char :=
  (toString d.coefficient).toList

/-- Moves zeros from the end of the coefficient into the exponent, at most `steps` of them. -/
def stripZeros (steps : Nat) (d : DecimalDigits) : DecimalDigits :=
  match steps with
  | 0 => d
  | steps + 1 =>
    if d.coefficient ≠ 0 ∧ d.coefficient % 10 = 0 then
      stripZeros steps ⟨d.coefficient / 10, d.exponent + 1⟩
    else d

end DecimalDigits

/-- The number `mantissa * 2 ^ exponent` of the 64-bit format with the ends of the interval that
rounds to it, all three as numerators over the one denominator `den`. -/
structure RoundingInterval where
  low : Nat
  value : Nat
  high : Nat
  den : Nat
  /-- Whether the ends round to the number too, which they do iff the mantissa is even. -/
  closed : Bool
  deriving Repr

namespace RoundingInterval

/-- The interval of a positive finite number.  Below a power of two the numbers lie twice as dense,
so the lower end is half as far away there, except at the bottom of the format. -/
def ofFinite (mantissa : Nat) (exponent : Int) : RoundingInterval :=
  let below :=
    if mantissa = Nat.pow 2 52 ∧ BinaryFormat.double.leastExponent < exponent then 1 else 2
  let (unit, den) := scaleTwo 1 1 (exponent - 2)
  { low := (4 * mantissa - below) * unit
    value := 4 * mantissa * unit
    high := (4 * mantissa + 2) * unit
    den := den
    closed := mantissa % 2 = 0 }

/-- Whether `d` lies in the interval. -/
def contains (i : RoundingInterval) (d : DecimalDigits) : Bool :=
  let (num, den) := scaleTen d.coefficient 1 d.exponent
  let x := num * i.den
  if i.closed then i.low * den ≤ x && x ≤ i.high * den
  else i.low * den < x && x < i.high * den

/-- The greatest `k` with `10 ^ k` at most the number.  Multiplying the binary exponent by the
logarithm of two misses it by one at most. -/
def decimalExponent (i : RoundingInterval) : Int :=
  let guess := Int.fdiv (binaryExponent i.value i.den * 301029995) 1000000000
  let reaches (k : Int) : Bool :=
    let (num, den) := scaleTen 1 1 k
    num * i.den ≤ i.value * den
  if reaches (guess + 1) then guess + 1
  else if reaches guess then guess
  else guess - 1

/-- The decimal nearest to the number among its neighbours with `count` digits, if one of them lies
in the interval. -/
def nearest? (tie : Tie) (i : RoundingInterval) (k : Int) (count : Nat) : Option DecimalDigits :=
  let e := k + 1 - count
  let (num, den) := scaleTen i.value i.den (-e)
  let floor := num / den
  let rest := 2 * (num % den)
  let lower : DecimalDigits := ⟨floor, e⟩
  let upper : DecimalDigits := ⟨floor + 1, e⟩
  let takeUpper := den < rest || (rest = den && (tie = .up || floor % 2 = 1))
  match i.contains lower, i.contains upper with
  | true, true => some (if takeUpper then upper else lower)
  | true, false => some lower
  | false, true => some upper
  | false, false => none

/-- The shortest decimal in the interval. -/
def shortest (tie : Tie) (i : RoundingInterval) : DecimalDigits :=
  let k := i.decimalExponent
  let found := (List.range 17).findSome? fun n => i.nearest? tie k (n + 1)
  (found.getD ⟨i.value / i.den, 0⟩).stripZeros 400

end RoundingInterval

/-- The fewest decimal digits that read back as the number `mantissa * 2 ^ exponent`. -/
def shortestDigits (tie : Tie) (mantissa : Nat) (exponent : Int) : DecimalDigits :=
  if mantissa = 0 then ⟨0, 0⟩ else (RoundingInterval.ofFinite mantissa exponent).shortest tie

/-! ## Positional text -/

namespace DecimalDigits

/-- The digits written out with a point where one is needed, never with a power of ten. -/
def positional (d : DecimalDigits) : List Char :=
  let ds := d.digits
  if 0 ≤ d.exponent then ds ++ List.replicate d.exponent.toNat '0'
  else
    let places := (-d.exponent).toNat
    if places < ds.length then
      ds.take (ds.length - places) ++ '.' :: ds.drop (ds.length - places)
    else '0' :: '.' :: List.replicate (places - ds.length) '0' ++ ds

end DecimalDigits

/-- A minus sign for a negative number. -/
def signText (negative : Bool) : String :=
  if negative then "-" else ""

/-- The number in full: the fewest digits that read back, without a power of ten and without a point
after a whole number. -/
def Binary64.toText (x : Binary64) : String :=
  match x.value with
  | .notANumber _ => "NaN"
  | .infinite negative => signText negative ++ "inf"
  | .finite negative mantissa exponent =>
    signText negative ++ .ofList (shortestDigits .up mantissa exponent).positional

end SqlBuilder.Number
