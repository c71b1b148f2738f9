/-!
# Binary floating point numbers

The interchange formats with 32 and 64 bits, held as their bits and computed with exactly: a number
is read off its bits as `± mantissa * 2 ^ exponent`, and every operation rounds an exact quotient of
natural numbers once, to the nearest number of the format and to the even one of two equally near.
-/

namespace SqlBuilder.Number

/-! ## Formats -/

/-- A binary interchange format: one sign bit, then the exponent, then the fraction. -/
structure BinaryFormat where
  exponentBits : Nat
  fractionBits : Nat

namespace BinaryFormat

/-- The format with 32 bits. -/
def single : BinaryFormat := ⟨8, 23⟩

/-- The format with 64 bits. -/
def double : BinaryFormat := ⟨11, 52⟩

/-- The exponent field of infinities and of what is no number. -/
def topExponent (f : BinaryFormat) : Nat :=
  Nat.pow 2 f.exponentBits - 1

/-- The exponent of the last place of the least positive number. -/
def leastExponent (f : BinaryFormat) : Int :=
  2 - Nat.pow 2 (f.exponentBits - 1) - f.fractionBits

/-- The bits of a negative sign. -/
def signBits (f : BinaryFormat) (negative : Bool) : Nat :=
  if negative then Nat.pow 2 (f.exponentBits + f.fractionBits) else 0

/-- The bits of an infinity. -/
def infinity (f : BinaryFormat) (negative : Bool) : Nat :=
  f.signBits negative + f.topExponent * Nat.pow 2 f.fractionBits

/-- The bits of the quiet value that is no number. -/
def notANumber (f : BinaryFormat) (negative : Bool) : Nat :=
  f.infinity negative + Nat.pow 2 (f.fractionBits - 1)

end BinaryFormat

/-- What the bits of a format stand for. -/
inductive BinaryValue where
  | notANumber (negative : Bool)
  | infinite (negative : Bool)
  /-- The number `± mantissa * 2 ^ exponent`. -/
  | finite (negative : Bool) (mantissa : Nat) (exponent : Int)
  deriving DecidableEq, Repr

/-! ## Rounding -/

/-- The integer nearest to `num / den`, the even one of two equally near. -/
def roundHalfEven (num den : Nat) : Nat :=
  let q := num / den
  let r := 2 * (num % den)
  if r < den || (r = den && q % 2 = 0) then q else q + 1

/-- The integer nearest to `num / den`, the greater one of two equally near. -/
def roundHalfUp (num den : Nat) : Nat :=
  (num + den / 2) / den

/-- `num / den` times `2 ^ k` as a pair of numerator and denominator. -/
def scaleTwo (num den : Nat) (k : Int) : Nat × Nat :=
  if 0 ≤ k then (num * Nat.pow 2 k.toNat, den) else (num, den * Nat.pow 2 (-k).toNat)

/-- `num / den` times `10 ^ k` as a pair of numerator and denominator. -/
def scaleTen (num den : Nat) (k : Int) : Nat × Nat :=
  if 0 ≤ k then (num * Nat.pow 10 k.toNat, den) else (num, den * Nat.pow 10 (-k).toNat)

/-- The greatest `e` with `2 ^ e ≤ num / den`, for positive `num` and `den`. -/
def binaryExponent (num den : Nat) : Int :=
  let guess : Int := (num.log2 : Int) - den.log2
  let (n, d) := scaleTwo num den (-guess)
  if d ≤ n then guess else guess - 1

namespace BinaryFormat

/-- Reads a bit pattern of the format. -/
def read (f : BinaryFormat) (bits : Nat) : BinaryValue :=
  let fraction := bits % Nat.pow 2 f.fractionBits
  let exponent := bits / Nat.pow 2 f.fractionBits % Nat.pow 2 f.exponentBits
  let negative := bits / Nat.pow 2 (f.exponentBits + f.fractionBits) % 2 = 1
  if exponent = f.topExponent then
    if fraction = 0 then .infinite negative else .notANumber negative
  else if exponent = 0 then .finite negative fraction f.leastExponent
  else .finite negative (Nat.pow 2 f.fractionBits + fraction) (f.leastExponent + exponent - 1)

/-- The bits of the number of the format nearest to `± num / den`; beyond the greatest finite number
lie the infinities.  With `mantissa` the rounded quotient in units of `2 ^ q`, the bits count up
from zero, so a mantissa that rounds up to the next power of two carries into the exponent by
itself. -/
def round (f : BinaryFormat) (negative : Bool) (num den : Nat) : Nat :=
  if num = 0 then f.signBits negative
  else
    let q := max f.leastExponent (binaryExponent num den - f.fractionBits)
    let (n, d) := scaleTwo num den (-q)
    let magnitude := (q - f.leastExponent).toNat * Nat.pow 2 f.fractionBits + roundHalfEven n d
    if f.topExponent * Nat.pow 2 f.fractionBits ≤ magnitude then f.infinity negative
    else f.signBits negative + magnitude

/-- The bits of what `v` stands for in the format, rounded where it has no such number. -/
def write (f : BinaryFormat) : BinaryValue → Nat
  | .notANumber negative => f.notANumber negative
  | .infinite negative => f.infinity negative
  | .finite negative mantissa exponent =>
    let (n, d) := scaleTwo mantissa 1 exponent
    f.round negative n d

/-- The bits of the number nearest to `± coefficient * 10 ^ exponent`.  A number of 400 digits
before the point lies beyond both formats, one with 400 zeros after it below half of the least
number, so such exponents need no exact quotient. -/
def ofDecimal (f : BinaryFormat) (negative : Bool) (coefficient : Nat) (exponent : Int) : Nat :=
  let size : Int := (toString coefficient).length + exponent
  if coefficient = 0 || size < -400 then f.signBits negative
  else if 400 < size then f.infinity negative
  else
    let (n, d) := scaleTen coefficient 1 exponent
    f.round negative n d

end BinaryFormat

/-! ## The two formats -/

/-- A number of the 64-bit format, held as its bits. -/
structure Binary64 where
  bits : UInt64
  deriving DecidableEq, Repr

/-- A number of the 32-bit format, held as its bits. -/
structure Binary32 where
  bits : UInt32
  deriving DecidableEq, Repr

namespace Binary64

def ofBits (bits : Nat) : Binary64 :=
  ⟨UInt64.ofNat bits⟩

/-- What the bits stand for. -/
def value (x : Binary64) : BinaryValue :=
  BinaryFormat.double.read x.bits.toNat

/-- The number nearest to `n`. -/
def ofInt (n : Int) : Binary64 :=
  ofBits (BinaryFormat.double.round (n < 0) n.natAbs 1)

/-- The number nearest to `± coefficient * 10 ^ exponent`. -/
def ofDecimal (negative : Bool) (coefficient : Nat) (exponent : Int) : Binary64 :=
  ofBits (BinaryFormat.double.ofDecimal negative coefficient exponent)

def isFinite (x : Binary64) : Bool :=
  match x.value with
  | .finite .. => true
  | _ => false

/-- The same number with the other sign. -/
def negate (x : Binary64) : Binary64 :=
  ⟨x.bits ^^^ 0x8000000000000000⟩

/-- Equality of numbers: the two zeros are equal, and what is no number differs from everything. -/
def equals (x y : Binary64) : Bool :=
  match x.value, y.value with
  | .notANumber _, _ => false
  | _, .notANumber _ => false
  | .finite _ 0 _, .finite _ 0 _ => true
  | v, w => v = w

/-- The product of two finite numbers, correctly rounded; any other operand is handed back. -/
def mul (x y : Binary64) : Binary64 :=
  match x.value, y.value with
  | .finite s m e, .finite t n k =>
    let (num, den) := scaleTwo (m * n) 1 (e + k)
    ofBits (BinaryFormat.double.round (s != t) num den)
  | .finite .., _ => y
  | _, _ => x

/-- The quotient of a finite number by a finite number other than zero, correctly rounded; with any
other operands the first is handed back. -/
def div (x y : Binary64) : Binary64 :=
  match x.value, y.value with
  | .finite s m e, .finite t n k =>
    if n = 0 then x
    else
      let (num, den) := scaleTwo m n (e - k)
      ofBits (BinaryFormat.double.round (s != t) num den)
  | _, _ => x

end Binary64

namespace Binary32

/-- What the bits stand for. -/
def value (x : Binary32) : BinaryValue :=
  BinaryFormat.single.read x.bits.toNat

def ofBits (bits : Nat) : Binary32 :=
  ⟨UInt32.ofNat bits⟩

/-- The number nearest to `n`. -/
def ofInt (n : Int) : Binary32 :=
  ofBits (BinaryFormat.single.round (n < 0) n.natAbs 1)

/-- The number nearest to `± coefficient * 10 ^ exponent`. -/
def ofDecimal (negative : Bool) (coefficient : Nat) (exponent : Int) : Binary32 :=
  ofBits (BinaryFormat.single.ofDecimal negative coefficient exponent)

/-- The 32-bit number nearest to a 64-bit one. -/
def ofBinary64 (x : Binary64) : Binary32 :=
  ofBits (BinaryFormat.single.write x.value)

/-- The same number in 64 bits. -/
def toBinary64 (x : Binary32) : Binary64 :=
  .ofBits (BinaryFormat.double.write x.value)

end Binary32

end SqlBuilder.Number
