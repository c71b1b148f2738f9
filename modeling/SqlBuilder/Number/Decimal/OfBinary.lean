import SqlBuilder.Number.Decimal

/-!
# The decimal near a floating point number

A finite number `mantissa * 2 ^ exponent` with a fraction is turned into `coefficient * 10 ^ -scale`
step by step: a factor `1 / 2` becomes `5 / 10`, as far as a coefficient of 96 bits can keep it.  A
whole number is its own coefficient if it fits.  Afterwards the coefficient is cut to the 52 bits
that a number of the 64-bit format can answer for, and zeros at the end of the places are dropped.
-/

namespace SqlBuilder.Number.Decimal

/-- A coefficient with its number of decimal places. -/
structure Scaled where
  coefficient : Nat
  scale : Nat
  deriving DecidableEq, Repr

/-- Halves `x` exactly `steps` times, as long as it fits by `5 / 10`, else by dropping the last
bit. -/
def halve : Nat → Scaled → Scaled
  | 0, x => x
  | steps + 1, x =>
    if x.coefficient % 2 = 0 then halve steps ⟨x.coefficient / 2, x.scale - 1⟩
    else if 5 * x.coefficient < Nat.pow 2 96 then halve steps ⟨5 * x.coefficient, x.scale⟩
    else halve steps ⟨x.coefficient / 2, x.scale - 1⟩

/-- Divides by ten, rounding half up. -/
def dropPlace (x : Scaled) : Scaled :=
  ⟨roundHalfUp x.coefficient 10, x.scale - 1⟩

/-- Drops `count` places; a coefficient that runs out of digits becomes a plain zero. -/
def dropPlaces : Nat → Scaled → Scaled
  | 0, x => x
  | count + 1, x => if x.coefficient < 10 then ⟨0, 0⟩ else dropPlaces count (dropPlace x)

/-- Drops places, at most `steps` of them, until the coefficient is below `2 ^ 52`. -/
def dropUnreliable : Nat → Scaled → Scaled
  | 0, x => x
  | steps + 1, x =>
    if 0 < x.scale ∧ Nat.pow 2 52 ≤ x.coefficient then dropUnreliable steps (dropPlace x) else x

/-- The scaled form of `mantissa * 2 ^ exponent`, if 96 bits can hold its whole part. -/
def scaledOfBinary? (mantissa : Nat) (exponent : Int) : Option Scaled :=
  if exponent ≤ 0 then
    some (halve exponent.natAbs ⟨mantissa, exponent.natAbs⟩)
  else
    let whole := mantissa * Nat.pow 2 exponent.toNat
    if whole < Nat.pow 2 96 then some ⟨whole, 0⟩ else none

/-- The decimal near a floating point number; there is none for infinities and for numbers whose
whole part is too large. -/
def ofBinary64? (x : Binary64) : Option Decimal :=
  match x.value with
  | .finite negative mantissa exponent => do
    if mantissa = 0 then make? negative 0 0
    else
      let full ← scaledOfBinary? mantissa exponent
      let limited := dropPlaces (full.scale - 28) full
      let reliable := dropUnreliable limited.scale limited
      let (coefficient, scale) := stripPlaces reliable.scale reliable.coefficient reliable.scale
      make? negative coefficient scale
  | _ => none

end SqlBuilder.Number.Decimal
