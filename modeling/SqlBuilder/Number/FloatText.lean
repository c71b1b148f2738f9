import SqlBuilder.Number.Binary
import SqlBuilder.Number.Integer

/-!
# Reading floating point text

A sign, then `inf`, `infinity` or `nan` in any case, or digits with at most one point and an
optional power of ten.  At least one digit must stand before or after the point, and one in the
power of ten.
-/

namespace SqlBuilder.Number

/-- What a floating point text says, before it is rounded to a format. -/
inductive FloatText where
  | notANumber (negative : Bool)
  | infinite (negative : Bool)
  /-- The number `± coefficient * 10 ^ exponent`. -/
  | finite (negative : Bool) (coefficient : Nat) (exponent : Int)
  deriving DecidableEq, Repr

namespace FloatText

/-- Reads the power of ten: nothing at all, or `e` with an optional sign and digits. -/
def readExponent? : List Char → Option Int
  | [] => some 0
  | c :: cs =>
    if c = 'e' ∨ c = 'E' then
      match cs with
      | '-' :: ds => (naturalOfDigits? ds).map fun n => -(n : Int)
      | '+' :: ds => (naturalOfDigits? ds).map (↑·)
      | ds => (naturalOfDigits? ds).map (↑·)
    else none

/-- Reads digits, an optional point with more digits, and the power of ten. -/
def readDigits? (negative : Bool) (cs : List Char) : Option FloatText :=
  let whole := cs.takeWhile isDigit
  let afterWhole := cs.dropWhile isDigit
  let (fraction, rest) :=
    match afterWhole with
    | '.' :: ds => (ds.takeWhile isDigit, ds.dropWhile isDigit)
    | ds => ([], ds)
  if whole.isEmpty && fraction.isEmpty then none
  else
    (readExponent? rest).map fun e =>
      .finite negative (digitsValue (whole ++ fraction)) (e - fraction.length)

/-- Reads what follows the sign. -/
def readUnsigned? (negative : Bool) (cs : List Char) : Option FloatText :=
  let word := (String.ofList cs).toLower
  if word = "inf" ∨ word = "infinity" then some (.infinite negative)
  else if word = "nan" then some (.notANumber negative)
  else readDigits? negative cs

/-- Reads a floating point text. -/
def read? (s : String) : Option FloatText :=
  match s.toList with
  | '-' :: cs => readUnsigned? true cs
  | '+' :: cs => readUnsigned? false cs
  | cs => readUnsigned? false cs

/-- The bits of the number of the format nearest to what the text says. -/
def round (f : BinaryFormat) : FloatText → Nat
  | .notANumber negative => f.notANumber negative
  | .infinite negative => f.infinity negative
  | .finite negative coefficient exponent => f.ofDecimal negative coefficient exponent

end FloatText

/-- Reads a 64-bit number. -/
def Binary64.ofText? (s : String) : Option Binary64 :=
  (FloatText.read? s).map fun t => .ofBits (t.round .double)

/-- Reads a 32-bit number. -/
def Binary32.ofText? (s : String) : Option Binary32 :=
  (FloatText.read? s).map fun t => .ofBits (t.round .single)

end SqlBuilder.Number
