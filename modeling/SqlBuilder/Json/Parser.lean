import SqlBuilder.Json.Basic
import SqlBuilder.Bytes
import SqlBuilder.Number.Integer

/-!
# Reading JSON

A recursive descent over the characters.  Every step hands back what is left; the number of steps is
bounded by the length of the text, and the depth of nesting by `Json.maxDepth`.
-/

namespace SqlBuilder.Json

open Number

/-- Skips the four blanks that JSON knows. -/
def skipBlanks (cs : List Char) : List Char :=
  cs.dropWhile fun c => c = ' ' || c = '\n' || c = '\t' || c = '\r'

/-! ## Strings -/

/-- The number spelled by four hexadecimal digits. -/
def fourDigits? (a b c d : Char) : Option Nat := do
  let a ← Bytes.hexValue? a
  let b ← Bytes.hexValue? b
  let c ← Bytes.hexValue? c
  let d ← Bytes.hexValue? d
  return ((a * 16 + b) * 16 + c) * 16 + d

/-- The character that a one-letter escape stands for. -/
def shortEscape? (c : Char) : Option Char :=
  if c = '"' || c = '\\' || c = '/' then some c
  else if c = 'b' then some '\x08'
  else if c = 'f' then some '\x0c'
  else if c = 'n' then some '\n'
  else if c = 'r' then some '\r'
  else if c = 't' then some '\t'
  else none

/-- Reads the characters up to the closing quote.  A character beyond the first 65536 may be escaped
as two surrogates; a surrogate alone is refused, as is a bare control character. -/
def readString? : List Char → Option (List Char × List Char)
  | [] => none
  | '"' :: rest => some ([], rest)
  | '\\' :: 'u' :: a :: b :: c :: d :: rest => do
    let n ← fourDigits? a b c d
    if 0xDC00 ≤ n ∧ n ≤ 0xDFFF then none
    else if 0xD800 ≤ n ∧ n ≤ 0xDBFF then
      match rest with
      | '\\' :: 'u' :: a :: b :: c :: d :: rest =>
        let low ← fourDigits? a b c d
        if 0xDC00 ≤ low ∧ low ≤ 0xDFFF then
          (readString? rest).map fun (cs, rest) =>
            (Char.ofNat (0x10000 + (n - 0xD800) * 0x400 + (low - 0xDC00)) :: cs, rest)
        else none
      | _ => none
    else (readString? rest).map fun (cs, rest) => (Char.ofNat n :: cs, rest)
  | '\\' :: c :: rest => do
    let e ← shortEscape? c
    (readString? rest).map fun (cs, rest) => (e :: cs, rest)
  | c :: rest =>
    if c.toNat < 0x20 || c = '\\' then none
    else (readString? rest).map fun (cs, rest) => (c :: cs, rest)

/-! ## Numbers -/

/-- The digits read into 64 bits: further digits before the point only raise the power of ten, and
further digits after it are dropped. -/
structure Significand where
  value : Nat
  exponent : Int

/-- Digits before the point. -/
def wholeDigits : Significand → List Char → Significand
  | s, [] => s
  | s, c :: cs =>
    let next := s.value * 10 + (c.toNat - 48)
    if s.exponent = 0 ∧ next < Nat.pow 2 64 then wholeDigits ⟨next, 0⟩ cs
    else wholeDigits ⟨s.value, s.exponent + 1⟩ cs

/-- Digits after the point. -/
def fractionDigits : Significand → List Char → Significand
  | s, [] => s
  | s, c :: cs =>
    let next := s.value * 10 + (c.toNat - 48)
    if next < Nat.pow 2 64 then fractionDigits ⟨next, s.exponent - 1⟩ cs else s

/-- The floating point number nearest to `10 ^ k`. -/
def tenTo (k : Nat) : Binary64 :=
  .ofDecimal false 1 k

/-- Divides by powers of ten of at most 308 places, one after the other, until `count` places are
used up. -/
def divideTens : Nat → Nat → Binary64 → Binary64
  | 0, _, x => x
  | rounds + 1, places, x =>
    if places ≤ 308 then x.div (tenTo places)
    else divideTens rounds (places - 308) (x.div (tenTo 308))

/-- The floating point number `± value * 10 ^ exponent`, computed as one product or quotient of the
two rounded factors; there is none beyond the greatest finite number. -/
def floatOfSignificand? (negative : Bool) (s : Significand) : Option Binary64 :=
  let x := Binary64.ofInt s.value
  let signed (x : Binary64) : Binary64 := if negative then x.negate else x
  if s.value = 0 then some (signed x)
  else if 0 ≤ s.exponent then
    if s.exponent ≤ 308 then
      let product := x.mul (tenTo s.exponent.toNat)
      if product.isFinite then some (signed product) else none
    else none
  else
    let places := min s.exponent.natAbs 1000
    some (signed (divideTens 4 places x))

/-- The parts of a number as it is written, without its sign. -/
structure NumberText where
  whole : List Char
  /-- The digits behind the point, if there is one. -/
  fraction : Option (List Char)
  /-- The power of ten, if one is given. -/
  power : Option Int

/-- The digits of a power of ten with their sign. -/
def takePower? (cs : List Char) : Option (Int × List Char) :=
  let (negative, rest) :=
    match cs with
    | '-' :: rest => (true, rest)
    | '+' :: rest => (false, rest)
    | rest => (false, rest)
  let ds := rest.takeWhile isDigit
  if ds.isEmpty then none
  else
    let n : Int := digitsValue ds
    some (if negative then -n else n, rest.dropWhile isDigit)

/-- The digits behind a point. -/
def takeFraction? : List Char → Option (Option (List Char) × List Char)
  | '.' :: ds =>
    if (ds.takeWhile isDigit).isEmpty then none
    else some (some (ds.takeWhile isDigit), ds.dropWhile isDigit)
  | rest => some (none, rest)

/-- The power of ten behind its mark. -/
def takeMarkedPower? : List Char → Option (Option Int × List Char)
  | 'e' :: cs => (takePower? cs).map fun (n, rest) => (some n, rest)
  | 'E' :: cs => (takePower? cs).map fun (n, rest) => (some n, rest)
  | rest => some (none, rest)

/-- Takes a number whose sign has been taken.  Only a lone zero begins with one. -/
def takeNumber? (cs : List Char) : Option (NumberText × List Char) := do
  let whole := cs.takeWhile isDigit
  if whole.isEmpty || (whole.head? = some '0' && 1 < whole.length) then none
  else
    let (fraction, rest) ← takeFraction? (cs.dropWhile isDigit)
    let (power, rest) ← takeMarkedPower? rest
    return (⟨whole, fraction, power⟩, rest)

/-- An integer if it fits in 64 bits, else the floating point number.  A negative zero is no
integer. -/
def integerOrFloat? (negative : Bool) (s : Significand) : Option Json :=
  let n : Int := if negative then -(s.value : Int) else s.value
  if s.exponent = 0 ∧ !(negative && s.value = 0) then
    match JsonInteger.ofInt? n with
    | some n => some (.integer n)
    | none => (floatOfSignificand? negative s).map .float
  else (floatOfSignificand? negative s).map .float

/-- The number that a text spells, if the format has it. -/
def NumberText.value? (negative : Bool) (t : NumberText) : Option Json :=
  let s := wholeDigits ⟨0, 0⟩ t.whole
  if t.fraction.isNone && t.power.isNone then integerOrFloat? negative s
  else
    let s := fractionDigits s (t.fraction.getD [])
    (floatOfSignificand? negative ⟨s.value, s.exponent + t.power.getD 0⟩).map .float

/-- Reads a number whose sign has been taken. -/
def readNumber? (negative : Bool) (cs : List Char) : Option (Json × List Char) := do
  let (t, rest) ← takeNumber? cs
  (t.value? negative).map (·, rest)

/-! ## Documents -/

mutual

/-- Reads a value: `depth` more arrays or objects may be opened. -/
def readValue? (fuel depth : Nat) (cs : List Char) : Option (Json × List Char) :=
  match fuel with
  | 0 => none
  | fuel + 1 =>
    match skipBlanks cs with
    | 'n' :: 'u' :: 'l' :: 'l' :: rest => some (.null, rest)
    | 't' :: 'r' :: 'u' :: 'e' :: rest => some (.bool true, rest)
    | 'f' :: 'a' :: 'l' :: 's' :: 'e' :: rest => some (.bool false, rest)
    | '"' :: rest => (readString? rest).map fun (s, rest) => (.string (.ofList s), rest)
    | '[' :: rest =>
      match depth with
      | 0 => none
      | depth + 1 =>
        match skipBlanks rest with
        | ']' :: rest => some (.array [], rest)
        | rest => (readItems? fuel depth rest).map fun (xs, rest) => (.array xs, rest)
    | '\x7b' :: rest =>
      match depth with
      | 0 => none
      | depth + 1 =>
        match skipBlanks rest with
        | '\x7d' :: rest => some (.object [], rest)
        | rest => (readMembers? fuel depth rest).map fun (ms, rest) => (.ofMembers ms, rest)
    | '-' :: rest => readNumber? true rest
    | rest => readNumber? false rest

/-- Reads the items of an array up to its bracket. -/
def readItems? (fuel depth : Nat) (cs : List Char) : Option (List Json × List Char) :=
  match fuel with
  | 0 => none
  | fuel + 1 => do
    let (x, rest) ← readValue? fuel depth cs
    match skipBlanks rest with
    | ',' :: rest => (readItems? fuel depth rest).map fun (xs, rest) => (x :: xs, rest)
    | ']' :: rest => some ([x], rest)
    | _ => none

/-- Reads the members of an object up to its brace. -/
def readMembers? (fuel depth : Nat) (cs : List Char) :
    Option (List (String × Json) × List Char) :=
  match fuel with
  | 0 => none
  | fuel + 1 =>
    match skipBlanks cs with
    | '"' :: rest => do
      let (k, rest) ← readString? rest
      match skipBlanks rest with
      | ':' :: rest =>
        let (x, rest) ← readValue? fuel depth rest
        match skipBlanks rest with
        | ',' :: rest =>
          (readMembers? fuel depth rest).map fun (ms, rest) => ((.ofList k, x) :: ms, rest)
        | '\x7d' :: rest => some ([(.ofList k, x)], rest)
        | _ => none
      | _ => none
    | _ => none

end

/-- Steps that suffice for a text: each character costs two at most. -/
def fuelFor (cs : List Char) : Nat :=
  2 * cs.length + 2

/-- What was read, if only blanks are left. -/
def complete? {α : Type} : Option (α × List Char) → Option α
  | some (x, rest) => if (skipBlanks rest).isEmpty then some x else none
  | none => none

/-- Reads the document that a text spells. -/
def ofText? (s : String) : Option Json :=
  complete? (readValue? (fuelFor s.toList) maxDepth s.toList)

end SqlBuilder.Json
