import SqlBuilder.Bytes
import SqlBuilder.Number.Decimal

/-!
# The binary form of exact decimals

Four words of two bytes and then the digits in groups of four: how many groups there are, the power
of 10000 of the first, the sign, the number of decimal places, and the groups themselves.
-/

namespace SqlBuilder.Wire

open Number

namespace Numeric

/-- The word of a negative sign. -/
def negativeWord : Nat := 0x4000

/-- The bits that mark what is no number. -/
def specialBits : Nat := 0xC000

/-! ## Writing -/

/-- The digits of `n` in base 10000, most significant first, at most `count` of them. -/
def groups : Nat → Nat → List Nat
  | 0, _ => []
  | count + 1, n => if n = 0 then [] else groups count (n / 10000) ++ [n % 10000]

/-- Drops zeros at the end. -/
def dropZeros (gs : List Nat) : List Nat :=
  (gs.reverse.dropWhile (· = 0)).reverse

/-- The binary form.  Groups of zeros are dropped only behind the point of a number with a whole
part. -/
def encode (d : Decimal) : Bytes :=
  if d.coefficient = 0 then Bytes.ofNat 8 0
  else
    let fractionGroups := (d.scale + 3) / 4
    let gs := groups 16 (d.coefficient * Nat.pow 10 (4 * fractionGroups - d.scale))
    let weight : Int := (gs.length : Int) - fractionGroups - 1
    let wholeGroups := (weight + 1).toNat
    let kept := if 0 ≤ weight then gs.take wholeGroups ++ dropZeros (gs.drop wholeGroups) else gs
    Bytes.ofNat 2 kept.length ++ Bytes.ofInt 2 weight
      ++ Bytes.ofNat 2 (if d.negative then negativeWord else 0)
      ++ Bytes.ofNat 2 d.scale ++ kept.flatMap (Bytes.ofNat 2)

/-! ## Reading -/

/-- A number read so far: `coefficient / 10 ^ scale`. -/
structure Partial where
  coefficient : Nat
  scale : Nat
  deriving DecidableEq, Repr

/-- Makes a coefficient fit into 96 bits by giving up as few places as possible, rounding to the
nearest and to the even one of two equally near. -/
def fit? (x : Partial) : Option Partial :=
  ((List.range (x.scale + 1)).map fun drop =>
      (⟨roundHalfEven x.coefficient (Nat.pow 10 drop), x.scale - drop⟩ : Partial)).find?
    fun y => y.coefficient < Nat.pow 2 96

/-- Adds `digit / 10 ^ place`. -/
def addPlace? (x : Partial) (digit place : Nat) : Option Partial :=
  let scale := max x.scale place
  fit? ⟨x.coefficient * Nat.pow 10 (scale - x.scale) + digit * Nat.pow 10 (scale - place), scale⟩

/-- Appends the groups of the whole part. -/
def wholePart? : Nat → List Nat → Option Nat
  | n, [] => some n
  | n, g :: gs => if n * 10000 + g < Nat.pow 2 96 then wholePart? (n * 10000 + g) gs else none

/-- Appends groups of zeros to the whole part; more than seven are refused whatever stands before
them. -/
def appendZeros? (whole count : Nat) : Option Nat :=
  if 7 < count ∨ Nat.pow 2 96 ≤ whole * Nat.pow 10000 count then none
  else some (whole * Nat.pow 10000 count)

/-- Adds the groups behind the point, the first of them at `place` decimal places.  The group that
would end at the 32nd place only rounds the 28th. -/
def fractionPart? : Partial → Nat → List Nat → Option Partial
  | x, _, [] => some x
  | x, place, g :: gs => do
    let next ←
      if place ≤ 28 then addPlace? x g place
      else if place = 32 ∧ 5000 ≤ g then addPlace? x 1 28
      else some x
    fractionPart? next (place + 4) gs

/-- Adds `steps` places as long as the coefficient fits into 96 bits. -/
def extend : Nat → Partial → Partial
  | 0, x => x
  | steps + 1, x =>
    if x.coefficient * 10 < Nat.pow 2 96 then extend steps ⟨x.coefficient * 10, x.scale + 1⟩ else x

/-- Brings a number to `scale` places: places given up round half up, places gained are zeros as far
as 96 bits allow. -/
def rescale (x : Partial) (scale : Nat) : Partial :=
  if x.coefficient = 0 then ⟨0, scale⟩
  else if scale < x.scale then ⟨roundHalfUp x.coefficient (Nat.pow 10 (x.scale - scale)), scale⟩
  else extend (scale - x.scale) x

/-- Splits bytes into words of two bytes; a byte left over is dropped. -/
def wordsOf : Bytes → List Nat
  | a :: b :: rest => (a.toNat * 256 + b.toNat) :: wordsOf rest
  | _ => []

/-- Reads the binary form. -/
def decode? (raw : Bytes) : Option Decimal :=
  match wordsOf raw with
  | count :: weightWord :: sign :: places :: rest =>
    if rest.length < count ∨ sign &&& specialBits = specialBits then none
    else do
      let weight := Bytes.toInt (Bytes.ofNat 2 weightWord)
      let gs := rest.take count
      let wholeCount := (weight + 1).toNat
      let whole ← wholePart? 0 (gs.take wholeCount)
      let whole ← appendZeros? whole (wholeCount - gs.length)
      let firstPlace := 4 * ((-weight).toNat - 1) + 4
      let read ← fractionPart? ⟨whole, 0⟩ firstPlace (gs.drop wholeCount)
      let final := rescale read (min places 28)
      Decimal.make? (sign = negativeWord) final.coefficient final.scale
  | _ => none

end Numeric

end SqlBuilder.Wire
