/-!
# Bytes

Big-endian integers, UTF-8 text and the hexadecimal spelling of byte strings.
-/

namespace SqlBuilder

/-- A byte string. -/
abbrev Bytes := List UInt8

namespace Bytes

/-! ## Big-endian integers -/

/-- The last `width` bytes of `n`, most significant first. -/
def ofNat (width n : Nat) : Bytes :=
  match width with
  | 0 => []
  | width + 1 => UInt8.ofNat (n / Nat.pow 256 width) :: ofNat width n

/-- The number whose big-endian bytes these are. -/
def toNat (bytes : Bytes) : Nat :=
  bytes.foldl (fun n b => n * 256 + b.toNat) 0

/-- The two's complement form of `n` in `width` bytes. -/
def ofInt (width : Nat) (n : Int) : Bytes :=
  ofNat width (n % Nat.pow 256 width).toNat

/-- The number whose two's complement form these bytes are. -/
def toInt (bytes : Bytes) : Int :=
  (bytes.toNat : Int).bmod (Nat.pow 256 bytes.length)

/-! ## UTF-8 -/

/-- The UTF-8 form of a text. -/
def ofText (s : String) : Bytes :=
  s.toUTF8.data.toList

/-- The text whose UTF-8 form these bytes are. -/
def toText? (bytes : Bytes) : Option String :=
  String.fromUTF8? ⟨bytes.toArray⟩

/-! ## Hexadecimal -/

/-- The lower-case hexadecimal digit of `n < 16`. -/
def hexDigit (n : Nat) : Char :=
  if n < 10 then Char.ofNat (48 + n) else Char.ofNat (87 + n)

/-- The value of a hexadecimal digit of either case. -/
def hexValue? (c : Char) : Option Nat :=
  if '0' ≤ c ∧ c ≤ '9' then some (c.toNat - 48)
  else if 'a' ≤ c ∧ c ≤ 'f' then some (c.toNat - 87)
  else if 'A' ≤ c ∧ c ≤ 'F' then some (c.toNat - 55)
  else none

/-- Two lower-case hexadecimal digits for every byte. -/
def toHexDigits (bytes : Bytes) : List Char :=
  bytes.flatMap fun b => [hexDigit (b.toNat / 16), hexDigit (b.toNat % 16)]

/-- Reads two hexadecimal digits for every byte. -/
def ofHexDigits? : List Char → Option Bytes
  | [] => some []
  | [_] => none
  | a :: b :: rest => do
    let high ← hexValue? a
    let low ← hexValue? b
    let bytes ← ofHexDigits? rest
    return UInt8.ofNat (high * 16 + low) :: bytes

/-- The hexadecimal spelling. -/
def toHex (bytes : Bytes) : String :=
  .ofList bytes.toHexDigits

/-- The byte string with the hexadecimal spelling `s`. -/
def ofHex? (s : String) : Option Bytes :=
  ofHexDigits? s.toList

end Bytes

end SqlBuilder
