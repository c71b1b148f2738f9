import SqlBuilder.Value.Conversion
import SqlBuilder.Wire.ColumnType
import SqlBuilder.Wire.Numeric

/-!
# Binary columns

A cell is read in the binary form of its column's type.  Types that no value stands for are refused
by name, and bytes that are no form of the type are refused as such.
-/

namespace SqlBuilder.Wire

open Number Calendar

/-- Why a cell cannot be read. -/
inductive DecodeError where
  | unsupportedType (t : ColumnType)
  | badBytes
  deriving DecidableEq, Repr

/-- The text of an error whose reason is not clear from its kind. -/
def DecodeError.message? : DecodeError → Option String
  | .unsupportedType t => some ("unsupported column type '" ++ t.display ++ "'")
  | .badBytes => none

namespace Decode

/-- The bytes, if there are exactly `width` of them. -/
def exactly? (width : Nat) (raw : Bytes) : Option Bytes :=
  if raw.length = width then some raw else none

/-- An integer in `width` bytes of two's complement. -/
def signed? (width : Nat) (raw : Bytes) : Option Int :=
  (exactly? width raw).map Bytes.toInt

/-- A number in `width` bytes. -/
def unsigned? (width : Nat) (raw : Bytes) : Option Nat :=
  (exactly? width raw).map Bytes.toNat

def truth? : Bytes → Option Bool
  | [b] => some (b ≠ 0)
  | _ => none

def double? (raw : Bytes) : Option Binary64 :=
  (unsigned? 8 raw).map .ofBits

def single? (raw : Bytes) : Option Binary32 :=
  (unsigned? 4 raw).map .ofBits

/-- A document as text. -/
def document? (raw : Bytes) : Option Json :=
  raw.toText?.bind Json.ofText?

/-- What stands behind the version byte. -/
def behindVersion? : Bytes → Option Bytes
  | 1 :: rest => some rest
  | _ => none

/-- A text in one of its forms. -/
def text? (form : TextForm) (raw : Bytes) : Option String :=
  match form with
  | .plain => raw.toText?
  | .versioned => (behindVersion? raw).bind Bytes.toText?

/-- The value that the bytes of a cell stand for. -/
def cell (t : ColumnType) (raw : Bytes) : Except DecodeError Value :=
  let read (v : Option Value) : Except DecodeError Value :=
    match v with
    | some v => .ok v
    | none => .error .badBytes
  match t with
  | .bool => read ((truth? raw).map .bool)
  | .int2 => read ((signed? 2 raw).map fun n => .int (.ofInt n))
  | .int4 => read ((signed? 4 raw).map fun n => .int (.ofInt n))
  | .int8 => read ((signed? 8 raw).map fun n => .int (.ofInt n))
  | .oid => read ((unsigned? 4 raw).map fun n => .int (.ofInt n))
  | .float4 => read ((single? raw).map .ofBinary32)
  | .float8 => read ((double? raw).map .float)
  | .numeric => read ((Numeric.decode? raw).map .ofDecimal)
  | .json => read ((document? raw).map .json)
  | .jsonb => read (((behindVersion? raw).bind document?).map .json)
  | .timestamp => read (((signed? 8 raw).bind Timestamp.ofMicros?).map .ofTimestamp)
  | .timestamptz => read (((signed? 8 raw).bind Timestamp.ofMicros?).map .ofInstant)
  | .date => read (((signed? 4 raw).bind Date.ofDay?).map .ofDate)
  | .uuid => read ((Uuid.ofBytes? raw).map .ofUuid)
  | t =>
    match t.textForm? with
    | some form => read ((text? form raw).map .text)
    | none => .error (.unsupportedType t)

end Decode

/-- The value of a cell of type `t`, where `none` stands for SQL's `NULL`. -/
def decode (t : ColumnType) : Option Bytes → Except DecodeError Value
  | none => .ok .null
  | some raw => Decode.cell t raw

end SqlBuilder.Wire
