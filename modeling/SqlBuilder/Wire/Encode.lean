import SqlBuilder.Calendar.Reading
import SqlBuilder.Number.Decimal.OfBinary
import SqlBuilder.Uuid
import SqlBuilder.Value.Conversion
import SqlBuilder.Wire.ColumnType
import SqlBuilder.Wire.Numeric

/-!
# Binary parameters

A value is written in the binary form of the type that the server inferred for its placeholder.  A
text is read as whatever that type holds, so `"5"` is as good as `5` for an integer column; a value
that the type cannot hold faithfully is refused with the reason.
-/

namespace SqlBuilder.Wire

open Number Calendar

/-- Why a value cannot be written as a parameter of some type. -/
inductive EncodeError where
  /-- The type has no form for values of this kind. -/
  | wrongType
  /-- The integer does not fit the width of the type. -/
  | outOfRange
  | invalidInteger
  | invalidFloat
  | invalidDecimal
  | invalidJson
  | invalidUuid
  | invalidDateTime
  /-- The text, here trimmed and in lower case, is no spelling of a truth value. -/
  | invalidBoolean (spelling : String)
  deriving DecidableEq, Repr

/-- The text of an error whose reason is not clear from its kind. -/
def EncodeError.message? : EncodeError → Option String
  | .invalidBoolean spelling => some ("invalid boolean literal '" ++ spelling ++ "'")
  | _ => none

/-- Bytes of a parameter, or why there are none. -/
abbrev Encoding := Except EncodeError Bytes

namespace Encode

/-- The text of a value for a type that holds text. -/
def text (t : ColumnType) (s : String) : Encoding :=
  match t.textForm? with
  | some .plain => .ok (Bytes.ofText s)
  | some .versioned => .ok (1 :: Bytes.ofText s)
  | none => .error .wrongType

/-- The bytes of `x`, or `e` if there is nothing to write. -/
def orFail {α : Type} (e : EncodeError) (write : α → Bytes) : Option α → Encoding
  | some a => .ok (write a)
  | none => .error e

/-- An integer in `width` bytes of two's complement. -/
def signed (width : Nat) (n : Int) : Encoding :=
  if fitsSigned (8 * width) n then .ok (.ofInt width n) else .error .outOfRange

/-- A truth value. -/
def truth (b : Bool) : Bytes :=
  [if b then 1 else 0]

def single (x : Binary32) : Bytes :=
  .ofNat 4 x.bits.toNat

def double (x : Binary64) : Bytes :=
  .ofNat 8 x.bits.toNat

def int (n : Int64) : ColumnType → Encoding
  | .int2 => signed 2 n.toInt
  | .int4 => signed 4 n.toInt
  | .int8 => signed 8 n.toInt
  | .oid =>
    if 0 ≤ n.toInt ∧ n.toInt < Nat.pow 2 32 then .ok (.ofNat 4 n.toInt.toNat)
    else .error .outOfRange
  | .float4 => .ok (single (.ofInt n.toInt))
  | .float8 => .ok (double (.ofInt n.toInt))
  | .numeric => orFail .invalidDecimal Numeric.encode (Decimal.ofInt64 n)
  | .bool => .ok (truth (n ≠ 0))
  | t => text t (toString n.toInt)

def float (x : Binary64) : ColumnType → Encoding
  | .float4 => .ok (single (.ofBinary64 x))
  | .float8 => .ok (double x)
  | .numeric => orFail .invalidDecimal Numeric.encode (Decimal.ofBinary64? x)
  | t => text t x.toText

def bool (b : Bool) : ColumnType → Encoding
  | .bool => .ok (truth b)
  | t => text t (if b then "true" else "false")

/-- The text of a document in the two types for documents; one of them puts a version before it. -/
def document (j : Json) : ColumnType → Encoding
  | .json => .ok (Bytes.ofText j.toText)
  | .jsonb => .ok (1 :: Bytes.ofText j.toText)
  | t => text t j.toText

/-- The spellings of truth. -/
def trueSpellings : List String := ["t", "true", "1", "yes", "on"]

/-- The spellings of falsehood. -/
def falseSpellings : List String := ["f", "false", "0", "no", "off"]

/-- A truth value spelled out, in any case and between blanks. -/
def spelledTruth (s : String) : Encoding :=
  let spelling := (Text.trim s).toLower
  if spelling ∈ trueSpellings then .ok (truth true)
  else if spelling ∈ falseSpellings then .ok (truth false)
  else .error (.invalidBoolean spelling)

/-- A text as an integer of the type. -/
def spelledInt (s : String) (t : ColumnType) : Encoding :=
  match int64OfText? (Text.trim s) with
  | some n => int n t
  | none => .error .invalidInteger

/-- A text as a floating point number of the type. -/
def spelledFloat (s : String) (t : ColumnType) : Encoding :=
  match Binary64.ofText? (Text.trim s) with
  | some x => float x t
  | none => .error .invalidFloat

/-- A text as a document of the type. -/
def spelledDocument (s : String) (t : ColumnType) : Encoding :=
  match Json.ofText? s with
  | some j => document j t
  | none => .error .invalidJson

/-- A text as whatever the type holds. -/
def spelled (s : String) : ColumnType → Encoding
  | .int2 => spelledInt s .int2
  | .int4 => spelledInt s .int4
  | .int8 => spelledInt s .int8
  | .oid => spelledInt s .oid
  | .float4 => spelledFloat s .float4
  | .float8 => spelledFloat s .float8
  | .numeric => orFail .invalidDecimal Numeric.encode (Decimal.ofText? (Text.trim s))
  | .bool => spelledTruth s
  | .json => spelledDocument s .json
  | .jsonb => spelledDocument s .jsonb
  | .uuid => orFail .invalidUuid Uuid.bytes (Uuid.ofText? (Text.trim s))
  | .date => orFail .invalidDateTime (fun d => .ofInt 4 d.day) (Date.ofText? (Text.trim s))
  | .timestamp =>
    orFail .invalidDateTime (fun t => .ofInt 8 t.toMicros) (Timestamp.ofText? (Text.trim s))
  | .timestamptz =>
    orFail .invalidDateTime (fun t => .ofInt 8 t.toMicros)
      (Timestamp.ofUniversalText? (Text.trim s))
  | .bytea => .ok (Bytes.ofText s)
  | t =>
    match t with
    | .custom _ _ .enumeration => if t.textForm?.isSome then text t s else .ok (Bytes.ofText s)
    | _ => text t s

end Encode

/-- The binary form of a value as a parameter of type `t`, where `none` stands for SQL's `NULL`. -/
def encode (v : Value) (t : ColumnType) : Except EncodeError (Option Bytes) :=
  match v with
  | .null => .ok none
  | .bool b => (Encode.bool b t).map some
  | .int n => (Encode.int n t).map some
  | .float x => (Encode.float x t).map some
  | .text s => (Encode.spelled s t).map some
  | .json j => (Encode.document j t).map some

end SqlBuilder.Wire
