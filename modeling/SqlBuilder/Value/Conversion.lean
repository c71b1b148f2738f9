import SqlBuilder.Value.Basic
import SqlBuilder.Calendar.Timestamp
import SqlBuilder.Json.Parser
import SqlBuilder.Number.Decimal
import SqlBuilder.Uuid

/-!
# Values of other types

Dates, timestamps, identifiers and exact decimals are kept as text in the one form that reads back
as the same thing, so nothing of them is lost on the way to a column of their type.

A value is written as the JSON document it resembles, and a document is read as the simplest value
that holds it: scalars become the value of their kind, arrays and objects stay documents.
-/

namespace SqlBuilder.Value

open Number Calendar

/-! ## Texts of other types -/

def ofDate (d : Date) : Value :=
  .text d.toText

/-- A timestamp without an offset. -/
def ofTimestamp (t : Timestamp) : Value :=
  .text t.toText

/-- A timestamp in universal time. -/
def ofInstant (t : Timestamp) : Value :=
  .text t.toUniversalText

def ofUuid (u : Uuid) : Value :=
  .text u.toText

def ofDecimal (d : Decimal) : Value :=
  .text d.toText

/-- A 32-bit floating point number, widened. -/
def ofBinary32 (x : Binary32) : Value :=
  .float x.toBinary64

/-! ## Documents -/

/-- The value that a document stands for.  An integer beyond the signed 64 bits becomes a floating
point number. -/
def ofJson : Json → Value
  | .null => .null
  | .bool b => .bool b
  | .integer n =>
    if n.value < Nat.pow 2 63 then .int (Int64.ofInt n.value) else .float (.ofInt n.value)
  | .float x => .float x
  | .string s => .text s
  | .array items => .json (.array items)
  | .object members => .json (.object members)

/-- Reads a JSON text as a value. -/
def ofDocument? (text : String) : Option Value :=
  (Json.ofText? text).map ofJson

/-- The JSON text of a value; what is no finite number is written as `null`. -/
def toDocument : Value → String
  | .null => "null"
  | .bool b => if b then "true" else "false"
  | .int n => toString n.toInt
  | .float x => Json.floatText x
  | .text s => Json.quoteText s
  | .json j => j.toText

end SqlBuilder.Value
