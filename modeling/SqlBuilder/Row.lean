import SqlBuilder.DatabaseError
import SqlBuilder.Wire.Decode

/-!
# Rows

A row is a list of binary cells under the columns of its statement.  A cell is read as a type of the
caller's choice; a type states which column types it accepts, and nothing is converted between them.
-/

namespace SqlBuilder

open Number Wire

/-- A column of a result. -/
structure Column where
  name : String
  type : ColumnType
  deriving DecidableEq, Repr

/-- A row of a result; a missing cell is SQL's `NULL`. -/
structure Row where
  columns : List Column
  cells : List (Option Bytes)
  deriving DecidableEq, Repr

/-- A row by column name, as it is read and as it is handed in for writing. -/
abbrev Record := SortedMap String Value

/-! ## Cells -/

/-- The types as which a cell can be read. -/
class CellReader (α : Type) where
  /-- The column types that hold values of this type. -/
  accepts : ColumnType → Bool
  /-- The value of a cell that is there. -/
  read? : ColumnType → Bytes → Option α
  /-- The value of `NULL`, for types that have one. -/
  null? : Option α := none

instance : CellReader Value where
  accepts _ := true
  read? t raw := (decode t (some raw)).toOption
  null? := some .null

instance : CellReader Int64 where
  accepts t := t = .int8
  read? _ raw := (Decode.signed? 8 raw).map Int64.ofInt

instance : CellReader Int32 where
  accepts t := t = .int4
  read? _ raw := (Decode.signed? 4 raw).map Int32.ofInt

instance : CellReader Binary64 where
  accepts t := t = .float8
  read? _ raw := Decode.double? raw

instance : CellReader Bool where
  accepts t := t = .bool
  read? _ raw := Decode.truth? raw

instance : CellReader String where
  accepts t := t.textForm?.isSome
  read? t raw := t.textForm?.bind fun form => Decode.text? form raw

instance {α : Type} [CellReader α] : CellReader (Option α) where
  accepts := CellReader.accepts α
  read? t raw := (CellReader.read? t raw).map some
  null? := some none

/-- The value of a cell of a column, if the column holds values of the type. -/
def Column.read? {α : Type} [CellReader α] (c : Column) (cell : Option Bytes) : Option α :=
  if CellReader.accepts α c.type then
    match cell with
    | some raw => CellReader.read? c.type raw
    | none => CellReader.null?
  else none

namespace Row

/-- The value in the column with an index, counted from 0. -/
def cell {α : Type} [CellReader α] (r : Row) (i : Nat) : Except DatabaseError α :=
  match r.columns[i]? with
  | none => .error (.decode ("#" ++ toString i) (.noColumn (toString i)))
  | some c =>
    match c.read? (r.cells[i]?.join) with
    | some v => .ok v
    | none => .error (.decode c.name (.cell i))

/-- The index of a column: the first of that name, else the first whose name differs in the case of
ASCII letters only. -/
def indexOf? (r : Row) (name : String) : Option Nat :=
  (r.columns.findIdx? fun c => c.name = name).or
    (r.columns.findIdx? fun c => c.name.toLower = name.toLower)

/-- The value in the column with a name. -/
def named {α : Type} [CellReader α] (r : Row) (name : String) : Except DatabaseError α :=
  match r.indexOf? name with
  | none => .error (.decode name (.noColumn name))
  | some i =>
    match (r.columns[i]?).bind fun c => c.read? (r.cells[i]?.join) with
    | some v => .ok v
    | none => .error (.decode name (.cell i))

/-- The values of the columns from an index on, with their names. -/
def valuesFrom (r : Row) (i : Nat) : List Column → Except DatabaseError (List (String × Value))
  | [] => .ok []
  | c :: cs => do
    let v ← r.cell i
    let rest ← r.valuesFrom (i + 1) cs
    return (c.name, v) :: rest

end Row

/-! ## Whole rows -/

/-- The types that a row can be read as. -/
class RowReader (α : Type) where
  readRow : Row → Except DatabaseError α

/-- The value of a row's first column. -/
structure Single (α : Type) where
  value : α

instance : RowReader Record where
  readRow r := (r.valuesFrom 0 r.columns).map SortedMap.ofList

instance {α : Type} [CellReader α] : RowReader (Single α) where
  readRow r := return ⟨← r.cell 0⟩

instance {α β : Type} [CellReader α] [CellReader β] : RowReader (α × β) where
  readRow r := return (← r.cell 0, ← r.cell 1)

instance {α β γ : Type} [CellReader α] [CellReader β] [CellReader γ] : RowReader (α × β × γ) where
  readRow r := return (← r.cell 0, ← r.cell 1, ← r.cell 2)

instance {α β γ δ : Type} [CellReader α] [CellReader β] [CellReader γ] [CellReader δ] :
    RowReader (α × β × γ × δ) where
  readRow r := return (← r.cell 0, ← r.cell 1, ← r.cell 2, ← r.cell 3)

end SqlBuilder
