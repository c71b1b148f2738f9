import SqlBuilder.Database.Basic

/-!
# Reading

The operations that end a query by reading.  Those that look at one column of the whole table ignore
the query's conditions, joins and limits.
-/

namespace SqlBuilder.Select

variable {σ α : Type}

/-- Continues with a result that was computed without the client. -/
def settle : Except DatabaseError α → Action σ α
  | .ok a => return a
  | .error e => throw e

/-- Reads every row of a statement. -/
def rowsOf [RowReader α] (q : Select) (db : Database σ) (tag : String) : Action σ (List α) := do
  let rows ← db.rows (q.toStatement tag)
  settle (rows.mapM RowReader.readRow)

/-- Reads the first row of a statement. -/
def rowOf [RowReader α] (q : Select) (db : Database σ) (tag : String) : Action σ (Option α) := do
  match ← db.firstRow (q.toStatement tag) with
  | some row => some <$> settle (RowReader.readRow row)
  | none => return none

/-- Every row. -/
def get (α : Type) [RowReader α] (q : Select) (db : Database σ) : Action σ (List α) :=
  q.rowsOf db "get"

/-- The first row that the statement returns. -/
def getFirst (α : Type) [RowReader α] (q : Select) (db : Database σ) : Action σ (Option α) :=
  q.rowOf db "get_one"

/-- The first row, asking for one only. -/
def first (α : Type) [RowReader α] (q : Select) (db : Database σ) : Action σ (Option α) :=
  (q.setLimit 1).rowOf db "first"

/-- The query for one row in which a column equals a value. -/
def byColumn (q : Select) (column : String) (v : Value) : Select :=
  (q.addCondition (.equality .and column v)).setLimit 1

/-- The first row in which a column equals a value. -/
def findBy (α : Type) [RowReader α] (q : Select) (db : Database σ) (column : String) (v : Value) :
    Action σ (Option α) :=
  (q.byColumn column v).rowOf db "find"

/-- The row whose key is a value. -/
def find (α : Type) [RowReader α] (q : Select) (db : Database σ) (id : Value) :
    Action σ (Option α) :=
  match db.settings.keyColumn with
  | some key => q.findBy α db key id
  | none => throw (.validation .noKeyColumn)

/-- One column of the first row. -/
def value (α : Type) [CellReader α] (q : Select) (db : Database σ) (column : String) :
    Action σ (Option α) := do
  let one := { q with columns := [column] }.setLimit 1
  match ← db.firstRow (one.toStatement "value") with
  | some row => some <$> settle (row.cell 0)
  | none => return none

/-- A statement about the whole table. -/
def direct (q : Select) (expression tag : String) : Statement :=
  q.statement ("SELECT " ++ expression ++ " FROM " ++ q.table) .empty tag

/-- One column of every row of the table. -/
def pluck (α : Type) [CellReader α] (q : Select) (db : Database σ) (column : String) :
    Action σ (List α) := do
  let rows ← db.rows (q.direct column "pluck")
  settle (rows.mapM fun row => row.cell 0)

/-- One column of every row of the table by another; of rows with one key the last counts. -/
def pluckBy (κ α : Type) [CellReader κ] [Ord κ] [Std.TransOrd κ] [CellReader α] (q : Select)
    (db : Database σ) (column key : String) : Action σ (SortedMap κ α) := do
  let rows ← db.rows (q.direct (key ++ ", " ++ column) "pluck")
  let pairs ← settle (rows.mapM fun row => do return (← row.cell 0, ← row.cell 1))
  return .ofList pairs

/-- The only value of a statement, where `NULL` counts as nothing. -/
def onlyValue (α : Type) [CellReader α] (db : Database σ) (stmt : Statement) :
    Action σ (Option α) := do
  match ← db.firstRow stmt with
  | some row => settle (row.cell 0)
  | none => return none

/-- How many rows of the table have something in a column. -/
def count (q : Select) (db : Database σ) (column : String) : Action σ Int64 := do
  let n ← onlyValue Int64 db (q.direct ("COUNT(" ++ column ++ ")") "count")
  return n.getD 0

/-- The least value of a column in the table. -/
def least (α : Type) [CellReader α] (q : Select) (db : Database σ) (column : String) :
    Action σ (Option α) :=
  onlyValue α db (q.direct ("MIN(" ++ column ++ ")") "min")

/-- The greatest value of a column in the table. -/
def greatest (α : Type) [CellReader α] (q : Select) (db : Database σ) (column : String) :
    Action σ (Option α) :=
  onlyValue α db (q.direct ("MAX(" ++ column ++ ")") "max")

end SqlBuilder.Select
