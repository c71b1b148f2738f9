import SqlBuilder.Database.Read

/-!
# Writing

The operations that end a query by writing.  An insertion or an update of several rows is one unit
of work.  New values are bound beside the values of the condition under names of their own, and a
name that is taken is refused rather than overwritten.
-/

namespace SqlBuilder.Select

variable {σ : Type}

/-! ## Insertion -/

/-- The columns that any of the records sets, ascending. -/
def columnsOf (rows : List Record) : List String :=
  (rows.foldl (fun m row => m.merge (SortedMap.ofList (row.keys.map (·, ())))) .empty :
    SortedMap String Unit).keys

/-- The statement that inserts one row: every record must set every column. -/
def insertTemplate (q : Select) (keyColumn : Option String) (rows : List Record) :
    Except DatabaseError String :=
  let columns := columnsOf rows
  match rows.findIdx? fun row => row.size != columns.length with
  | some i => .error (.validation (.incompleteRow i columns))
  | none =>
    let body :=
      if columns.isEmpty then "INSERT INTO " ++ q.table ++ " DEFAULT VALUES"
      else
        "INSERT INTO " ++ q.table ++ " (" ++ ", ".intercalate columns ++ ") VALUES ("
          ++ ", ".intercalate (columns.map fun c => ":" ++ Placeholder.keyOf c) ++ ")"
    .ok (match keyColumn with
      | some key => body ++ " RETURNING " ++ key
      | none => body)

/-- The values of a record by placeholder. -/
def insertBindings (row : Record) : Bindings :=
  .ofList (row.entries.map fun e => (Placeholder.keyOf e.1, e.2))

/-- Inserts one row and returns its key, if keys are asked for and the server sends one. -/
def insertRow (q : Select) (db : Database σ) (sql : String) (row : Record) :
    Action σ (Option Value) := do
  let stmt := q.statement sql (insertBindings row) "insert"
  if db.settings.keyColumn.isSome then
    match ← db.firstRow stmt with
    | some row => some <$> settle (row.cell 0)
    | none => return none
  else
    let _ ← db.execute stmt
    return none

/-- Inserts records in one unit of work and returns the keys that the server sent. -/
def insertAll (q : Select) (db : Database σ) (rows : List Record) : Action σ (List Value) := do
  if rows.isEmpty then return []
  let sql ← settle (q.insertTemplate db.settings.keyColumn rows)
  let keys ← db.batch (q.insertRow db sql) rows
  return keys.filterMap id

/-- Inserts one record and returns its key. -/
def insert (q : Select) (db : Database σ) (row : Record) : Action σ (Option Value) :=
  return (← q.insertAll db [row]).head?

/-! ## Update -/

/-- The placeholder for the new value of a column. -/
def assignmentKey (column : String) : String :=
  "set_" ++ Placeholder.keyOf column

/-- Binds new values beside those bound already, and lists the assignments. -/
def assignments : Bindings → List (String × Value) → Except DatabaseError (Bindings × List String)
  | params, [] => .ok (params, [])
  | params, (column, v) :: rest =>
    let key := assignmentKey column
    if params.contains key then .error (.validation (.assignmentTaken key column))
    else
      (assignments (params.insert key v) rest).map fun (params, texts) =>
        (params, (column ++ " = :" ++ key) :: texts)

/-- The update of the query's rows by the assignments written out and those of a record. -/
def updateStatement (q : Select) (written : List String) (values : Record) (tag : String) :
    Except DatabaseError Statement :=
  (assignments q.params values.entries).map fun (params, texts) =>
    q.statement
      ("UPDATE " ++ q.table ++ " SET " ++ ", ".intercalate (written ++ texts) ++ q.whereClause)
      params tag

/-- Sets columns of the query's rows and returns how many there were. -/
def update (q : Select) (db : Database σ) (values : Record) : Action σ Nat := do
  if values.isEmpty then throw (.validation .noAssignments)
  db.execute (← settle (q.updateStatement [] values "update"))

/-- The assignment that adds an amount to a column, taking a negative value as zero. -/
def incrementText (column : String) (amount : Int64) : String :=
  column ++ " = CASE WHEN " ++ column ++ " >= 0 THEN " ++ column ++ " + " ++ toString amount.toInt
    ++ " ELSE 0 END"

/-- Adds an amount to a column of the query's rows, setting other columns at the same time. -/
def increment (q : Select) (db : Database σ) (column : String) (amount : Int64) (values : Record) :
    Action σ Nat := do
  db.execute (← settle (q.updateStatement [incrementText column amount] values "increment"))

/-- The negative of a number; the greatest number for the least, whose negative does not fit. -/
def saturatingNeg (n : Int64) : Int64 :=
  if n = Int64.minValue then Int64.maxValue else -n

/-- Subtracts an amount. -/
def decrement (q : Select) (db : Database σ) (column : String) (amount : Int64) (values : Record) :
    Action σ Nat :=
  q.increment db column (saturatingNeg amount) values

/-! ## Update by key -/

/-- A record split into the columns that identify its row and those to set. -/
structure KeyedUpdate where
  keys : Record
  fields : Record

/-- Splits the record with an index: every key column must be there, and something else to set. -/
def splitRecord (keys : List String) (only : Option (List String)) (index : Nat) (row : Record) :
    Except DatabaseError KeyedUpdate :=
  match keys.find? fun key => !row.contains key with
  | some missing => .error (.validation (.missingUpsertKey index missing))
  | none =>
    let isField (column : String) : Bool :=
      !keys.contains column && (only.map fun cs => cs.contains column).getD true
    let fields := row.filterKeys isField
    if fields.isEmpty then .error (.validation .nothingToUpdate)
    else .ok ⟨row.filterKeys keys.contains, fields⟩

/-- Splits records, of which the first has the given index. -/
def splitRecords (keys : List String) (only : Option (List String)) :
    Nat → List Record → Except DatabaseError (List KeyedUpdate)
  | _, [] => .ok []
  | i, row :: rest => do
    let plan ← splitRecord keys only i row
    return plan :: (← splitRecords keys only (i + 1) rest)

/-- Updates the row that a plan identifies, within the query's condition. -/
def updateByKey (q : Select) (db : Database σ) (plan : KeyedUpdate) : Action σ Nat :=
  (q.addCondition (.all plan.keys.entries)).update db plan.fields

/-- Updates one row for every record, found by its key columns, in one unit of work, and returns how
many rows were affected.  `only` narrows the columns to set; if it is an empty list the records are
inserted instead.

Counts are natural numbers here.  A sum that does not fit in 64 bits is out of scope. -/
def upsert (q : Select) (db : Database σ) (rows : List Record) (keys : List String)
    (only : Option (List String)) : Action σ Nat := do
  if rows.isEmpty then return 0
  if only = some [] then
    let _ ← q.insertAll db rows
    return rows.length
  if keys.isEmpty then throw (.validation .noUpsertKeys)
  let plans ← settle (splitRecords keys only 0 rows)
  let counts ← db.batch (q.updateByKey db) plans
  return counts.foldl (· + ·) 0

/-! ## Deletion -/

/-- Deletes the query's rows and returns how many there were. -/
def delete (q : Select) (db : Database σ) : Action σ Nat :=
  db.execute (q.statement ("DELETE FROM " ++ q.table ++ q.whereClause) q.params "delete")

end SqlBuilder.Select
