import SqlBuilder.Proofs.Database.Batch
import SqlBuilder.Proofs.Database.BoundValues

/-!
# Operations and their plans

Everything that can be done with a database is an `Operation`: one of the ends of a query, a
statement handed in directly, or emptying the log.  Its plan says which statements it is about, as
far as they can be written: one, those of a batch, or none.

Whatever the client answers, every operation goes by its plan (`Operation.goes`): it hands in the
statements planned, in their order, and nothing else.
-/

namespace SqlBuilder

variable {σ α β : Type}

/-! ## Operations -/

/-- The action without its result. -/
def Action.discard (a : Action σ α) : Action σ Unit :=
  a >>= fun _ => pure ()

/-- The operation on a query. -/
def Ending.run (q : Select) (db : Database σ) : Ending → Action σ Unit
  | @get α _ => (q.get α db).discard
  | @getFirst α _ => (q.getFirst α db).discard
  | @first α _ => (q.first α db).discard
  | @find α _ id => (q.find α db id).discard
  | @findBy α _ column v => (q.findBy α db column v).discard
  | @value α _ column => (q.value α db column).discard
  | .update values => (q.update db values).discard
  | .increment column amount values => (q.increment db column amount values).discard
  | .decrement column amount values => (q.decrement db column amount values).discard
  | .delete => (q.delete db).discard
  | .insertAll rows => (q.insertAll db rows).discard
  | .upsert rows keys only => (q.upsert db rows keys only).discard

/-- Something done with a database. -/
inductive Operation : Type 1 where
  | ending (q : Select) (e : Ending)
  | pluck (α : Type) [CellReader α] (q : Select) (column : String)
  | pluckBy (κ α : Type) [CellReader κ] [Ord κ] [Std.TransOrd κ] [CellReader α] (q : Select)
    (column key : String)
  | count (q : Select) (column : String)
  | least (α : Type) [CellReader α] (q : Select) (column : String)
  | greatest (α : Type) [CellReader α] (q : Select) (column : String)
  | insert (q : Select) (row : Record)
  | rows (stmt : Statement)
  | firstRow (stmt : Statement)
  | execute (stmt : Statement)
  | clearLog

def Operation.run (db : Database σ) : Operation → Action σ Unit
  | ending q e => e.run q db
  | @pluck α _ q column => (q.pluck α db column).discard
  | @pluckBy κ α _ _ _ _ q column key => (q.pluckBy κ α db column key).discard
  | count q column => (q.count db column).discard
  | @least α _ q column => (q.least α db column).discard
  | @greatest α _ q column => (q.greatest α db column).discard
  | insert q row => (q.insert db row).discard
  | rows stmt => (db.rows stmt).discard
  | firstRow stmt => (db.firstRow stmt).discard
  | execute stmt => (db.execute stmt).discard
  | clearLog => Database.clearLog

/-! ## Plans -/

/-- The statements that an operation is about, as far as they can be written. -/
inductive Plan where
  | nothing
  | single (stmt : Except DatabaseError Statement)
  | batch (stmts : List (Except DatabaseError Statement))

/-- The statements of a plan. -/
def Plan.statements : Plan → List (Except DatabaseError Statement)
  | nothing => []
  | single stmt => [stmt]
  | batch stmts => stmts

/-- Outcome, calls and attempts are what comes of the plan; an answer that cannot be read fails as
`Misread` says. -/
def Plan.Fits (Misread : DatabaseError → Prop) :
    Plan → Except DatabaseError α → List Exchange → List Attempt → Prop
  | .nothing => fun y calls attempts => (∃ x, y = .ok x) ∧ calls = [] ∧ attempts = []
  | .single stmt => OneAttempt stmt Misread
  | .batch stmts => Batched stmts

theorem Plan.Fits.map {Misread : DatabaseError → Prop} {plan : Plan} {y : Except DatabaseError α}
    {calls : List Exchange} {attempts : List Attempt} (h : plan.Fits Misread y calls attempts)
    (f : α → β) : plan.Fits Misread (y.map f) calls attempts := by
  cases plan with
  | nothing =>
      obtain ⟨⟨x, rfl⟩, hnone⟩ := h
      exact ⟨⟨f x, rfl⟩, hnone⟩
  | single stmt => exact OneAttempt.map h f
  | batch stmts => exact Batched.map h f

namespace Select

/-- The query for the row with a key. -/
def keyStatement (q : Select) (keyColumn : Option String) (id : Value) :
    Except DatabaseError Statement :=
  match keyColumn with
  | some key => .ok ((q.byColumn key id).toStatement "find")
  | none => .error (.validation .noKeyColumn)

/-- The update of the query's rows, which needs something to set. -/
def recordUpdate (q : Select) (values : Record) : Except DatabaseError Statement :=
  if values.isEmpty then .error (.validation .noAssignments)
  else q.updateStatement [] values "update"

/-- The update of the row with the keys of a record. -/
def keyedUpdate (q : Select) (plan : KeyedUpdate) : Except DatabaseError Statement :=
  (q.addCondition (.all plan.keys.entries)).recordUpdate plan.fields

def insertPlan (q : Select) (keyColumn : Option String) (rows : List Record) : Plan :=
  if rows.isEmpty then .nothing
  else
    match q.insertTemplate keyColumn rows with
    | .error e => .single (.error e)
    | .ok sql => .batch (rows.map fun row => .ok (q.statement sql (insertBindings row) "insert"))

def upsertPlan (q : Select) (keyColumn : Option String) (rows : List Record) (keys : List String)
    (only : Option (List String)) : Plan :=
  if rows.isEmpty then .nothing
  else if only = some [] then q.insertPlan keyColumn rows
  else if keys.isEmpty then .single (.error (.validation .noUpsertKeys))
  else
    match splitRecords keys only 0 rows with
    | .error e => .single (.error e)
    | .ok plans => .batch (plans.map q.keyedUpdate)

end Select

def Ending.plan (q : Select) (keyColumn : Option String) : Ending → Plan
  | @get _ _ => .single (.ok (q.toStatement "get"))
  | @getFirst _ _ => .single (.ok (q.toStatement "get_one"))
  | @first _ _ => .single (.ok ((q.setLimit 1).toStatement "first"))
  | @find _ _ id => .single (q.keyStatement keyColumn id)
  | @findBy _ _ column v => .single (.ok ((q.byColumn column v).toStatement "find"))
  | @value _ _ column =>
    .single (.ok (({ q with columns := [column] }.setLimit 1).toStatement "value"))
  | .update values => .single (q.recordUpdate values)
  | .increment column amount values =>
    .single (q.updateStatement [Select.incrementText column amount] values "increment")
  | .decrement column amount values =>
    .single (q.updateStatement [Select.incrementText column (Select.saturatingNeg amount)] values
      "increment")
  | .delete =>
    .single (.ok (q.statement ("DELETE FROM " ++ q.table ++ q.whereClause) q.params "delete"))
  | .insertAll rows => q.insertPlan keyColumn rows
  | .upsert rows keys only => q.upsertPlan keyColumn rows keys only

def Operation.plan (keyColumn : Option String) : Operation → Plan
  | ending q e => e.plan q keyColumn
  | @pluck _ _ q column => .single (.ok (q.direct column "pluck"))
  | @pluckBy _ _ _ _ _ _ q column key => .single (.ok (q.direct (key ++ ", " ++ column) "pluck"))
  | count q column => .single (.ok (q.direct ("COUNT(" ++ column ++ ")") "count"))
  | @least _ _ q column => .single (.ok (q.direct ("MIN(" ++ column ++ ")") "min"))
  | @greatest _ _ q column => .single (.ok (q.direct ("MAX(" ++ column ++ ")") "max"))
  | insert q row => q.insertPlan keyColumn [row]
  | rows stmt => .single (.ok stmt)
  | firstRow stmt => .single (.ok stmt)
  | execute stmt => .single (.ok stmt)
  | clearLog => .nothing

/-! ## Reading answers -/

/-- The error says that a cell cannot be read. -/
def DatabaseError.IsDecode : DatabaseError → Prop
  | .decode .. => True
  | _ => False

/-- Some row cannot be read, and fails with this error. -/
def RowFails (α : Type) [RowReader α] (e : DatabaseError) : Prop :=
  ∃ row, (RowReader.readRow row : Except DatabaseError α) = .error e

/-- How an operation fails over an answer. -/
def Ending.Misreads : Ending → DatabaseError → Prop
  | @get α _ => RowFails α
  | @getFirst α _ => RowFails α
  | @first α _ => RowFails α
  | @find α _ _ => RowFails α
  | @findBy α _ _ _ => RowFails α
  | _ => DatabaseError.IsDecode

def Operation.Misreads : Operation → DatabaseError → Prop
  | ending _ e => e.Misreads
  | _ => DatabaseError.IsDecode

theorem isDecode_of_cell [CellReader α] {row : Row} {i : Nat} {e : DatabaseError}
    (h : (row.cell i : Except DatabaseError α) = .error e) : e.IsDecode := by
  unfold Row.cell at h
  split at h
  · cases h
    trivial
  · split at h
    · exact nomatch h
    · cases h
      trivial

theorem exists_of_mapM_eq_error {f : α → Except DatabaseError β} {xs : List α} {e : DatabaseError}
    (h : xs.mapM f = .error e) : ∃ x ∈ xs, f x = .error e := by
  induction xs with
  | nil => exact nomatch h
  | cons x xs ih =>
      rw [List.mapM_cons] at h
      rcases bind_eq_error h with hx | ⟨y, -, h⟩
      · exact ⟨x, List.mem_cons_self, hx⟩
      rcases bind_eq_error h with hrest | ⟨ys, -, h⟩
      · obtain ⟨z, hz, hfails⟩ := ih hrest
        exact ⟨z, List.mem_cons_of_mem _ hz, hfails⟩
      · exact nomatch h

/-- Reads the first row, if there is one. -/
def readFirst (read : Row → Except DatabaseError α) : Option Row → Except DatabaseError (Option α)
  | some row => (read row).map some
  | none => .ok none

theorem exists_of_readFirst_eq_error {read : Row → Except DatabaseError α} {first : Option Row}
    {e : DatabaseError} (h : readFirst read first = .error e) : ∃ row, read row = .error e := by
  cases first with
  | none => exact nomatch h
  | some row =>
      exact ⟨row, map_eq_error_iff.mp h⟩

theorem settle_map (f : α → β) (x : Except DatabaseError α) :
    (f <$> Select.settle x : Action σ β) = Select.settle (x.map f) := by
  cases x <;> rfl

/-! ## Every operation goes by its plan -/

namespace Action.Goes

variable {c : Client σ} {Misread : DatabaseError → Prop}

theorem discard {a : Action σ α} {plan : Plan} (h : Goes c a (plan.Fits Misread)) :
    Goes c a.discard (plan.Fits Misread) := by
  refine (h.map fun _ => ()).mono ?_
  rintro y calls attempts ⟨x, rfl, hx⟩
  exact hx.map _

/-- A statement whose answer needs no reading. -/
theorem unread {a : Action σ α} {stmt : Statement} (h : Goes c a (Tried stmt)) :
    Goes c a (OneAttempt (.ok stmt) Misread) := by
  refine h.mono ?_
  rintro y calls attempts ⟨a, rfl, rfl, rfl, ha⟩
  cases y with
  | error e => exact .failed rfl ha
  | ok x => exact .answered rfl ha fun e he => nomatch he

theorem rowsOf [RowReader α] (db : Database σ) (q : Select) (tag : String) :
    Goes db.client (q.rowsOf db tag : Action σ (List α))
      (OneAttempt (.ok (q.toStatement tag)) (RowFails α)) := by
  refine (rows db _).single (fun rows => rows.mapM RowReader.readRow) (fun _ => rfl) ?_
  intro rows e h
  obtain ⟨row, -, hrow⟩ := exists_of_mapM_eq_error h
  exact ⟨row, hrow⟩

theorem rowOf [RowReader α] (db : Database σ) (q : Select) (tag : String) :
    Goes db.client (q.rowOf db tag : Action σ (Option α))
      (OneAttempt (.ok (q.toStatement tag)) (RowFails α)) := by
  refine (firstRow db _).single (readFirst RowReader.readRow) ?_ fun _ _ =>
    exists_of_readFirst_eq_error
  intro first
  cases first with
  | none => rfl
  | some row => exact settle_map some _

theorem find [RowReader α] (db : Database σ) (q : Select) (id : Value) :
    Goes db.client (q.find α db id)
      (OneAttempt (q.keyStatement db.settings.keyColumn id) (RowFails α)) := by
  unfold Select.find Select.keyStatement
  cases db.settings.keyColumn with
  | none =>
      refine (throw _).mono ?_
      rintro y calls attempts ⟨rfl, rfl, rfl⟩
      exact .unwritten rfl
  | some key => exact rowOf db (q.byColumn key id) "find"

/-- The first cell of the first row. -/
theorem firstCell [CellReader α] (db : Database σ) (stmt : Statement) :
    Goes db.client (do
        match ← db.firstRow stmt with
        | some row => some <$> Select.settle (row.cell 0)
        | none => return none : Action σ (Option α))
      (OneAttempt (.ok stmt) DatabaseError.IsDecode) := by
  refine (firstRow db stmt).single (readFirst fun row => row.cell 0) ?_ ?_
  · intro first
    cases first with
    | none => rfl
    | some row => exact settle_map some _
  · intro first e h
    obtain ⟨row, hrow⟩ := exists_of_readFirst_eq_error h
    exact isDecode_of_cell hrow

theorem pluck [CellReader α] (db : Database σ) (q : Select) (column : String) :
    Goes db.client (q.pluck α db column)
      (OneAttempt (.ok (q.direct column "pluck")) DatabaseError.IsDecode) := by
  refine (rows db _).single (fun rows => rows.mapM fun row => row.cell 0) (fun _ => rfl) ?_
  intro rows e h
  obtain ⟨row, -, hrow⟩ := exists_of_mapM_eq_error h
  exact isDecode_of_cell hrow

theorem pluckBy {κ : Type} [CellReader κ] [Ord κ] [Std.TransOrd κ] [CellReader α]
    (db : Database σ) (q : Select) (column key : String) :
    Goes db.client (q.pluckBy κ α db column key)
      (OneAttempt (.ok (q.direct (key ++ ", " ++ column) "pluck")) DatabaseError.IsDecode) := by
  let pair : Row → Except DatabaseError (κ × α) := fun row => do
    return (← row.cell 0, ← row.cell 1)
  refine (rows db _).single (fun rows => (rows.mapM pair).map SortedMap.ofList) ?_ ?_
  · intro rows
    exact settle_map _ _
  · intro rows e h
    obtain ⟨row, -, hrow⟩ := exists_of_mapM_eq_error (map_eq_error_iff.mp h)
    rcases bind_eq_error hrow with hkey | ⟨k, -, hrow⟩
    · exact isDecode_of_cell hkey
    rcases bind_eq_error hrow with hcell | ⟨x, -, hrow⟩
    · exact isDecode_of_cell hcell
    · exact nomatch hrow

theorem onlyValue [CellReader α] (db : Database σ) (stmt : Statement) :
    Goes db.client (Select.onlyValue α db stmt)
      (OneAttempt (.ok stmt) DatabaseError.IsDecode) := by
  let read : Option Row → Except DatabaseError (Option α)
    | some row => row.cell 0
    | none => .ok none
  refine (firstRow db stmt).single read ?_ ?_
  · intro first
    cases first <;> rfl
  · intro first e h
    cases first with
    | none => exact nomatch h
    | some row => exact isDecode_of_cell h

theorem count (db : Database σ) (q : Select) (column : String) :
    Goes db.client (q.count db column)
      (OneAttempt (.ok (q.direct ("COUNT(" ++ column ++ ")") "count")) DatabaseError.IsDecode) := by
  refine ((onlyValue db _).map fun n : Option Int64 => n.getD 0).mono ?_
  rintro y calls attempts ⟨x, rfl, hx⟩
  exact hx.map _

theorem increment (db : Database σ) (q : Select) (column : String) (amount : Int64)
    (values : Record) :
    Goes db.client (q.increment db column amount values)
      (OneAttempt (q.updateStatement [Select.incrementText column amount] values "increment")
        DatabaseError.IsDecode) :=
  written fun stmt _ => unread (execute db stmt)

theorem update (db : Database σ) (q : Select) (values : Record) :
    Goes db.client (q.update db values)
      (OneAttempt (q.recordUpdate values) DatabaseError.IsDecode) := by
  unfold Select.update Select.recordUpdate
  split
  · refine (throw (α := Nat) _).mono ?_
    rintro y calls attempts ⟨rfl, rfl, rfl⟩
    exact .unwritten rfl
  · exact written fun stmt _ => unread (execute db stmt)

theorem updateByKey (db : Database σ) (q : Select) (plan : Select.KeyedUpdate) :
    Goes db.client (q.updateByKey db plan)
      (OneAttempt (q.keyedUpdate plan) DatabaseError.IsDecode) :=
  update db _ plan.fields

theorem insertRow (db : Database σ) (q : Select) (sql : String) (row : Record) :
    Goes db.client (q.insertRow db sql row)
      (OneAttempt (.ok (q.statement sql (Select.insertBindings row) "insert"))
        DatabaseError.IsDecode) := by
  unfold Select.insertRow
  split
  · exact firstCell db _
  · exact (execute db _).single (fun _ => .ok none) (fun _ => rfl) fun _ _ h => nomatch h

theorem insertAll (db : Database σ) (q : Select) (rows : List Record) :
    Goes db.client (q.insertAll db rows)
      ((q.insertPlan db.settings.keyColumn rows).Fits DatabaseError.IsDecode) := by
  unfold Select.insertAll Select.insertPlan
  split
  · refine (pure []).mono ?_
    rintro y calls attempts ⟨rfl, hnone⟩
    exact ⟨⟨[], rfl⟩, hnone⟩
  · cases q.insertTemplate db.settings.keyColumn rows with
    | error e =>
        refine (throw e).mono ?_
        rintro y calls attempts ⟨rfl, rfl, rfl⟩
        exact OneAttempt.unwritten rfl
    | ok sql =>
        refine ((batch db (insertRow db q sql) rows).map (List.filterMap id)).mono ?_
        rintro y calls attempts ⟨x, rfl, hx⟩
        exact Batched.map hx _

theorem upsert (db : Database σ) (q : Select) (rows : List Record) (keys : List String)
    (only : Option (List String)) :
    Goes db.client (q.upsert db rows keys only)
      ((q.upsertPlan db.settings.keyColumn rows keys only).Fits DatabaseError.IsDecode) := by
  unfold Select.upsert Select.upsertPlan
  split
  · refine (pure 0).mono ?_
    rintro y calls attempts ⟨rfl, hnone⟩
    exact ⟨⟨0, rfl⟩, hnone⟩
  split
  · refine ((insertAll db q rows).map fun _ => rows.length).mono ?_
    rintro y calls attempts ⟨x, rfl, hx⟩
    exact hx.map _
  split
  · refine (throw (α := Nat) _).mono ?_
    rintro y calls attempts ⟨rfl, rfl, rfl⟩
    exact OneAttempt.unwritten rfl
  · cases Select.splitRecords keys only 0 rows with
    | error e =>
        refine (throw e).mono ?_
        rintro y calls attempts ⟨rfl, rfl, rfl⟩
        exact OneAttempt.unwritten rfl
    | ok plans =>
        refine ((batch db (updateByKey db q) plans).map (List.foldl (· + ·) 0)).mono ?_
        rintro y calls attempts ⟨x, rfl, hx⟩
        exact Batched.map hx _

end Action.Goes

theorem Ending.goes (db : Database σ) (q : Select) (e : Ending) :
    Action.Goes db.client (e.run q db)
      ((e.plan q db.settings.keyColumn).Fits e.Misreads) := by
  cases e with
  | get α => exact (Action.Goes.rowsOf (α := α) db q "get").discard
  | getFirst α => exact (Action.Goes.rowOf (α := α) db q "get_one").discard
  | first α => exact (Action.Goes.rowOf (α := α) db (q.setLimit 1) "first").discard
  | find α id => exact (Action.Goes.find (α := α) db q id).discard
  | findBy α column v => exact (Action.Goes.rowOf (α := α) db (q.byColumn column v) "find").discard
  | value α column => exact (Action.Goes.firstCell (α := α) db _).discard
  | update values => exact (Action.Goes.update db q values).discard
  | increment column amount values => exact (Action.Goes.increment db q column amount values).discard
  | decrement column amount values => exact (Action.Goes.increment db q column _ values).discard
  | delete => exact (Action.Goes.unread (Action.Goes.execute db _)).discard
  | insertAll rows => exact (Action.Goes.insertAll db q rows).discard
  | upsert rows keys only => exact (Action.Goes.upsert db q rows keys only).discard

/-- Every operation but emptying the log has an account by its plan. -/
theorem Operation.goes (db : Database σ) {op : Operation} (hop : op ≠ .clearLog) :
    Action.Goes db.client (op.run db)
      ((op.plan db.settings.keyColumn).Fits op.Misreads) := by
  cases op with
  | ending q e => exact e.goes db q
  | pluck α q column => exact (Action.Goes.pluck (α := α) db q column).discard
  | pluckBy κ α q column key => exact (Action.Goes.pluckBy (κ := κ) (α := α) db q column key).discard
  | count q column => exact (Action.Goes.count db q column).discard
  | least α q column => exact (Action.Goes.onlyValue (α := α) db _).discard
  | greatest α q column => exact (Action.Goes.onlyValue (α := α) db _).discard
  | insert q row =>
      refine (((Action.Goes.insertAll db q [row]).map List.head?).mono ?_).discard
      rintro y calls attempts ⟨x, rfl, hx⟩
      exact hx.map _
  | rows stmt => exact (Action.Goes.unread (Action.Goes.rows db stmt)).discard
  | firstRow stmt => exact (Action.Goes.unread (Action.Goes.firstRow db stmt)).discard
  | execute stmt => exact (Action.Goes.unread (Action.Goes.execute db stmt)).discard
  | clearLog => exact absurd rfl hop

end SqlBuilder
