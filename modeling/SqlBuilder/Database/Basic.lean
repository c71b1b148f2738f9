import SqlBuilder.Client.Basic
import SqlBuilder.Settings.Basic
import SqlBuilder.Database.Event
import SqlBuilder.Select.Step
import SqlBuilder.Statement.Log

/-!
# Databases

A database is a client with its settings.  Its operations run in a session, which holds the client's
state, the statement log and the events so far; whatever an operation's outcome, the session goes on
from where it came to.  Every statement handed in for execution leaves exactly one entry in the log.
-/

namespace SqlBuilder

/-- What operations change. -/
structure Session (σ : Type) where
  client : σ
  log : StatementLog
  /-- The events so far, oldest first. -/
  events : List Event

/-- The session that begins with a client's state. -/
def Session.new {σ : Type} (settings : Settings) (client : σ) : Session σ :=
  ⟨client, .empty settings.logCapacity, []⟩

/-- An operation: it may fail, and it changes the session in either case. -/
abbrev Action (σ α : Type) := ExceptT DatabaseError (StateM (Session σ)) α

/-- The outcome of an operation and the session after it. -/
def Action.run {σ α : Type} (a : Action σ α) (s : Session σ) : Except DatabaseError α × Session σ :=
  StateT.run (ExceptT.run a) s

namespace Action

variable {σ α β : Type}

@[simp]
theorem run_pure (a : α) (s : Session σ) : (pure a : Action σ α).run s = (.ok a, s) := rfl

@[simp]
theorem run_throw (e : DatabaseError) (s : Session σ) :
    (throw e : Action σ α).run s = (.error e, s) := rfl

/-- The second action runs in the session that the first one leaves, and only if that succeeds. -/
theorem run_bind (a : Action σ α) (f : α → Action σ β) (s : Session σ) :
    (a >>= f).run s =
      match a.run s with
      | (.ok x, s) => (f x).run s
      | (.error e, s) => (.error e, s) := by
  show (ExceptT.bindCont f (a.run s).1) (a.run s).2 = _
  rcases a.run s with ⟨_ | _, _⟩ <;> rfl

end Action

/-- A client with its settings. -/
structure Database (σ : Type) where
  client : Client σ
  settings : Settings
  /-- What ended the connection, once something has; a database that opened its connection itself
  reports it. -/
  ended : σ → Option String := fun _ => none

namespace Database

variable {σ α : Type}

/-- Reports an event. -/
def emit (e : Event) : Action σ Unit :=
  modify fun s => { s with events := s.events ++ [e] }

/-- The end of the connection, if it lies between two states. -/
def endEvents (db : Database σ) (before after : σ) : List Event :=
  match db.ended before, db.ended after with
  | none, some text => [.connectionEnded text]
  | _, _ => []

/-- Asks the client. -/
def ask (db : Database σ) (call : σ → Except DatabaseError α × σ) : Action σ α :=
  ExceptT.mk fun s =>
    let (result, client) := call s.client
    (result, { s with client := client, events := s.events ++ db.endEvents s.client client })

/-- Catches the error of an action. -/
def attempt (a : Action σ α) : Action σ (Except DatabaseError α) :=
  ExceptT.lift (ExceptT.run a)

/-- Puts a statement into the log. -/
def logOutcome (stmt : Statement) (error : Option String) : Action σ Unit :=
  modify fun s => { s with log := s.log.add (stmt.logEntry error) }

@[simp]
theorem run_emit (e : Event) (s : Session σ) :
    (emit e).run s = (.ok (), { s with events := s.events ++ [e] }) := rfl

theorem run_ask (db : Database σ) (call : σ → Except DatabaseError α × σ) (s : Session σ) :
    (db.ask call).run s =
      ((call s.client).1,
        { s with client := (call s.client).2
                 events := s.events ++ db.endEvents s.client (call s.client).2 }) := rfl

/-- A caught error leaves the session as the action left it. -/
@[simp]
theorem run_attempt (a : Action σ α) (s : Session σ) :
    (attempt a).run s = (.ok (a.run s).1, (a.run s).2) := rfl

@[simp]
theorem run_logOutcome (stmt : Statement) (error : Option String) (s : Session σ) :
    (logOutcome stmt error).run s = (.ok (), { s with log := s.log.add (stmt.logEntry error) }) :=
  rfl

/-- Reports and logs how a statement went. -/
def report (stmt : Statement) (paramCount : Nat) (result : Except DatabaseError α) :
    Action σ α := do
  match result with
  | .ok a =>
    emit (.statement stmt.kind stmt.tag paramCount stmt.sql)
    logOutcome stmt none
    return a
  | .error e =>
    emit (.statementFailed stmt.tag stmt.table stmt.literalSql e.message)
    logOutcome stmt (some e.message)
    throw e

/-- Runs a statement: numbers its placeholders, asks the client and reports the outcome.  A
statement that cannot be numbered is logged, but neither sent nor reported. -/
def perform (db : Database σ) (stmt : Statement)
    (call : String → List Value → σ → Except DatabaseError α × σ) : Action σ α := do
  match numberParameters stmt.sql stmt.params with
  | .error e =>
    logOutcome stmt (some e.message)
    throw e
  | .ok p =>
    let result ← attempt (db.ask (call p.sql p.values))
    report stmt p.values.length result

/-- Runs a statement and returns every row. -/
def rows (db : Database σ) (stmt : Statement) : Action σ (List Row) :=
  db.perform stmt db.client.query

/-- Runs a statement and returns the first row, if there is any. -/
def firstRow (db : Database σ) (stmt : Statement) : Action σ (Option Row) :=
  db.perform stmt db.client.queryFirst

/-- Runs a statement and returns how many rows it affected. -/
def execute (db : Database σ) (stmt : Statement) : Action σ Nat :=
  db.perform stmt db.client.execute

/-- Runs statements without parameters, past log and events. -/
def script (db : Database σ) (sql : String) : Action σ Unit :=
  db.ask (db.client.script sql)

/-- The statements of the log, oldest first. -/
def loggedStatements : Action σ (List LogEntry) :=
  return (← get).log.entries

/-- Empties the log. -/
def clearLog : Action σ Unit :=
  modify fun s => { s with log := s.log.clear }

/-! ## Units of work -/

/-- Opens a unit of work. -/
def openBatch (db : Database σ) : Action σ Unit := do
  emit .batchBegin
  db.ask db.client.begin

/-- Discards a unit of work; `cause` goes on as the error of a batch, whether or not that worked. -/
def dropBatch (db : Database σ) (completed : Nat) (cause : DatabaseError) : Action σ α := do
  match ← attempt (db.ask db.client.rollback) with
  | .ok _ => pure ()
  | .error e => emit (.rollbackFailed e.message)
  throw (.batch completed cause)

/-- Keeps a unit of work; if that fails it is discarded. -/
def keepBatch (db : Database σ) (completed : Nat) : Action σ Unit := do
  match ← attempt (db.ask db.client.commit) with
  | .ok _ => emit (.batchCommit completed)
  | .error e => db.dropBatch completed e

/-- Works through the items of a unit of work, stopping at the first that fails, and gathers what
they return. -/
def batchItems {ι : Type} (db : Database σ) (work : ι → Action σ α) :
    Nat → List ι → Action σ (List α)
  | _, [] => return []
  | completed, item :: rest => do
    match ← attempt (work item) with
    | .ok a => return a :: (← db.batchItems work (completed + 1) rest)
    | .error e => db.dropBatch completed e

/-- Works through items in one unit of work: either all of them are kept, or none. -/
def batch {ι : Type} (db : Database σ) (work : ι → Action σ α) (items : List ι) :
    Action σ (List α) := do
  db.openBatch
  let results ← db.batchItems work 0 items
  db.keepBatch items.length
  return results

/-! ## Queries -/

/-- The name of a table as it is written: with the prefix. -/
def tableName (db : Database σ) (name : String) : String :=
  db.settings.tablePrefix ++ name

/-- A query on a table. -/
def table (db : Database σ) (name : String) : Select :=
  { table := db.tableName name }

/-- A query on a table, built up by steps. -/
def build (db : Database σ) (name : String) (steps : List SelectStep) : Select :=
  (db.table name).applyAll db.settings.tablePrefix steps

end Database

/-- A statement about the query's table. -/
def Select.statement (q : Select) (sql : String) (params : Bindings) (tag : String) : Statement :=
  { sql := sql, params := params, tag := tag, table := some q.table }

/-- The query itself as a statement. -/
def Select.toStatement (q : Select) (tag : String) : Statement :=
  q.statement q.render q.params tag

end SqlBuilder
