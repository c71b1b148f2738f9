import SqlBuilder.Statement.Basic

/-!
# Events

What a database reports while it works, for whoever listens.
-/

namespace SqlBuilder

/-- How serious an event is. -/
inductive EventLevel where
  | debug
  | warn
  | error
  deriving DecidableEq, Repr

def EventLevel.name : EventLevel → String
  | .debug => "DEBUG"
  | .warn => "WARN"
  | .error => "ERROR"

/-- Something that happened. -/
inductive Event where
  | statement (kind : StatementKind) (tag : String) (paramCount : Nat) (sql : String)
  | statementFailed (tag : String) (table : Option String) (sql error : String)
  | batchBegin
  | batchCommit (completed : Nat)
  | rollbackFailed (error : String)
  | connectionEnded (error : String)
  deriving DecidableEq, Repr

namespace Event

def level : Event → EventLevel
  | statement .. => .debug
  | statementFailed .. => .error
  | batchBegin => .debug
  | batchCommit _ => .debug
  | rollbackFailed _ => .warn
  | connectionEnded _ => .error

/-- The text of an event that its fields do not tell. -/
def message? : Event → Option String
  | statement .. => none
  | statementFailed .. => some "statement failed"
  | batchBegin => some "batch begin"
  | batchCommit _ => some "batch commit"
  | rollbackFailed _ => some "batch rollback failed"
  | connectionEnded _ => some "connection closed with error"

/-- What an event shows for a statement without a table. -/
def tableText (table : Option String) : String :=
  table.getD "-"

end Event

end SqlBuilder
