import SqlBuilder.Placeholder.Rendering
import SqlBuilder.Text

/-!
# Statements

SQL text with named placeholders, the values bound to them, and what the logs say about where it
came from and what it does.
-/

namespace SqlBuilder

/-! ## Kinds of statements -/

/-- What a statement does, as far as its first word tells. -/
inductive StatementKind where
  | select
  | insert
  | update
  | delete
  | transaction
  | other
  deriving DecidableEq, Repr

namespace StatementKind

/-- The words that control transactions. -/
def transactionWords : List String :=
  ["BEGIN", "COMMIT", "ROLLBACK", "SAVEPOINT", "RELEASE"]

def isAsciiLetter (c : Char) : Bool :=
  ('a' ≤ c && c ≤ 'z') || ('A' ≤ c && c ≤ 'Z')

/-- The kind by the letters behind leading blanks, in any case. -/
def ofSql (sql : String) : StatementKind :=
  let letters := (sql.toList.dropWhile Text.isBlank).takeWhile isAsciiLetter
  let word := (String.ofList letters).toUpper
  if word = "SELECT" then select
  else if word = "INSERT" then insert
  else if word = "UPDATE" then update
  else if word = "DELETE" then delete
  else if word ∈ transactionWords then transaction
  else other

def name : StatementKind → String
  | select => "SELECT"
  | insert => "INSERT"
  | update => "UPDATE"
  | delete => "DELETE"
  | transaction => "TRANSACTION"
  | other => "OTHER"

end StatementKind

/-! ## Statements -/

/-- A statement before its placeholders are numbered. -/
structure Statement where
  sql : String
  params : Bindings
  /-- The operation that made the statement. -/
  tag : String := "raw"
  /-- The table that the statement is about. -/
  table : Option String := none

namespace Statement

/-- The statement with literals for its placeholders, for reading only. -/
def literalSql (s : Statement) : String :=
  fillLiterals s.sql s.params

def kind (s : Statement) : StatementKind :=
  .ofSql s.sql

end Statement

end SqlBuilder
