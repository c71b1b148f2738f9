import SqlBuilder.Statement.Basic

/-!
# The statement log

The last statements that were handed in for execution, oldest first.  The log never holds more than
its capacity; a full log gives up its oldest entry for a new one.
-/

namespace SqlBuilder

/-- One statement of the past. -/
structure LogEntry where
  /-- The statement with literals for its placeholders. -/
  literalSql : String
  sql : String
  kind : StatementKind
  tag : String
  /-- What went wrong, if anything did. -/
  error : Option String
  deriving DecidableEq, Repr

/-- A bounded list of entries. -/
structure StatementLog where
  capacity : Nat
  entries : List LogEntry
  length_le : entries.length ≤ capacity
  deriving DecidableEq

namespace StatementLog

/-- A log without entries. -/
def empty (capacity : Nat) : StatementLog :=
  ⟨capacity, [], Nat.zero_le _⟩

/-- Appends an entry and keeps the last `capacity` ones. -/
def add (log : StatementLog) (entry : LogEntry) : StatementLog :=
  ⟨log.capacity, (log.entries ++ [entry]).drop (log.entries.length + 1 - log.capacity), by
    simp only [List.length_drop, List.length_append, List.length_cons, List.length_nil]
    omega⟩

/-- A log holds the end of everything that was added. -/
theorem entries_add (log : StatementLog) (entry : LogEntry) :
    (log.add entry).entries
      = (log.entries ++ [entry]).drop ((log.entries ++ [entry]).length - log.capacity) := by
  simp [add]

@[simp]
theorem capacity_add (log : StatementLog) (entry : LogEntry) :
    (log.add entry).capacity = log.capacity := rfl

/-- Drops every entry. -/
def clear (log : StatementLog) : StatementLog :=
  empty log.capacity

def size (log : StatementLog) : Nat :=
  log.entries.length

def isEmpty (log : StatementLog) : Bool :=
  log.entries.isEmpty

end StatementLog

/-- The entry for a statement and its outcome. -/
def Statement.logEntry (s : Statement) (error : Option String) : LogEntry :=
  ⟨s.literalSql, s.sql, s.kind, s.tag, error⟩

end SqlBuilder
