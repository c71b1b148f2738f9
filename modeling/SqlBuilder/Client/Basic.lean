import SqlBuilder.Row

/-!
# Clients

A connection answers statements and batches of statements, and changes its state by that.  A client
looks at a connection with the errors of this library and knows which commands open, keep and
discard a unit of work: a transaction of its own, or a savepoint inside the transaction of a caller.
-/

namespace SqlBuilder

/-- Whether a text can be sent: texts travel with a zero character behind them, so they cannot hold
one. -/
def Connection.isSendable (s : String) : Bool :=
  !s.toList.contains '\x00'

/-- A connection to a server whose state is a `σ`. -/
structure Connection.Link (σ : Type) where
  /-- Runs a statement and returns its rows. -/
  query : String → List Value → σ → Except QueryFailure (List Row) × σ
  /-- Runs a statement and returns how many rows it affected. -/
  execute : String → List Value → σ → Except QueryFailure Nat × σ
  /-- Runs statements without parameters. -/
  batch : String → σ → Except QueryFailure Unit × σ

/-- What a database asks of a server. -/
structure Client (σ : Type) where
  query : String → List Value → σ → Except DatabaseError (List Row) × σ
  execute : String → List Value → σ → Except DatabaseError Nat × σ
  script : String → σ → Except DatabaseError Unit × σ
  /-- Opens a unit of work. -/
  begin : σ → Except DatabaseError Unit × σ
  /-- Makes the work since `begin` permanent. -/
  commit : σ → Except DatabaseError Unit × σ
  /-- Discards the work since `begin`. -/
  rollback : σ → Except DatabaseError Unit × σ

/-- The first row, if there is any; further rows are ignored. -/
def Client.queryFirst {σ : Type} (c : Client σ) (sql : String) (values : List Value) (s : σ) :
    Except DatabaseError (Option Row) × σ :=
  let (rows, s) := c.query sql values s
  (rows.map List.head?, s)

/-- The commands around a unit of work. -/
structure BatchCommands where
  begin : String
  commit : String
  rollback : String
  deriving DecidableEq, Repr

namespace BatchCommands

/-- A transaction. -/
def transaction : BatchCommands := ⟨"BEGIN", "COMMIT", "ROLLBACK"⟩

/-- The savepoint of a unit of work inside a transaction. -/
def savepointName : String := "pgfluent_batch"

/-- A savepoint, so that a unit of work that fails undoes only itself. -/
def savepoint : BatchCommands :=
  ⟨"SAVEPOINT " ++ savepointName, "RELEASE SAVEPOINT " ++ savepointName,
    "ROLLBACK TO SAVEPOINT " ++ savepointName⟩

end BatchCommands

/-- A connection's answer with its failure turned into an error of this library. -/
def Connection.answer {σ α : Type} (a : Except QueryFailure α × σ) : Except DatabaseError α × σ :=
  (a.1.mapError DatabaseError.ofFailure, a.2)

/-- The client of a connection, with the commands for units of work. -/
def Connection.Link.client {σ : Type} (l : Link σ) (commands : BatchCommands) : Client σ where
  query sql values s := answer (l.query sql values s)
  execute sql values s := answer (l.execute sql values s)
  script sql s := answer (l.batch sql s)
  begin s := answer (l.batch commands.begin s)
  commit s := answer (l.batch commands.commit s)
  rollback s := answer (l.batch commands.rollback s)

end SqlBuilder
