import SqlBuilder.Wire.Encode

/-!
# Errors

Every failure is a value that names its cause; the wording lives in the `message` functions alone.
A batch that failed carries the error that stopped it and how far it had come.
-/

namespace SqlBuilder

/-- What a server says when it refuses a statement. -/
structure ServerError where
  /-- The five characters that classify the error. -/
  code : String
  message : String
  /-- The constraint that a statement violated. -/
  constraint : Option String := none
  deriving DecidableEq, Repr

/-- Why a connection has no answer to a statement. -/
inductive QueryFailure where
  | server (error : ServerError)
  | parameterCount (expected given : Nat)
  /-- The parameter with this index, counted from 0, has no form in its type. -/
  | parameter (index : Nat) (cause : Wire.EncodeError)
  /-- A text holds the character that ends texts on their way to the server. -/
  | unsendable
  | closed
  deriving DecidableEq, Repr

def QueryFailure.message : QueryFailure → String
  | .server _ => "db error"
  | .parameterCount expected given =>
    s!"expected {expected} parameters but got {given}"
  | .parameter index _ => s!"error serializing parameter {index}"
  | .unsendable => "error encoding message to server"
  | .closed => "connection closed"

/-- Why there is no connection. -/
inductive ConnectionIssue where
  | invalidString
  | noHost
  | noUrl
  /-- The numbers of hosts, addresses and ports do not fit together. -/
  | invalidConfiguration
  /-- Nobody listens. -/
  | unreachable
  /-- Encryption is required and cannot be had. -/
  | noEncryption
  /-- The login is required to be tied to an encrypted channel. -/
  | noChannelBinding
  /-- The server does not say whether its sessions only read. -/
  | unexpectedAnswer
  /-- The server's sessions are not of the required kind. -/
  | wrongAccess
  | failed (failure : QueryFailure)
  | other (text : String)
  deriving DecidableEq, Repr

def ConnectionIssue.message : ConnectionIssue → String
  | .invalidString => "invalid connection string"
  | .noHost => "no host configured (set `url` or `host`)"
  | .noUrl => "DATABASE_URL is not set"
  | .invalidConfiguration => "invalid configuration"
  | .unreachable => "error connecting to server"
  | .noEncryption => "error performing TLS handshake"
  | .noChannelBinding => "authentication error"
  | .unexpectedAnswer => "unexpected message from server"
  | .wrongAccess => "error connecting to server"
  | .failed failure => failure.message
  | .other text => text

/-- Why a column of a row cannot be read as asked. -/
inductive DecodeIssue where
  | noColumn (column : String)
  /-- The column with this index, counted from 0, holds something else. -/
  | cell (index : Nat)
  | other (text : String)
  deriving DecidableEq, Repr

def DecodeIssue.message : DecodeIssue → String
  | .noColumn column => "invalid column `" ++ column ++ "`"
  | .cell index => s!"error deserializing column {index}"
  | .other text => text

/-- What is wrong with a request before anything is sent. -/
inductive ValidationIssue where
  | unboundPlaceholder (name : String)
  /-- The placeholder for the new value of a column is bound already. -/
  | assignmentTaken (key column : String)
  | noAssignments
  | noKeyColumn
  /-- The row with this index lacks one of the columns. -/
  | incompleteRow (index : Nat) (columns : List String)
  | noUpsertKeys
  | missingUpsertKey (index : Nat) (column : String)
  | nothingToUpdate
  | logCapacity (text : String)
  | other (text : String)
  deriving DecidableEq, Repr

def ValidationIssue.message : ValidationIssue → String
  | .unboundPlaceholder name => "no value bound for placeholder :" ++ name
  | .assignmentTaken key column =>
    "SET placeholder :" ++ key ++ " for column " ++ column ++ " is already bound"
  | .noAssignments => "update requires at least one column"
  | .noKeyColumn => "find requires a key column"
  | .incompleteRow index columns =>
    "insert row " ++ toString index ++ " does not set every column ("
      ++ ", ".intercalate columns ++ ")"
  | .noUpsertKeys => "upsert requires at least one key column"
  | .missingUpsertKey index column =>
    "upsert row " ++ toString index ++ " is missing key column " ++ column
  | .nothingToUpdate => "upsert row has no columns to update"
  | .logCapacity text => "PGFLUENT_QUERY_LOG is not a number: " ++ text
  | .other text => text

/-- The failure of a database operation. -/
inductive DatabaseError where
  | connection (issue : ConnectionIssue)
  | query (failure : QueryFailure)
  | notFound (text : String)
  | uniqueViolation (text : String)
  | foreignKeyViolation (text : String)
  | checkViolation (text : String)
  | decode (column : String) (issue : DecodeIssue)
  | validation (issue : ValidationIssue)
  /-- A batch stopped after `completed` rows and was taken back. -/
  | batch (completed : Nat) (source : DatabaseError)
  deriving DecidableEq, Repr

namespace DatabaseError

def message : DatabaseError → String
  | connection issue => "Connection error: " ++ issue.message
  | query failure => "Query error: " ++ failure.message
  | notFound text => "Not found: " ++ text
  | uniqueViolation text => "Unique constraint violation: " ++ text
  | foreignKeyViolation text => "Foreign key violation: " ++ text
  | checkViolation text => "Check constraint violation: " ++ text
  | decode column issue => "Decode error on column '" ++ column ++ "': " ++ issue.message
  | validation issue => "Validation error: " ++ issue.message
  | batch completed source =>
    "Batch failed after " ++ toString completed ++ " row(s), rolled back: " ++ source.message

/-- The error behind a failed batch. -/
def source? : DatabaseError → Option DatabaseError
  | batch _ source => some source
  | _ => none

/-- How many rows a failed batch had processed. -/
def progress? : DatabaseError → Option Nat
  | batch completed _ => some completed
  | _ => none

/-- Whether a unique constraint was violated, be it inside a batch. -/
def violatesUnique : DatabaseError → Bool
  | uniqueViolation _ => true
  | batch _ source => source.violatesUnique
  | _ => false

def isMissing : DatabaseError → Bool
  | notFound _ => true
  | _ => false

/-- The error for a connection's failure: a violated constraint has a kind of its own. -/
def ofFailure : QueryFailure → DatabaseError
  | .server e =>
    let text := e.constraint.getD "unknown" ++ ": " ++ e.message
    if e.code = "23505" then uniqueViolation text
    else if e.code = "23503" then foreignKeyViolation text
    else if e.code = "23514" then checkViolation text
    else query (.server e)
  | failure => query failure

end DatabaseError

end SqlBuilder
