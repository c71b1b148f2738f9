import SqlBuilder.Connection.Connector
import SqlBuilder.Text

/-!
# A server that answers by rules

A stand-in for a server: each rule says which texts it answers and how, and the server keeps a list
of everything it was asked.  Parameters travel in the binary form of the types that the deciding
rule names, so a value that cannot be encoded fails here as it does against a real server.  A text
that cannot be sent never arrives.
-/

namespace SqlBuilder.Scripted

open Connection Wire

/-- How the server answers texts in which `pattern` occurs. -/
structure Rule where
  pattern : String
  /-- The rule answers only the text that is its `nth` hit. -/
  nth : Option Nat := none
  /-- The types of the parameters; those not listed are text. -/
  types : List ColumnType := []
  columns : List Column := []
  rows : List (List (Option Bytes)) := []
  affected : Option Nat := none
  error : Option ServerError := none
  /-- Whether the connection ends instead of an answer. -/
  close : Bool := false

/-- What the server was asked. -/
inductive Request where
  /-- A statement, with its parameters if they could be encoded. -/
  | statement (sql : String) (params : Option (List (Option Bytes)))
  | batch (sql : String)
  deriving DecidableEq, Repr

/-- The server and the one connection to it. -/
structure Server where
  /-- The rules, each with how often it was hit. -/
  rules : List (Rule × Nat)
  /-- Where the server listens. -/
  address : Endpoint := ⟨.tcp "localhost", Target.defaultPort⟩
  /-- What an attempt to connect is refused with. -/
  refusal : Option ServerError := none
  startup : Option Startup := none
  isClosed : Bool := false
  /-- Everything asked, oldest first. -/
  seen : List Request := []

namespace Server

/-- A server with rules that were not hit yet. -/
def ofRules (rules : List Rule) : Server :=
  { rules := rules.map (·, 0) }

/-! ## Rules -/

/-- Counts a hit of every rule that the text matches. -/
def hit (rules : List (Rule × Nat)) (sql : String) : List (Rule × Nat) :=
  rules.map fun (r, n) => if Text.occursIn r.pattern.toList sql.toList then (r, n + 1) else (r, n)

/-- The rule that decides on a text, given the hits including this one. -/
def deciding? (rules : List (Rule × Nat)) (sql : String) : Option Rule :=
  (rules.find? fun (r, n) =>
      Text.occursIn r.pattern.toList sql.toList && r.nth.all (· = n)).map Prod.fst

/-- Receives a text: the rule for it, one without an answer of its own if there is none, and the
server with the hits counted. -/
def receive (s : Server) (sql : String) : Rule × Server :=
  let rules := hit s.rules sql
  ((deciding? rules sql).getD { pattern := "" }, { s with rules := rules })

/-! ## Parameters -/

/-- Where the search for numbered parameters stands. -/
inductive Scan where
  | code
  | quoted (quote : Char)
  /-- Behind a dollar sign and the digits of this number. -/
  | number (n : Nat)

/-- The greatest `n` of a parameter `$n` outside quotes, and 0 without any. -/
def highestFrom : Scan → List Char → Nat
  | .number n, [] => n
  | _, [] => 0
  | .quoted q, c :: cs => highestFrom (if c = q then .code else .quoted q) cs
  | .number n, c :: cs =>
    if Number.isDigit c then highestFrom (.number (n * 10 + (c.toNat - 48))) cs
    else Nat.max n (highestFrom (enter c) cs)
  | .code, c :: cs => highestFrom (enter c) cs
where
  /-- Where the search stands behind a character outside quotes and numbers. -/
  enter (c : Char) : Scan :=
    if c = '\'' ∨ c = '"' then .quoted c else if c = '$' then .number 0 else .code

/-- How many parameters a statement takes. -/
def parameterCount (sql : String) : Nat :=
  highestFrom .code sql.toList

/-- The parameters in the forms of their types; those from index `i` on. -/
def encodeFrom (r : Rule) : Nat → List Value → Except QueryFailure (List (Option Bytes))
  | _, [] => .ok []
  | i, v :: vs =>
    match encode v (r.types.getD i .text) with
    | .error cause => .error (.parameter i cause)
    | .ok bytes => (encodeFrom r (i + 1) vs).map (bytes :: ·)

/-! ## Answers -/

/-- Ends the connection, or refuses, if the rule says so. -/
def conclude {α : Type} (s : Server) (r : Rule) (answer : α) : Except QueryFailure α × Server :=
  if r.close then (.error .closed, { s with isClosed := true })
  else
    match r.error with
    | some e => (.error (.server e), s)
    | none => (.ok answer, s)

/-- Runs a statement; `answer` is what the deciding rule makes of it. -/
def run {α : Type} (answer : Rule → α) (sql : String) (values : List Value) (s : Server) :
    Except QueryFailure α × Server :=
  if !isSendable sql then (.error .unsendable, s)
  else if s.isClosed then (.error .closed, s)
  else
    let (r, s) := s.receive sql
    let asked (params : Option (List (Option Bytes))) : Server :=
      { s with seen := s.seen ++ [.statement sql params] }
    if parameterCount sql ≠ values.length then
      (.error (.parameterCount (parameterCount sql) values.length), asked none)
    else
      match encodeFrom r 0 values with
      | .error e => (.error e, asked none)
      | .ok params => (asked (some params)).conclude r (answer r)

/-- Runs statements without parameters. -/
def runBatch (sql : String) (s : Server) : Except QueryFailure Unit × Server :=
  if !isSendable sql then (.error .unsendable, s)
  else if s.isClosed then (.error .closed, s)
  else
    let (r, s) := s.receive sql
    let asked : Server := { s with seen := s.seen ++ [.batch sql] }
    asked.conclude r ()

/-- The connection to the server. -/
def link : Link Server where
  query := run fun r => r.rows.map (Row.mk r.columns)
  execute := run fun r => r.affected.getD 1
  batch := runBatch

/-- Begins a session, unless the server refuses. -/
def welcome (startup : Startup) (s : Server) : Except ServerError Unit × Server :=
  match s.refusal with
  | some e => (.error e, s)
  | none => (.ok (), { s with startup := some startup, isClosed := false })

/-- Asks for a setting; a batch of statements brings no rows back. -/
def setting (name : String) (s : Server) : Except QueryFailure (Option String) × Server :=
  let (result, s) := runBatch ("SHOW " ++ name) s
  (result.map fun _ => none, s)

/-- Reaches the server; a connection that it ended was closed. -/
def connector : Connector Server where
  link := link
  listens e s := e = s.address
  welcome := welcome
  setting := setting
  ended s := if s.isClosed then some QueryFailure.closed.message else none

end Server

end SqlBuilder.Scripted
