import SqlBuilder.Connection.ParameterList
import SqlBuilder.Connection.Url

/-!
# Settings

How to reach the server and how the builder behaves.  The server is described by a connection
string, by single fields, or by both; a field that is set wins over what the string says.
-/

namespace SqlBuilder

open Connection

/-- The settings of a database. -/
structure Settings where
  /-- A connection string: a URL or a list of parameters. -/
  url : Option String := none
  host : Option String := none
  port : Option UInt16 := none
  dbname : Option String := none
  user : Option String := none
  password : Option String := none
  /-- Put before every table name. -/
  tablePrefix : String := ""
  /-- The column that identifies a row; without one, inserts return no keys. -/
  keyColumn : Option String := some "id"
  /-- How many statements the log keeps. -/
  logCapacity : Nat := 100
  /-- Set right after connecting, unless it is empty. -/
  clientEncoding : String := "UTF8"
  deriving DecidableEq, Repr

/-- The target that a connection string describes. -/
def Connection.Target.ofText? (s : String) : Option Target :=
  match Url.withoutScheme? s.toList with
  | some rest => Url.parse? rest
  | none => ParameterList.parse? s.toList

namespace Settings

/-- The target of the connection string alone. -/
def baseTarget (c : Settings) : Except DatabaseError Target :=
  match c.url with
  | none => .ok {}
  | some url =>
    match Target.ofText? url with
    | some t => .ok t
    | none => .error (.connection .invalidString)

/-- The target with the single fields that are set: host and port join the string's, the others take
their place. -/
def override (c : Settings) (t : Target) : Target :=
  { t with
    hosts := t.hosts ++ (c.host.map Host.ofText).toList
    ports := t.ports ++ (c.port.map UInt16.toNat).toList
    dbname := c.dbname.or t.dbname
    user := c.user.or t.user
    password := (c.password.map Bytes.ofText).or t.password }

/-- Where the settings say to connect. -/
def target (c : Settings) : Except DatabaseError Target := do
  let t := c.override (← c.baseTarget)
  if t.hosts.isEmpty then .error (.connection .noHost) else .ok t

/-- The settings that environment variables give. -/
def ofEnvironment (lookup : String → Option String) : Except DatabaseError Settings :=
  match lookup "DATABASE_URL" with
  | none => .error (.connection .noUrl)
  | some url =>
    let settings : Settings :=
      { url := some url, tablePrefix := (lookup "PGFLUENT_PREFIX").getD "" }
    match lookup "PGFLUENT_QUERY_LOG" with
    | none => .ok settings
    | some text =>
      match Number.naturalOfText? (Nat.pow 2 64 - 1) (Text.trim text) with
      | some n => .ok { settings with logCapacity := n }
      | none => .error (.validation (.logCapacity text))

end Settings

end SqlBuilder
