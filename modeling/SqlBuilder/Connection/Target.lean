import SqlBuilder.Connection.IpAddress
import SqlBuilder.DatabaseError

/-!
# Where to connect

Hosts, ports, credentials and database, collected one parameter at a time.  Hosts, their numeric
addresses and ports add up to lists; every other parameter keeps its last value.  Parameters that
only tune a connection are checked and otherwise left alone.
-/

namespace SqlBuilder.Connection

/-- A server's host: a name on the network, or the directory of a socket. -/
inductive Host where
  | tcp (name : String)
  | unix (path : Bytes)
  deriving DecidableEq, Repr

/-- The host that a text names; one that begins with a slash is a directory. -/
def Host.ofText (s : String) : Host :=
  if s.toList.head? = some '/' then .unix (.ofText s) else .tcp s

/-- How much something matters to whoever connects. -/
inductive Demand where
  | disable
  | prefer
  | require
  deriving DecidableEq, Repr

def Demand.ofName? : String → Option Demand
  | "disable" => some .disable
  | "prefer" => some .prefer
  | "require" => some .require
  | _ => none

/-- Which sessions will do. -/
inductive Access where
  | any
  | readWrite
  | readOnly
  deriving DecidableEq, Repr

def Access.ofName? : String → Option Access
  | "any" => some .any
  | "read-write" => some .readWrite
  | "read-only" => some .readOnly
  | _ => none

/-- The parameters of a connection. -/
structure Target where
  hosts : List Host := []
  /-- Numeric addresses, which take the places of the hosts' names. -/
  addresses : List String := []
  ports : List Nat := []
  user : Option String := none
  password : Option Bytes := none
  dbname : Option String := none
  applicationName : Option String := none
  options : Option String := none
  encryption : Demand := .prefer
  /-- Whether the login is tied to the encrypted channel. -/
  channelBinding : Demand := .prefer
  access : Access := .any
  deriving DecidableEq, Repr

/-- Parsing stops at the first thing that is wrong; all of them have one text. -/
abbrev Parsed (α : Type) := Option α

namespace Target

/-- The port of a server that names none. -/
def defaultPort : Nat := 5432

/-- The greatest port. -/
def maxPort : Nat := 65535

def addHost (t : Target) (h : Host) : Target :=
  { t with hosts := t.hosts ++ [h] }

def addPort (t : Target) (p : Nat) : Target :=
  { t with ports := t.ports ++ [p] }

/-- The target with the addresses of a list with commas, if they are addresses. -/
def addAddresses? (t : Target) (s : String) : Parsed Target :=
  let parts := s.toList.splitOn ','
  if parts.all IpAddress.isAddress then
    some { t with addresses := t.addresses ++ parts.map String.ofList }
  else none

/-- The ports of a list with commas; an empty one is the default. -/
def portsOfText? (s : String) : Parsed (List Nat) :=
  (s.toList.splitOn ',').mapM fun cs =>
    if cs.isEmpty then some defaultPort else Number.naturalOfText? maxPort (.ofList cs)

/-- The target unchanged, if `p`. -/
def checked (t : Target) (p : Bool) : Parsed Target :=
  if p then some t else none

/-- Whether a text is a signed integer of 64 bits. -/
def isSeconds (s : String) : Bool :=
  (Number.int64OfText? s).isSome

/-- The tuning parameters that may take one of a few words. -/
def choices : List (String × List String) :=
  [("sslnegotiation", ["postgres", "direct"]), ("load_balance_hosts", ["disable", "random"])]

/-- The parameters that take a number of seconds or milliseconds. -/
def timeouts : List String :=
  ["connect_timeout", "tcp_user_timeout", "keepalives_idle", "keepalives_interval"]

/-- The target after one parameter. -/
def set? (t : Target) (key value : String) : Parsed Target :=
  if key = "user" then some { t with user := some value }
  else if key = "password" then some { t with password := some (.ofText value) }
  else if key = "dbname" then some { t with dbname := some value }
  else if key = "options" then some { t with options := some value }
  else if key = "application_name" then some { t with applicationName := some value }
  else if key = "host" then
    some ((value.toList.splitOn ',').foldl (fun t cs => t.addHost (.ofText (.ofList cs))) t)
  else if key = "hostaddr" then t.addAddresses? value
  else if key = "port" then
    (portsOfText? value).map fun ps => ps.foldl addPort t
  else if key = "sslmode" then
    (Demand.ofName? value).map fun d => { t with encryption := d }
  else if key = "channel_binding" then
    (Demand.ofName? value).map fun d => { t with channelBinding := d }
  else if key = "target_session_attrs" then
    (Access.ofName? value).map fun a => { t with access := a }
  else if key = "keepalives" then
    t.checked (Number.naturalOfText? (Nat.pow 2 64 - 1) value).isSome
  else if key = "keepalives_retries" then
    t.checked (Number.naturalOfText? (Nat.pow 2 32 - 1) value).isSome
  else if key ∈ timeouts then t.checked (isSeconds value)
  else
    match choices.lookup key with
    | some words => t.checked (words.contains value)
    | none => none

end Target

end SqlBuilder.Connection
