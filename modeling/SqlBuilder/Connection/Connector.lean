import SqlBuilder.Client.Basic
import SqlBuilder.Connection.Target

/-!
# Places and sessions

A target names the places where a server may listen, and what a client tells a server first.  A
connector is a way to reach servers there.
-/

namespace SqlBuilder.Connection

/-! ## Places -/

/-- A place where a server may listen. -/
structure Endpoint where
  host : Host
  port : Nat
  deriving DecidableEq, Repr

namespace Target

/-- The hosts of the places: numeric addresses, where there are any, stand for the names. -/
def places (t : Target) : List Host :=
  if t.addresses.isEmpty then t.hosts else t.addresses.map .tcp

/-- The port of the place with this index: its own, else the first one, else the default. -/
def portAt (t : Target) (i : Nat) : Nat :=
  (t.ports[i]?).getD (t.ports.headD defaultPort)

/-- Whether the lists fit together: as many addresses as hosts where both are given, and at most one
port or one for each place. -/
def isConsistent (t : Target) : Bool :=
  (t.hosts.isEmpty || t.addresses.isEmpty || t.hosts.length = t.addresses.length)
    && (t.ports.length ≤ 1 || t.ports.length = t.places.length)

/-- The places to try, in order. -/
def endpoints (t : Target) : List Endpoint :=
  t.places.mapIdx fun i host => ⟨host, t.portAt i⟩

end Target

/-! ## The beginning of a session -/

/-- What a client tells a server first. -/
structure Startup where
  user : Option String
  database : Option String
  options : Option String := none
  applicationName : Option String := none
  deriving DecidableEq, Repr

def Startup.isSendable (s : Startup) : Bool :=
  [s.user, s.database, s.options, s.applicationName].all fun text =>
    text.all Connection.isSendable

def Target.startup (t : Target) : Startup :=
  ⟨t.user, t.dbname, t.options, t.applicationName⟩

/-- Whether a session will do whose setting for reading only has this value. -/
def Access.accepts (a : Access) (value : String) : Bool :=
  match a with
  | .any => true
  | .readWrite => value != "on"
  | .readOnly => value != "off"

/-- The setting that tells whether a session only reads. -/
def readOnlySetting : String := "transaction_read_only"

/-- A way to reach servers: who listens where, how a session begins, how to talk in it, and what
ended it. -/
structure Connector (σ : Type) where
  link : Link σ
  /-- Whether a server listens at a place. -/
  listens : Endpoint → σ → Bool
  /-- Begins a session, unless the server refuses. -/
  welcome : Startup → σ → Except ServerError Unit × σ
  /-- Asks for a setting of the session; there is none if the answer holds no row. -/
  setting : String → σ → Except QueryFailure (Option String) × σ
  /-- What ended the connection, once something has. -/
  ended : σ → Option String

end SqlBuilder.Connection
