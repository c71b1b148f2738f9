import SqlBuilder.Connection.Connector
import SqlBuilder.Database.Read

/-!
# Opening a database

The places of a target are tried in order, and the first one where a session begins is taken; if
there is none, the last place's reason stands for all.  Nothing is encrypted here, so a target that
requires encryption, or a login tied to it, is never served.

A connection is opened to where the settings say, and the encoding that they name is set before the
database is handed out.  Whatever goes wrong on the way is an error of the connection.
-/

namespace SqlBuilder

/-! ## Opening a connection -/

namespace Connection.Connector

variable {σ : Type}

/-- Asks whether the session is of the kind that the target wants. -/
def checkAccess (c : Connector σ) (a : Access) (s : σ) : Except ConnectionIssue Unit × σ :=
  if a = .any then (.ok (), s)
  else
    match c.setting readOnlySetting s with
    | (.error failure, s) => (.error (.failed failure), s)
    | (.ok none, s) => (.error .unexpectedAnswer, s)
    | (.ok (some value), s) => (if a.accepts value then .ok () else .error .wrongAccess, s)

/-- Begins a session at one place. -/
def attempt (c : Connector σ) (t : Target) (e : Endpoint) (s : σ) :
    Except ConnectionIssue Unit × σ :=
  if !c.listens e s then (.error .unreachable, s)
  else if t.encryption = .require then (.error .noEncryption, s)
  else if !t.startup.isSendable then (.error (.failed .unsendable), s)
  else
    match c.welcome t.startup s with
    | (.error e, s) => (.error (.failed (.server e)), s)
    | (.ok _, s) =>
      if t.channelBinding = .require then (.error .noChannelBinding, s)
      else c.checkAccess t.access s

/-- Begins a session at the first place that allows it; `issue` is why there was none so far. -/
def attemptAny (c : Connector σ) (t : Target) (issue : ConnectionIssue) :
    List Endpoint → σ → Except ConnectionIssue Unit × σ
  | [], s => (.error issue, s)
  | e :: rest, s =>
    match c.attempt t e s with
    | (.ok _, s) => (.ok (), s)
    | (.error issue, s) => c.attemptAny t issue rest s

/-- Opens a connection to a target. -/
def establish (c : Connector σ) (t : Target) (s : σ) : Except ConnectionIssue Unit × σ :=
  if t.isConsistent then c.attemptAny t .invalidConfiguration t.endpoints s
  else (.error .invalidConfiguration, s)

end Connection.Connector

/-! ## Handing out the database -/

open Connection

/-- The statement that sets the encoding, with the quotes in its name doubled. -/
def Settings.encodingSql (c : Settings) : String :=
  "SET client_encoding = " ++ Value.quoted c.clientEncoding

/-- Sets the encoding that the settings name. -/
def Connection.Connector.setEncoding {σ : Type} (connector : Connector σ) (settings : Settings)
    (s : σ) : Except ConnectionIssue Unit × σ :=
  if settings.clientEncoding.isEmpty then (.ok (), s)
  else
    let (result, s) := connector.link.batch settings.encodingSql s
    (result.mapError .failed, s)

/-- A step of opening a connection, with its failure turned into an error of this library. -/
def Connection.opening {σ : Type} (step : σ → Except ConnectionIssue Unit × σ) (s : σ) :
    Except DatabaseError Unit × σ :=
  let (result, s) := step s
  (result.mapError .connection, s)

/-- Opens a database with the given settings.  From then on it reports when its connection ends. -/
def Database.connect {σ : Type} (connector : Connector σ) (settings : Settings) :
    Action σ (Database σ) := do
  let target ← Select.settle settings.target
  let client := connector.link.client .transaction
  let unopened : Database σ := { client := client, settings := settings }
  unopened.ask (opening (connector.establish target))
  let db : Database σ := { unopened with ended := connector.ended }
  db.ask (opening (connector.setEncoding settings))
  return db

end SqlBuilder
