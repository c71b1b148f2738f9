import SqlBuilder.Database.Basic
import SqlBuilder.Proofs.Text.Blank

/-!
# A server with savepoints

A transaction of a server, as far as savepoints go.  Setting one keeps the data of that moment under
a name; releasing drops the newest one of a name with those set since; rolling back to the newest one
of a name restores its data and keeps it.  A statement that fails may abort the transaction, which
then takes nothing but such a rollback.

How single statements are executed is left to an `Engine`.
-/

namespace SqlBuilder

variable {δ ω α : Type}

/-! ## Commands -/

/-- A command about savepoints. -/
inductive SavepointCommand where
  | set (name : String)
  | release (name : String)
  | rollbackTo (name : String)
  deriving DecidableEq

namespace SavepointCommand

/-- The name of a savepoint, with or without the keyword. -/
def name? : List String → Option String
  | [name] | ["savepoint", name] => some name
  | _ => none

/-- The command that words in lower case stand for. -/
def ofWords? : List String → Option SavepointCommand
  | ["savepoint", name] => some (set name)
  | "release" :: rest => (name? rest).map release
  | "rollback" :: "to" :: rest => (name? rest).map rollbackTo
  | "rollback" :: "work" :: "to" :: rest => (name? rest).map rollbackTo
  | "rollback" :: "transaction" :: "to" :: rest => (name? rest).map rollbackTo
  | _ => none

/-- A character of a text in which letter case and the semicolon at the end do not matter. -/
def fold (c : Char) : Char :=
  if c = ';' then ' ' else c.toLower

/-- The command that a text stands for. -/
def ofText? (sql : String) : Option SavepointCommand :=
  ofWords? ((Text.splitBlanks (sql.toList.map fold)).map .ofList)

example : ofText? BatchCommands.savepoint.rollback = some (rollbackTo BatchCommands.savepointName) := by
  decide +kernel

end SavepointCommand

/-! ## Transactions -/

/-- What a statement brings back. -/
structure Reply where
  rows : List Row
  affected : Nat

/-- How a server executes statements.  A rollback takes back the data `δ`, but not the surroundings
`ω`: sequences, the clock, and what others do meanwhile. -/
structure Engine (δ ω : Type) where
  run : String → List Value → δ → ω → Except QueryFailure (Reply × δ) × ω
  /-- Whether a statement that fails this way aborts the transaction; not all of them get to the
  server. -/
  aborts : QueryFailure → Bool

/-- A transaction of a server. -/
structure Transaction (δ ω : Type) where
  data : δ
  surroundings : ω
  /-- The savepoints with the data of their time, newest first. -/
  savepoints : List (String × δ)
  isAborted : Bool

namespace Transaction

def abortedFailure : QueryFailure :=
  .server { code := "25P02", message :=
    "current transaction is aborted, commands ignored until end of transaction block" }

def unknownSavepoint (name : String) : QueryFailure :=
  .server { code := "3B001", message := "savepoint \"" ++ name ++ "\" does not exist" }

/-- The newest savepoint of a name and those set before it. -/
def savepointsFrom (t : Transaction δ ω) (name : String) : List (String × δ) :=
  t.savepoints.dropWhile (·.1 ≠ name)

/-- Obeys a command about savepoints. -/
def obey (t : Transaction δ ω) : SavepointCommand → Except QueryFailure Unit × Transaction δ ω
  | .set name =>
    if t.isAborted then (.error abortedFailure, t)
    else (.ok (), { t with savepoints := (name, t.data) :: t.savepoints })
  | .release name =>
    if t.isAborted then (.error abortedFailure, t)
    else
      match t.savepointsFrom name with
      | [] => (.error (unknownSavepoint name), { t with isAborted := true })
      | _ :: older => (.ok (), { t with savepoints := older })
  | .rollbackTo name =>
    match t.savepointsFrom name with
    | [] => (.error (unknownSavepoint name), { t with isAborted := true })
    | (_, data) :: older =>
      (.ok (), { t with data := data, savepoints := (name, data) :: older, isAborted := false })

end Transaction

namespace Engine

/-- Executes a statement in a transaction. -/
def submit (engine : Engine δ ω) (sql : String) (values : List Value) (t : Transaction δ ω) :
    Except QueryFailure Reply × Transaction δ ω :=
  match SavepointCommand.ofText? sql with
  | some command => ((t.obey command).1.map fun _ => ⟨[], 0⟩, (t.obey command).2)
  | none =>
    if t.isAborted then (.error Transaction.abortedFailure, t)
    else
      match engine.run sql values t.data t.surroundings with
      | (.ok (reply, data), surroundings) =>
        (.ok reply, { t with data := data, surroundings := surroundings })
      | (.error e, surroundings) =>
        (.error e, { t with surroundings := surroundings, isAborted := engine.aborts e })

/-- The connection that a transaction is worked on through. -/
def link (engine : Engine δ ω) : Connection.Link (Transaction δ ω) where
  query sql values t := ((engine.submit sql values t).1.map Reply.rows, (engine.submit sql values t).2)
  execute sql values t :=
    ((engine.submit sql values t).1.map Reply.affected, (engine.submit sql values t).2)
  batch sql t := ((engine.submit sql [] t).1.map fun _ => (), (engine.submit sql [] t).2)

/-- A database on a transaction of the caller, where batches are savepoints. -/
def database (engine : Engine δ ω) (settings : Settings) : Database (Transaction δ ω) where
  client := engine.link.client .savepoint
  settings := settings

/-- Data and surroundings after a statement, if it is executed. -/
def effect? (engine : Engine δ ω) (x : δ × ω) (stmt : Statement) : Option (δ × ω) :=
  match numberParameters stmt.sql stmt.params with
  | .error _ => none
  | .ok p =>
    match engine.run p.sql p.values x.1 x.2 with
    | (.ok (_, data), surroundings) => some (data, surroundings)
    | (.error _, _) => none

/-- Data and surroundings after statements, one after the other, if all of them are executed. -/
def effects? (engine : Engine δ ω) (stmts : List Statement) (x : δ × ω) : Option (δ × ω) :=
  stmts.foldlM engine.effect? x

end Engine

/-! ## Statements that leave savepoints alone -/

/-- The statement is not sent as a command about savepoints. -/
def Statement.LeavesSavepoints (stmt : Statement) : Prop :=
  ∀ p, numberParameters stmt.sql stmt.params = .ok p → SavepointCommand.ofText? p.sql = none

namespace SavepointCommand

theorem ofWords?_eq_none {word : String} {rest : List String}
    (hword : word ∉ ["savepoint", "release", "rollback"]) : ofWords? (word :: rest) = none := by
  unfold ofWords?
  split <;> simp_all

/-- What the statements that queries write begin with. -/
def verbs : List String := ["SELECT ", "INSERT INTO ", "UPDATE ", "DELETE FROM "]

theorem ofText?_eq_none {verb : String} (hverb : verb ∈ verbs) (rest : String) :
    ofText? (verb ++ rest) = none := by
  have hwords : ∀ (word cs : List Char), word ≠ [] → word.all (Text.isBlank · = false) = true →
      String.ofList word ∉ ["savepoint", "release", "rollback"] →
      ofWords? ((Text.splitBlanks (word ++ ' ' :: cs)).map .ofList) = none := by
    intro word cs hne hall hword
    have hblank : ∀ c ∈ word, Text.isBlank c = false := fun c hc =>
      of_decide_eq_true (List.all_eq_true.mp hall c hc)
    rw [Text.splitBlanks_append_blank hne hblank (by decide), List.map_cons]
    exact ofWords?_eq_none hword
  unfold ofText?
  rw [String.toList_append, List.map_append]
  simp only [verbs, List.mem_cons, List.not_mem_nil, or_false] at hverb
  rcases hverb with rfl | rfl | rfl | rfl
  · exact hwords "select".toList _ (by decide) (by decide) (by decide)
  · exact hwords "insert".toList _ (by decide) (by decide) (by decide)
  · exact hwords "update".toList _ (by decide) (by decide) (by decide)
  · exact hwords "delete".toList _ (by decide) (by decide) (by decide)

end SavepointCommand

/-- The statement begins as one that a query writes. -/
def Statement.BeginsWithVerb (stmt : Statement) : Prop :=
  ∃ verb ∈ SavepointCommand.verbs, ∃ rest, stmt.sql = verb ++ rest

theorem Statement.BeginsWithVerb.leavesSavepoints {stmt : Statement} (h : stmt.BeginsWithVerb) :
    stmt.LeavesSavepoints := by
  obtain ⟨verb, hverb, rest, hsql⟩ := h
  intro p hp
  have hplain : ∀ verb ∈ SavepointCommand.verbs, Placeholder.Plain verb := by
    decide +kernel
  rw [hsql] at hp
  rw [(Placeholder.numberParameters_eq_ok_iff.mp hp).sql_eq,
    Placeholder.fill_plain_append (hplain verb hverb)]
  exact SavepointCommand.ofText?_eq_none hverb _

end SqlBuilder
