import SqlBuilder.Select.Basic
import SqlBuilder.Text

/-!
# Building queries

The steps by which a query is built up, as data, and what each does to its clause.  Table names in
joins get the configured prefix, and select expressions may ask for it.
-/

namespace SqlBuilder

/-- Which rows a join keeps. -/
inductive JoinKind where
  | inner
  | left
  deriving DecidableEq, Repr

def JoinKind.keyword : JoinKind → String
  | .inner => "INNER"
  | .left => "LEFT"

/-- One step in building a query. -/
inductive SelectStep where
  /-- Replaces the column list. -/
  | columns (names : List String)
  /-- Appends to the column list. -/
  | addColumns (names : List String)
  /-- Appends an expression that may ask for the table prefix. -/
  | expression (text : String)
  | distinct
  /-- Joins a table on a condition written as it is. -/
  | joinOn (kind : JoinKind) (table condition : String)
  /-- Adds a condition on groups, with the value as a literal. -/
  | having (c : Connective) (column operator : String) (v : Value)
  | groupBy (names : List String)
  | orderBy (column direction : String)
  | limit (n : Int)
  /-- The form `LIMIT n, m`. -/
  | limitSkip (n m : Int)
  | offset (n : Int)
  | condition (call : WhereCall)

namespace SelectStep

/-- Joins a table on a comparison. -/
def join (kind : JoinKind) (table first operator second : String) : SelectStep :=
  .joinOn kind table (first ++ " " ++ operator ++ " " ++ second)

/-- Sorts by a column, greatest first. -/
def orderByDescending (column : String) : SelectStep :=
  .orderBy column "DESC"

end SelectStep

namespace Select

/-- What stands for the table prefix in a select expression. -/
def prefixMark : String := "\x7bdb_prefix\x7d"

/-- Appends a join of a table, prefix included. -/
def addJoin (q : Select) (kind : JoinKind) (table condition : String) : Select :=
  { q with
    joins := q.joins ++
      [" " ++ kind.keyword ++ " JOIN " ++ table ++ " ON (" ++ Text.trimEnd condition ++ ")"] }

/-- Appends a fragment to the condition on groups. -/
def addHaving (q : Select) (c : Connective) (fragment : String) : Select :=
  { q with
    having :=
      if q.having.isEmpty then fragment else q.having ++ " " ++ c.keyword ++ " " ++ fragment }

/-- Gives `name` the direction: in its place if it sorts already, else behind the others. -/
def orderEntries (name direction : String) : List (String × String) → List (String × String)
  | [] => [(name, direction)]
  | (n, d) :: rest =>
    if n = name then (n, direction) :: rest else (n, d) :: orderEntries name direction rest

/-- Sorts by the first word of `column`.  A second word is its direction and wins over `direction`;
without any word nothing is sorted. -/
def sortBy (q : Select) (column direction : String) : Select :=
  match Text.words column with
  | [] => q
  | [name] => { q with ordering := orderEntries name direction.toUpper q.ordering }
  | name :: own :: _ => { q with ordering := orderEntries name own.toUpper q.ordering }

/-- The natural number equal to `n`, if `n` is not negative. -/
def natural? (n : Int) : Option Nat :=
  if 0 ≤ n then some n.toNat else none

/-- At most `n` rows; a negative number changes nothing. -/
def setLimit (q : Select) (n : Int) : Select :=
  match natural? n with
  | some n => { q with limit := some n, limitSkip := none }
  | none => q

/-- The form `LIMIT n, m`; without a positive `m` it is `LIMIT n`. -/
def setLimitSkip (q : Select) (n m : Int) : Select :=
  match natural? n with
  | some n => { q with limit := some n, limitSkip := (natural? m).filter (0 < ·) }
  | none => q

/-- Skips `n` rows; a negative number changes nothing. -/
def setOffset (q : Select) (n : Int) : Select :=
  match natural? n with
  | some n => { q with offset := some n }
  | none => q

/-- Adds to the condition. -/
def addCondition (q : Select) (call : WhereCall) : Select :=
  { q with condition := q.condition.apply call }

/-- The query after a step. -/
def apply (tablePrefix : String) (q : Select) : SelectStep → Select
  | .columns names => { q with columns := names }
  | .addColumns names => { q with columns := q.columns ++ names }
  | .expression text =>
    { q with columns := q.columns ++ [Text.replaceAll text prefixMark tablePrefix] }
  | .distinct => { q with isDistinct := true }
  | .joinOn kind table condition => q.addJoin kind (tablePrefix ++ table) condition
  | .having c column operator v =>
    q.addHaving c (column ++ " " ++ operator ++ " " ++ v.literal)
  | .groupBy names => { q with grouping := q.grouping ++ names }
  | .orderBy column direction => q.sortBy column direction
  | .limit n => q.setLimit n
  | .limitSkip n m => q.setLimitSkip n m
  | .offset n => q.setOffset n
  | .condition call => q.addCondition call

/-- The query after steps, in order. -/
def applyAll (tablePrefix : String) (q : Select) (steps : List SelectStep) : Select :=
  steps.foldl (apply tablePrefix) q

end Select

end SqlBuilder
