import SqlBuilder.Condition.Call

/-!
# Queries

What a `SELECT` accumulates before it is written: each clause in a field of its own, so that writing
one clause never disturbs another.  A clause that was not set writes nothing, and the statement is
the clauses one after the other in fixed order.
-/

namespace SqlBuilder

/-- The parts of a `SELECT`. -/
structure Select where
  /-- The table as it is written. -/
  table : String
  /-- The column list; an empty one stands for every column. -/
  columns : List String := []
  isDistinct : Bool := false
  /-- Joins as they are written, each with a blank before it. -/
  joins : List String := []
  condition : Condition := .empty
  /-- The condition on groups as it is written. -/
  having : String := ""
  grouping : List String := []
  /-- Sort columns with their directions; the first sorts first. -/
  ordering : List (String × String) := []
  limit : Option Nat := none
  /-- The second number of the form `LIMIT n, m`. -/
  limitSkip : Option Nat := none
  offset : Option Nat := none

namespace Select

/-! ## Clauses -/

def distinctClause (q : Select) : String :=
  if q.isDistinct then "DISTINCT " else ""

def columnsClause (q : Select) : String :=
  if q.columns.isEmpty then "*" else ", ".intercalate q.columns

def joinsClause (q : Select) : String :=
  String.join q.joins

def whereClause (q : Select) : String :=
  q.condition.whereClause

def havingClause (q : Select) : String :=
  if q.having.isEmpty then "" else " HAVING " ++ q.having

def groupByClause (q : Select) : String :=
  if q.grouping.isEmpty then "" else " GROUP BY " ++ ", ".intercalate q.grouping

def orderByClause (q : Select) : String :=
  if q.ordering.isEmpty then ""
  else " ORDER BY " ++ ", ".intercalate (q.ordering.map fun p => p.1 ++ " " ++ p.2)

def limitClause (q : Select) : String :=
  match q.limit, q.limitSkip with
  | some n, some m => " LIMIT " ++ toString n ++ ", " ++ toString m
  | some n, none => " LIMIT " ++ toString n
  | none, _ => ""

def offsetClause (q : Select) : String :=
  match q.offset with
  | some n => " OFFSET " ++ toString n
  | none => ""

/-- The whole statement. -/
def render (q : Select) : String :=
  "SELECT " ++ q.distinctClause ++ q.columnsClause ++ " FROM " ++ q.table ++ q.joinsClause
    ++ q.whereClause ++ q.havingClause ++ q.groupByClause ++ q.orderByClause ++ q.limitClause
    ++ q.offsetClause

/-- The values that the condition binds. -/
def params (q : Select) : Bindings :=
  q.condition.params

/-- Equality of queries; it fails where a bound value is no number, which differs from itself. -/
def equals (q r : Select) : Bool :=
  q.table = r.table && q.columns = r.columns && q.isDistinct = r.isDistinct && q.joins = r.joins
    && q.condition.equals r.condition && q.having = r.having && q.grouping = r.grouping
    && q.ordering = r.ordering && q.limit = r.limit && q.limitSkip = r.limitSkip
    && q.offset = r.offset

end Select

end SqlBuilder
