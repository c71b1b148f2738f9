import SqlBuilder.Condition.Basic

/-!
# The vocabulary of conditions

The calls by which a condition is built up, as data: a comparison with a bound value, membership in
a list of literals, a test for null, text as it is with values of its own, and a nested condition.
-/

namespace SqlBuilder

/-- One call that adds to a condition. -/
inductive WhereCall where
  /-- `column operator :column` with the value bound. -/
  | compare (c : Connective) (column operator : String) (v : Value)
  /-- One equality for every pair, joined with `AND`. -/
  | all (pairs : List (String × Value))
  /-- Membership in a list of literals, or its negation. -/
  | among (c : Connective) (negated : Bool) (column : String) (values : List Value)
  /-- A test for null, or its negation. -/
  | null (c : Connective) (negated : Bool) (column : String)
  /-- Text as it is, with the values that its own placeholders need. -/
  | raw (c : Connective) (sql : String) (bindings : List (String × Value))
  /-- A nested condition. -/
  | group (c : Connective) (calls : List WhereCall)

namespace WhereCall

/-- Equality of a column and a bound value. -/
def equality (c : Connective) (column : String) (v : Value) : WhereCall :=
  .compare c column "=" v

/-- A condition that binds nothing, such as `1=1`. -/
def constant (c : Connective) (sql : String) : WhereCall :=
  .raw c sql []

end WhereCall

namespace Condition

/-- One equality for every pair, in order. -/
def addEqualities (g : Condition) (pairs : List (String × Value)) : Condition :=
  pairs.foldl (fun g p => g.addComparison .and p.1 "=" p.2) g

/-- Membership in a list of literals.  Nothing is a member of an empty list, which needs no
column. -/
def addMembership (g : Condition) (c : Connective) (negated : Bool) (column : String)
    (values : List Value) : Condition :=
  match values with
  | [] => g.add c (.raw (if negated then "1=1" else "1=0"))
  | _ => g.add c (.basic column (if negated then "NOT IN" else "IN") (.inline values))

/-- A test for null. -/
def addNullTest (g : Condition) (c : Connective) (negated : Bool) (column : String) :
    Condition :=
  g.add c (.basic column (if negated then "IS NOT NULL" else "IS NULL") .empty)

/-- Text as it is, with values bound to the names given. -/
def addText (g : Condition) (c : Connective) (sql : String) (bindings : List (String × Value)) :
    Condition :=
  (bindings.foldl (fun g p => g.bind p.1 p.2) g).add c (.raw sql)

mutual

/-- The condition after a call. -/
def apply (g : Condition) : WhereCall → Condition
  | .compare c column operator v => g.addComparison c column operator v
  | .all pairs => g.addEqualities pairs
  | .among c negated column values => g.addMembership c negated column values
  | .null c negated column => g.addNullTest c negated column
  | .raw c sql bindings => g.addText c sql bindings
  | .group c calls => g.add c (applyAll empty calls).nested

/-- The condition after calls, in order. -/
def applyAll (g : Condition) : List WhereCall → Condition
  | [] => g
  | call :: calls => applyAll (g.apply call) calls

end

end Condition

end SqlBuilder
