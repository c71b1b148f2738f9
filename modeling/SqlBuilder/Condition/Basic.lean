import SqlBuilder.Placeholder.Template

/-!
# Conditions

A condition is a list of predicates, each with the connective that joins it to what comes before,
and the values that the predicates bind.  A predicate may itself be such a list; when it is attached
its values join those of the enclosing one, so a whole tree shares one set of names.
-/

namespace SqlBuilder

/-- How a predicate is joined to the ones before it. -/
inductive Connective where
  | and
  | or
  deriving DecidableEq, Repr

def Connective.keyword : Connective → String
  | .and => "AND"
  | .or => "OR"

/-- The right-hand side of a basic predicate. -/
inductive Operand where
  /-- A placeholder. -/
  | bound (key : String)
  /-- A list of literals in parentheses. -/
  | inline (values : List Value)
  /-- Nothing, as behind `IS NULL`. -/
  | empty

/-- The text behind column and operator. -/
def Operand.render : Operand → String
  | .bound key => " :" ++ key
  | .inline values => " (" ++ ", ".intercalate (values.map Value.literal) ++ ")"
  | .empty => ""

/-- One condition. -/
inductive Predicate where
  | basic (column operator : String) (operand : Operand)
  /-- Text written as it is. -/
  | raw (sql : String)
  /-- A list in parentheses, with the values bound in it. -/
  | group (members : List (Connective × Predicate)) (params : Bindings)

/-- Writes fragments one after the other, each but the first behind its connective. -/
def joinFragments : List (Connective × String) → String
  | [] => ""
  | (_, fragment) :: rest =>
    fragment ++ String.join (rest.map fun p => " " ++ p.1.keyword ++ " " ++ p.2)

/-- A nested list stands in parentheses, unless there is nothing in it. -/
def parenthesised (inner : String) : String :=
  if inner.isEmpty then "" else "(" ++ inner ++ ")"

mutual

/-- The text of a predicate. -/
def Predicate.render : Predicate → String
  | .basic column operator operand => column ++ " " ++ operator ++ operand.render
  | .raw sql => sql
  | .group members _ => parenthesised (joinFragments (fragments members))

/-- The texts of predicates that have one, with their connectives. -/
def fragments : List (Connective × Predicate) → List (Connective × String)
  | [] => []
  | (c, p) :: rest =>
    let text := p.render
    if text.isEmpty then fragments rest else (c, text) :: fragments rest

end

mutual

/-- Whether a predicate contributes no text at all. -/
def Predicate.isEmpty : Predicate → Bool
  | .basic .. => false
  | .raw sql => sql.isEmpty
  | .group members _ => allEmpty members

/-- Whether no predicate of a list contributes any text. -/
def allEmpty : List (Connective × Predicate) → Bool
  | [] => true
  | (_, p) :: rest => p.isEmpty && allEmpty rest

end

/-- A list of predicates and the values they bind. -/
structure Condition where
  members : List (Connective × Predicate)
  params : Bindings

namespace Condition

/-- No predicates and no values. -/
def empty : Condition := ⟨[], .empty⟩

instance : Inhabited Condition := ⟨empty⟩

/-- Whether there is nothing to write. -/
def isEmpty (g : Condition) : Bool :=
  allEmpty g.members

/-- How many predicates there are, empty ones included. -/
def size (g : Condition) : Nat :=
  g.members.length

/-- The predicate that holds the list. -/
def nested (g : Condition) : Predicate :=
  .group g.members g.params

/-- The predicates with their connectives. -/
def render (g : Condition) : String :=
  joinFragments (fragments g.members)

/-- The clause of a statement: nothing, or ` WHERE` and the predicates. -/
def whereClause (g : Condition) : String :=
  let conditions := g.render
  if conditions.isEmpty then "" else " WHERE " ++ conditions

/-- Binds a value to a name. -/
def bind (g : Condition) (name : String) (v : Value) : Condition :=
  { g with params := g.params.insert name v }

/-- Appends a predicate; the values of a nested list join those of this one. -/
def add (g : Condition) (c : Connective) (p : Predicate) : Condition :=
  let params :=
    match p with
    | .group _ inner => g.params.merge inner
    | _ => g.params
  ⟨g.members ++ [(c, p)], params⟩

@[simp]
theorem members_add (g : Condition) (c : Connective) (p : Predicate) :
    (g.add c p).members = g.members ++ [(c, p)] := rfl

/-- Appends `column operator :key` and binds the value to the column's key. -/
def addComparison (g : Condition) (c : Connective) (column operator : String) (v : Value) :
    Condition :=
  let key := Placeholder.keyOf column
  (g.bind key v).add c (.basic column operator (.bound key))

@[simp]
theorem params_addComparison (g : Condition) (c : Connective) (column operator : String)
    (v : Value) :
    (g.addComparison c column operator v).params = g.params.insert (Placeholder.keyOf column) v :=
  rfl

end Condition

/-! ## Equality -/

namespace Operand

/-- Equality of operands, comparing literals as values. -/
def equals : Operand → Operand → Bool
  | bound a, bound b => a = b
  | inline xs, inline ys => xs.length = ys.length && (xs.zip ys).all fun p => p.1.equals p.2
  | empty, empty => true
  | _, _ => false

end Operand

/-- Equality of bindings, comparing values as values. -/
def Bindings.equals (m n : Bindings) : Bool :=
  m.size = n.size && (m.entries.zip n.entries).all fun p => p.1.1 = p.2.1 && p.1.2.equals p.2.2

mutual

/-- Equality of predicates. -/
def Predicate.equals : Predicate → Predicate → Bool
  | .basic c o x, .basic c' o' x' => c = c' && o = o' && x.equals x'
  | .raw s, .raw t => s = t
  | .group ms ps, .group ns qs => equalMembers ms ns && Bindings.equals ps qs
  | _, _ => false

/-- Equality of lists of predicates. -/
def equalMembers : List (Connective × Predicate) → List (Connective × Predicate) → Bool
  | [], [] => true
  | (c, p) :: ms, (d, q) :: ns => c = d && p.equals q && equalMembers ms ns
  | _, _ => false

end

/-- Equality of conditions; it fails where a value is no number, which differs from itself. -/
def Condition.equals (g h : Condition) : Bool :=
  equalMembers g.members h.members && Bindings.equals g.params h.params

end SqlBuilder
