import SqlBuilder.DatabaseError
import SqlBuilder.Placeholder.Template

/-!
# Filling templates

Two renderings of a template's pieces.  For execution every placeholder becomes `$k`, numbered by
the first appearance of its name, and the bound values are listed in that order; a name without a
value is refused.  For logs every placeholder becomes the literal of its value, and `NULL` without
one.
-/

namespace SqlBuilder

namespace Placeholder

/-- The names of the placeholders, in order of appearance. -/
def names (pieces : List Piece) : List String :=
  pieces.filterMap fun
    | .copied _ => none
    | .slot name => some name

/-- The 1-based rank of `name` among the names met before, and the names met after it. -/
def rank (met : List String) (name : String) : Nat × List String :=
  match met.findIdx? (· = name) with
  | some i => (i + 1, met)
  | none => (met.length + 1, met ++ [name])

/-- The pieces with `$k` for every placeholder, given the names met before, and all names met. -/
def numbered : List String → List Piece → List Char × List String
  | met, [] => ([], met)
  | met, .copied c :: rest =>
    let (cs, met) := numbered met rest
    (c :: cs, met)
  | met, .slot name :: rest =>
    let (k, met) := rank met name
    let (cs, met) := numbered met rest
    ('$' :: (toString k).toList ++ cs, met)

/-- The values of names, or the first name without a value. -/
def valuesOf (params : Bindings) : List String → Except String (List Value)
  | [] => .ok []
  | name :: rest =>
    match params.get? name with
    | none => .error name
    | some v => (valuesOf params rest).map (v :: ·)

/-- What stands for a piece in a log. -/
def literalOf (params : Bindings) : Piece → List Char
  | .copied c => [c]
  | .slot name => ((params.get? name).map Value.literal).getD "NULL" |>.toList

end Placeholder

/-- A statement as a server takes it: numbered parameters with their values. -/
structure NumberedStatement where
  sql : String
  values : List Value

/-- The statement that a template and its values stand for. -/
def numberParameters (template : String) (params : Bindings) :
    Except DatabaseError NumberedStatement :=
  let (sql, names) := Placeholder.numbered [] (Placeholder.pieces template)
  match Placeholder.valuesOf params names with
  | .ok values => .ok ⟨.ofList sql, values⟩
  | .error name => .error (.validation (.unboundPlaceholder name))

/-- The template with every placeholder replaced by its literal, for reading only. -/
def fillLiterals (template : String) (params : Bindings) : String :=
  .ofList ((Placeholder.pieces template).flatMap (Placeholder.literalOf params))

end SqlBuilder
