/-!
# Column types

The types a server names for parameters and columns.  The types that have a binary form of their own
here are constructors; every other built-in type is known by its name only, and the types that users
define carry their schema and kind.
-/

namespace SqlBuilder.Wire

/-- What a user-defined type is. -/
inductive CustomKind where
  | simple
  | enumeration
  | domain
  deriving DecidableEq, Repr

/-- The type of a parameter or a column. -/
inductive ColumnType where
  | bool
  | int2
  | int4
  | int8
  | oid
  | float4
  | float8
  | numeric
  | json
  | jsonb
  | timestamp
  | timestamptz
  | date
  | uuid
  | bytea
  | text
  | varchar
  | bpchar
  | name
  | unknown
  /-- Any other built-in type. -/
  | builtin (typeName : String)
  | custom (schema typeName : String) (kind : CustomKind)
  deriving DecidableEq, Repr

/-- How text travels: as it is, or behind a byte that gives the version of the form. -/
inductive TextForm where
  | plain
  | versioned
  deriving DecidableEq, Repr

namespace ColumnType

/-- The built-in types with a constructor of their own. -/
def known : List (String × ColumnType) :=
  [("bool", bool), ("int2", int2), ("int4", int4), ("int8", int8), ("oid", oid),
    ("float4", float4), ("float8", float8), ("numeric", numeric), ("json", json),
    ("jsonb", jsonb), ("timestamp", timestamp), ("timestamptz", timestamptz), ("date", date),
    ("uuid", uuid), ("bytea", bytea), ("text", text), ("varchar", varchar), ("bpchar", bpchar),
    ("name", name), ("unknown", unknown)]

/-- The built-in type of a name.  An array is written `t[]` and named `_t`. -/
def ofName (s : String) : ColumnType :=
  match known.lookup s with
  | some t => t
  | none =>
    match s.toList.reverse with
    | ']' :: '[' :: item => .builtin ("_" ++ .ofList item.reverse)
    | _ => .builtin s

/-- The user-defined types that hold text, by name, with the form it takes. -/
def textTypes : List (String × TextForm) :=
  [("citext", .plain), ("ltree", .versioned), ("lquery", .versioned), ("ltxtquery", .versioned)]

/-- The form in which the type holds text, if it does. -/
def textForm? : ColumnType → Option TextForm
  | text | varchar | bpchar | name | unknown => some .plain
  | custom _ typeName _ => textTypes.lookup typeName
  | _ => none

/-- The name of the type within its schema. -/
def typeName : ColumnType → String
  | builtin n => n
  | custom _ n _ => n
  | t => ((known.find? fun p => p.2 = t).map Prod.fst).getD ""

/-- The name as a message shows it: with the schema, unless that is searched anyway. -/
def display : ColumnType → String
  | custom schema n _ => if schema = "public" ∨ schema = "pg_catalog" then n else schema ++ "." ++ n
  | t => t.typeName

end ColumnType

end SqlBuilder.Wire
