import SqlBuilder.Settings.Basic
import SqlBuilder.Json.Members

/-!
# Settings as JSON documents

An object names the fields it sets, each at most once; members with other names are passed over.  An
array gives the fields in their fixed order and may stop early.  What is not set keeps its default.
-/

namespace SqlBuilder.Settings

/-- The fields in the order in which an array gives them. -/
def fieldNames : List String :=
  ["url", "host", "port", "dbname", "user", "password", "prefix", "key_column",
    "query_log_capacity", "client_encoding"]

/-- A text. -/
def textOf? : Json → Option String
  | .string s => some s
  | _ => none

/-- A text or nothing. -/
def optionalTextOf? : Json → Option (Option String)
  | .null => some none
  | .string s => some (some s)
  | _ => none

/-- A natural number up to `max`. -/
def naturalOf? (max : Nat) : Json → Option Nat
  | .integer n => if 0 ≤ n.value ∧ n.value ≤ max then some n.value.toNat else none
  | _ => none

/-- A port or nothing. -/
def optionalPortOf? : Json → Option (Option UInt16)
  | .null => some none
  | j => (naturalOf? 65535 j).map fun n => some (UInt16.ofNat n)

/-- The settings with one field set. -/
def setField? (c : Settings) (field : String) (j : Json) : Option Settings :=
  if field = "url" then (optionalTextOf? j).map fun v => { c with url := v }
  else if field = "host" then (optionalTextOf? j).map fun v => { c with host := v }
  else if field = "port" then (optionalPortOf? j).map fun v => { c with port := v }
  else if field = "dbname" then (optionalTextOf? j).map fun v => { c with dbname := v }
  else if field = "user" then (optionalTextOf? j).map fun v => { c with user := v }
  else if field = "password" then (optionalTextOf? j).map fun v => { c with password := v }
  else if field = "prefix" then (textOf? j).map fun v => { c with tablePrefix := v }
  else if field = "key_column" then (optionalTextOf? j).map fun v => { c with keyColumn := v }
  else if field = "query_log_capacity" then
    (naturalOf? (Nat.pow 2 64 - 1) j).map fun v => { c with logCapacity := v }
  else if field = "client_encoding" then (textOf? j).map fun v => { c with clientEncoding := v }
  else some c

/-- The settings that members give, none of them twice. -/
def ofMembers? (members : List (String × Json)) : Option Settings :=
  if (members.map Prod.fst).Nodup then members.foldlM (fun c m => c.setField? m.1 m.2) {} else none

/-- The settings that an array gives. -/
def ofItems? (items : List Json) : Option Settings :=
  if fieldNames.length < items.length then none
  else (fieldNames.zip items).foldlM (fun c m => c.setField? m.1 m.2) {}

/-- The settings that a document gives. -/
def ofDocument? (text : String) : Option Settings :=
  match Json.skipBlanks text.toList with
  | '\x7b' :: _ => (Json.membersOfText? (fun key => fieldNames.contains key) text).bind ofMembers?
  | _ =>
    match Json.ofText? text with
    | some (.array items) => ofItems? items
    | _ => none

end SqlBuilder.Settings
