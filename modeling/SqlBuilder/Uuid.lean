import SqlBuilder.Bytes

/-!
# Universally unique identifiers

Sixteen bytes with four spellings: 32 hexadecimal digits; the same in groups of 8, 4, 4, 4 and 12
with hyphens between them; the groups in braces; and the groups after `urn:uuid:` in any case.
-/

namespace SqlBuilder

/-- An identifier of sixteen bytes. -/
structure Uuid where
  bytes : Bytes
  length_eq : bytes.length = 16
  deriving DecidableEq

namespace Uuid

/-- The identifier with these bytes, if there are sixteen. -/
def ofBytes? (bytes : Bytes) : Option Uuid :=
  if h : bytes.length = 16 then some ⟨bytes, h⟩ else none

/-- The lengths of the groups before the last one. -/
def groupLengths : List Nat := [8, 4, 4, 4]

/-- Puts a hyphen after each group of the given lengths. -/
def hyphenate : List Nat → List Char → List Char
  | [], cs => cs
  | n :: ns, cs => cs.take n ++ '-' :: hyphenate ns (cs.drop n)

/-- Takes out a hyphen after each group of the given lengths, if it stands there. -/
def dehyphenate? : List Nat → List Char → Option (List Char)
  | [], cs => some cs
  | n :: ns, cs =>
    match cs.drop n with
    | '-' :: rest => (dehyphenate? ns rest).map (cs.take n ++ ·)
    | _ => none

/-- The spelling in groups, in lower case. -/
def toText (u : Uuid) : String :=
  .ofList (hyphenate groupLengths u.bytes.toHexDigits)

/-- Reads 32 hexadecimal digits. -/
def ofDigits? (cs : List Char) : Option Uuid :=
  (Bytes.ofHexDigits? cs).bind ofBytes?

/-- Reads the spelling in groups. -/
def ofGroups? (cs : List Char) : Option Uuid :=
  (dehyphenate? groupLengths cs).bind ofDigits?

/-- The text before the groups in the form of a resource name. -/
def resourceMark : List Char := "urn:uuid:".toList

/-- Reads any of the four spellings. -/
def ofText? (s : String) : Option Uuid :=
  let cs := s.toList
  match cs with
  | '\x7b' :: rest =>
    if rest.getLast? = some '\x7d' then ofGroups? rest.dropLast else none
  | _ =>
    if (cs.take 9).map Char.toLower = resourceMark then ofGroups? (cs.drop 9)
    else if cs.length = 32 then ofDigits? cs
    else ofGroups? cs

end Uuid

end SqlBuilder
