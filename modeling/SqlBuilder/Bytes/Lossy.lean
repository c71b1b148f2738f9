import SqlBuilder.Bytes

/-!
# Text of any bytes

Bytes that are not UTF-8 have a text to be shown by.  A byte that begins no character, and a run of
bytes that begins one without completing it, is shown as the replacement character, so the text can
be read off in one pass that never looks back.
-/

namespace SqlBuilder.Bytes

/-- Stands for bytes that are no text. -/
def replacement : Char := '\uFFFD'

/-- A character of which some bytes are still missing. -/
structure Incomplete where
  missing : Nat
  /-- The bits of the bytes so far. -/
  value : Nat
  /-- The least byte that may come next. -/
  low : Nat
  /-- The greatest byte that may come next. -/
  high : Nat
  deriving DecidableEq, Repr

/-- What a byte shows that stands where a character begins, and the character that it begins.  The
bounds on the second byte rule out long forms of short characters, surrogates, and what lies beyond
the last character. -/
def opening (b : UInt8) : List Char × Option Incomplete :=
  let n := b.toNat
  if n < 0x80 then ([Char.ofNat n], none)
  else if n < 0xC2 then ([replacement], none)
  else if n < 0xE0 then ([], some ⟨1, n - 0xC0, 0x80, 0xBF⟩)
  else if n < 0xF0 then
    ([], some ⟨2, n - 0xE0, if n = 0xE0 then 0xA0 else 0x80, if n = 0xED then 0x9F else 0xBF⟩)
  else if n < 0xF5 then
    ([], some ⟨3, n - 0xF0, if n = 0xF0 then 0x90 else 0x80, if n = 0xF4 then 0x8F else 0xBF⟩)
  else ([replacement], none)

/-- The text of bytes behind a character that may be incomplete. -/
def lossyFrom : Option Incomplete → Bytes → List Char
  | none, [] => []
  | some _, [] => [replacement]
  | none, b :: rest => (opening b).1 ++ lossyFrom (opening b).2 rest
  | some p, b :: rest =>
    if p.low ≤ b.toNat ∧ b.toNat ≤ p.high then
      let value := p.value * 64 + (b.toNat - 0x80)
      if p.missing = 1 then Char.ofNat value :: lossyFrom none rest
      else lossyFrom (some ⟨p.missing - 1, value, 0x80, 0xBF⟩) rest
    else replacement :: (opening b).1 ++ lossyFrom (opening b).2 rest

/-- The text by which bytes are shown. -/
def toTextLossy (bytes : Bytes) : String :=
  .ofList (lossyFrom none bytes)

end SqlBuilder.Bytes
