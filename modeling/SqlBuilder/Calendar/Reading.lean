import SqlBuilder.Calendar.Timestamp
import SqlBuilder.Text

/-!
# Reading dates and timestamps

Readers take characters from the front and hand back the rest.  Three forms are read: a date, a date
and time without an offset, and the internet form with an offset.  The internet form is strict about
the number of digits where the other two allow blanks and single digits; a lax reader of it allows
them as well.
-/

namespace SqlBuilder.Calendar

open Number (isDigit digitsValue)

/-- A reader takes a value off the front of a text. -/
abbrev Reader (α : Type) := StateT (List Char) Option α

namespace Reader

/-- Skips blanks. -/
def blanks : Reader Unit :=
  modify (·.dropWhile Text.isBlank)

/-- Takes exactly the character `c`. -/
def char (c : Char) : Reader Unit := fun cs =>
  match cs with
  | d :: rest => if c = d then some ((), rest) else none
  | [] => none

/-- Takes one of the characters in `choices`. -/
def oneOf (choices : List Char) : Reader Char := fun cs =>
  match cs with
  | d :: rest => if d ∈ choices then some (d, rest) else none
  | [] => none

/-- Takes between `least` and `most` digits, as many as there are. -/
def digits (least most : Nat) : Reader (List Char) := fun cs =>
  let ds := (cs.take most).takeWhile isDigit
  if ds.length < least then none else some (ds, cs.drop ds.length)

/-- Takes a number of `least` to `most` digits. -/
def number (least most : Nat) : Reader Nat :=
  return digitsValue (← digits least most)

/-- Fails unless `p`. -/
def require (p : Bool) : Reader Unit :=
  if p then pure () else failure

/-- A year: up to four digits, or a sign and any number of digits. -/
def year : Reader Int := fun cs =>
  match cs with
  | '-' :: rest => (number 1 rest.length rest).map fun (n, rest) => (-(n : Int), rest)
  | '+' :: rest => (number 1 rest.length rest).map fun (n, rest) => ((n : Int), rest)
  | cs => (number 1 4 cs).map fun (n, rest) => ((n : Int), rest)

/-- A civil date that exists and is in range. -/
def existing (year : Int) (month day : Nat) : Reader Date :=
  fun cs => (Date.ofCivil? ⟨year, month, day⟩).map (·, cs)

/-- The fraction of a second, if a point follows: at least one digit, of which nine count. -/
def fraction : Reader Nat := fun cs =>
  match cs with
  | '.' :: rest =>
    let ds := rest.takeWhile isDigit
    if ds.isEmpty then none
    else
      let kept := ds.take 9
      some (digitsValue kept * Nat.pow 10 (9 - kept.length), rest.drop ds.length)
  | cs => some (0, cs)

/-- A number of one or two digits after optional blanks. -/
def field : Reader Nat := do
  blanks
  number 1 2

/-- Second of the day and nanosecond of a time of day whose second may be the 60th. -/
def timeOfDay (hour minute second nano : Nat) : Reader (Nat × Nat) := do
  require (hour ≤ 23 && minute ≤ 59 && second ≤ 60)
  let start := hour * 3600 + minute * 60
  if second = 60 then return (start + 59, nano + nanosPerSecond)
  else return (start + second, nano)

/-- `year - month - day`, with blanks before a mark if `lax`. -/
def date (lax : Bool) : Reader Date := do
  let gap : Reader Unit := if lax then blanks else pure ()
  blanks
  let y ← year
  gap
  char '-'
  let m ← field
  gap
  char '-'
  let d ← field
  existing y m d

/-- `hour : minute : second`, with blanks before a colon if `lax`. -/
def time (lax : Bool) : Reader (Nat × Nat) := do
  let gap : Reader Unit := if lax then blanks else pure ()
  let h ← field
  gap
  char ':'
  let m ← field
  gap
  char ':'
  let s ← field
  let n ← fraction
  timeOfDay h m s n

/-- A date and time with `T` between them. -/
def joined : Reader Timestamp := do
  let d ← date true
  blanks
  char 'T'
  let (second, nano) ← time true
  blanks
  return ⟨d, second, nano⟩

/-- A date and time with blanks, or nothing, between them. -/
def spaced : Reader Timestamp := do
  let d ← date false
  blanks
  let (second, nano) ← time false
  return ⟨d, second, nano⟩

/-- Seconds that local time is ahead of universal time: `Z`, or a sign, hours, what `separator`
takes, and minutes. -/
def offsetWith (separator : Reader Unit) : Reader Int := do
  let mark ← oneOf ['Z', 'z', '+', '-', '\u2212']
  if mark = 'Z' ∨ mark = 'z' then return 0
  else
    let h ← number 2 2
    separator
    let m ← number 2 2
    require (h ≤ 23 && m ≤ 59)
    let seconds : Int := (h * 3600 + m * 60 : Nat)
    return if mark = '+' then seconds else -seconds

/-- An offset with a colon before the minutes. -/
def offset : Reader Int :=
  offsetWith (char ':')

/-- The same instant in universal time, given how far local time is ahead. -/
def inUniversalTime (t : Timestamp) (ahead : Int) : Reader Timestamp :=
  fun cs => (t.addSeconds? (-ahead)).map (·, cs)

/-- The internet form: four, two and two digits, a separator, the time in two digits each with an
optional fraction, and the offset. -/
def internet : Reader Timestamp := do
  let y ← number 4 4
  char '-'
  let m ← number 2 2
  char '-'
  let d ← number 2 2
  let day ← existing y m d
  let _ ← oneOf ['T', 't', ' ']
  let h ← number 2 2
  char ':'
  let min ← number 2 2
  char ':'
  let s ← number 2 2
  let n ← fraction
  let (second, nano) ← timeOfDay h min s n
  inUniversalTime ⟨day, second, nano⟩ (← offset)

/-- Like `offset`, with `UTC` in any case for no offset and any colons and blanks, or none, before
the minutes. -/
def laxOffset : Reader Int := fun cs =>
  if (cs.take 3).map Char.toUpper = ['U', 'T', 'C'] then some (0, cs.drop 3)
  else
    offsetWith (modify (·.dropWhile fun c => c = ':' || Text.isBlank c)) cs

/-- The internet form with blanks between and around its parts, single digits, and years of any
length behind a sign. -/
def laxInternet : Reader Timestamp := do
  let d ← date true
  let _ ← oneOf ['T', 't', ' ']
  let (second, nano) ← time true
  blanks
  let ahead ← laxOffset
  blanks
  inUniversalTime ⟨d, second, nano⟩ ahead

/-- Reads the whole of a text. -/
def run? {α : Type} (r : Reader α) (s : String) : Option α :=
  match StateT.run r s.toList with
  | some (a, []) => some a
  | _ => none

end Reader

/-- Reads a date. -/
def Date.ofText? (s : String) : Option Date :=
  Reader.run? (do let d ← Reader.date true; Reader.blanks; return d) s

/-- Reads a timestamp without an offset: with `T` between date and time, or with blanks. -/
def Timestamp.ofText? (s : String) : Option Timestamp :=
  (Reader.run? .joined s).or (Reader.run? .spaced s)

/-- Reads a timestamp with an offset, in universal time. -/
def Timestamp.ofUniversalText? (s : String) : Option Timestamp :=
  Reader.run? .internet s

/-- Reads a timestamp with an offset, in universal time, with less strictness about its form. -/
def Timestamp.ofLaxUniversalText? (s : String) : Option Timestamp :=
  Reader.run? .laxInternet s

end SqlBuilder.Calendar
