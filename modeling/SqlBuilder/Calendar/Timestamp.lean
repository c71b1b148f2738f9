import SqlBuilder.Calendar.Date

/-!
# Timestamps

A date with a time of day down to nanoseconds.  The 60th second of a leap minute is the 59th with a
thousand million nanoseconds more.
-/

namespace SqlBuilder.Calendar

/-- Nanoseconds in a second. -/
def nanosPerSecond : Nat := 1000000000

/-- Seconds in a day. -/
def secondsPerDay : Nat := 86400

/-- A date and a time of day. -/
structure Timestamp where
  date : Date
  second : Nat
  nano : Nat
  deriving DecidableEq

namespace Timestamp

/-- Nanoseconds since the midnight that begins 2000-01-01. -/
def toNanos (t : Timestamp) : Int :=
  (t.date.day * secondsPerDay + t.second) * nanosPerSecond + t.nano

/-- Whole microseconds since 2000-01-01, cut toward zero. -/
def toMicros (t : Timestamp) : Int :=
  Int.tdiv t.toNanos 1000

/-- The timestamp that many microseconds after 2000-01-01, if its date is in range. -/
def ofMicros? (micros : Int) : Option Timestamp := do
  let seconds := micros / 1000000
  let date ← Date.ofDay? (seconds / secondsPerDay)
  return ⟨date, (seconds % secondsPerDay).toNat, (micros % 1000000).toNat * 1000⟩

/-- The timestamp `seconds` later. -/
def addSeconds? (t : Timestamp) (seconds : Int) : Option Timestamp := do
  let total := t.second + seconds
  let date ← Date.ofDay? (t.date.day + total / secondsPerDay)
  return ⟨date, (total % secondsPerDay).toNat, t.nano⟩

/-- The fraction of the second: a point with three, six or nine places, whichever show it in full,
and nothing for a whole second. -/
def fractionText (nano : Nat) : String :=
  let n := nano % nanosPerSecond
  if n = 0 then ""
  else if n % 1000000 = 0 then "." ++ Number.padded 3 (n / 1000000)
  else if n % 1000 = 0 then "." ++ Number.padded 6 (n / 1000)
  else "." ++ Number.padded 9 n

/-- `HH:MM:SS` with the fraction of the second. -/
def timeText (t : Timestamp) : String :=
  let s := t.second
  Number.padded 2 (s / 3600) ++ ":" ++ Number.padded 2 (s / 60 % 60) ++ ":"
    ++ Number.padded 2 (s % 60 + t.nano / nanosPerSecond) ++ fractionText t.nano

/-- `YYYY-MM-DD HH:MM:SS` with the fraction of the second. -/
def toText (t : Timestamp) : String :=
  t.date.toText ++ " " ++ t.timeText

/-- The same instant in the form of internet timestamps, in universal time. -/
def toUniversalText (t : Timestamp) : String :=
  t.date.toText ++ "T" ++ t.timeText ++ "+00:00"

end Timestamp

end SqlBuilder.Calendar
