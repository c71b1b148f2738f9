import SqlBuilder.Number.Integer

/-!
# Dates

Days of the proleptic Gregorian calendar, counted from 2000-01-01.  A day is turned into year, month
and day of the month through years that begin in March, so that the leap day is the last one: 400
such years are 146097 days, and the months of a year follow the rule `(153 * m + 2) / 5`.
-/

namespace SqlBuilder.Calendar

/-- Year, month and day of the month. -/
structure Civil where
  year : Int
  month : Int
  day : Int
  deriving DecidableEq, Repr

namespace Civil

/-- Days from the first of March of the year 0 to 2000-01-01. -/
def epochOffset : Int := 730425

/-- Days before month `m` of a year that begins in March, counting March as 0. -/
def daysBeforeMonth (m : Int) : Int :=
  (153 * m + 2) / 5

/-- Days before year `y` of a cycle of 400 years that begin in March. -/
def daysBeforeYear (y : Int) : Int :=
  365 * y + y / 4 - y / 100

/-- The civil date of a day counted from 2000-01-01. -/
def ofDayNumber (n : Int) : Civil :=
  let z := n + epochOffset
  let cycle := z / 146097
  let dayOfCycle := z % 146097
  let yearOfCycle :=
    (dayOfCycle - dayOfCycle / 1460 + dayOfCycle / 36524 - dayOfCycle / 146096) / 365
  let dayOfYear := dayOfCycle - daysBeforeYear yearOfCycle
  let m := (5 * dayOfYear + 2) / 153
  let month := if m < 10 then m + 3 else m - 9
  { year := yearOfCycle + 400 * cycle + (if month ≤ 2 then 1 else 0)
    month := month
    day := dayOfYear - daysBeforeMonth m + 1 }

/-- The day of a civil date, counted from 2000-01-01. -/
def dayNumber (c : Civil) : Int :=
  let y := c.year - (if c.month ≤ 2 then 1 else 0)
  let m := if 2 < c.month then c.month - 3 else c.month + 9
  y / 400 * 146097 + daysBeforeYear (y % 400) + daysBeforeMonth m + c.day - 1 - epochOffset

/-- Whether `y` has a 29th of February. -/
def isLeapYear (y : Int) : Bool :=
  y % 4 = 0 && (y % 100 ≠ 0 || y % 400 = 0)

/-- The length of a month. -/
def daysInMonth (year month : Int) : Int :=
  if month = 2 then (if isLeapYear year then 29 else 28)
  else if month = 4 ∨ month = 6 ∨ month = 9 ∨ month = 11 then 30
  else 31

/-- Whether month and day exist. -/
def isValid (c : Civil) : Bool :=
  1 ≤ c.month && c.month ≤ 12 && 1 ≤ c.day && c.day ≤ daysInMonth c.year c.month

end Civil

/-! ## The range of dates -/

/-- The first date, -262143-01-01. -/
def firstDay : Int := Civil.dayNumber ⟨-262143, 1, 1⟩

/-- The last date, 262142-12-31. -/
def lastDay : Int := Civil.dayNumber ⟨262142, 12, 31⟩

/-- A day, counted from 2000-01-01. -/
structure Date where
  day : Int
  firstDay_le : firstDay ≤ day
  le_lastDay : day ≤ lastDay
  deriving DecidableEq

namespace Date

/-- The date that many days after 2000-01-01, if it is in range. -/
def ofDay? (n : Int) : Option Date :=
  if h : firstDay ≤ n ∧ n ≤ lastDay then some ⟨n, h.1, h.2⟩ else none

/-- The date of a civil date that exists and is in range. -/
def ofCivil? (c : Civil) : Option Date :=
  if c.isValid then ofDay? c.dayNumber else none

def civil (d : Date) : Civil :=
  .ofDayNumber d.day

end Date

/-- A year: four digits from 0 to 9999, else a sign and at least four digits. -/
def yearText (year : Int) : String :=
  if 0 ≤ year ∧ year ≤ 9999 then Number.padded 4 year.toNat
  else (if year < 0 then "-" else "+") ++ Number.padded 4 year.natAbs

/-- `YYYY-MM-DD`. -/
def Date.toText (d : Date) : String :=
  let c := d.civil
  yearText c.year ++ "-" ++ Number.padded 2 c.month.toNat ++ "-" ++ Number.padded 2 c.day.toNat

end SqlBuilder.Calendar
