import Mathlib.Tactic.ByContra
import SqlBuilder.Calendar.Date

/-!
# Days and civil dates

Every day has one civil date, which exists, and from which the day is found again
(`Civil.dayNumber_ofDayNumber`, `Civil.isValid_ofDayNumber`).  The year of a day within a cycle of
400 years grows with the day, so it is enough to know the first and the last day of each year.
-/

namespace SqlBuilder.Calendar

namespace Civil

/-! ## The year of a day -/

/-- The year, counted from 0, of a day of a cycle of 400 years that begin in March. -/
def yearOfCycle (day : Int) : Int :=
  (day - day / 1460 + day / 36524 - day / 146096) / 365

/-- The last day of a year of the cycle; the leap day at the end of the cycle is one more. -/
def lastDayOfYear (year : Int) : Int :=
  if year = 399 then 146096 else daysBeforeYear (year + 1) - 1

theorem yearOfCycle_mono {a b : Int} (h : a ≤ b) : yearOfCycle a ≤ yearOfCycle b := by
  have hfours : ∀ d : Int, d / 146096 = d / 36524 / 4 := fun d => by omega
  have hdays : a - a / 1460 ≤ b - b / 1460 := by omega
  have hcenturies : a / 36524 - a / 36524 / 4 ≤ b / 36524 - b / 36524 / 4 := by omega
  unfold yearOfCycle
  rw [hfours, hfours]
  exact Int.ediv_le_ediv (by decide) (by omega)

theorem yearOfCycle_ends : ∀ year : Fin 400,
    yearOfCycle (daysBeforeYear year.val) = year.val ∧
      yearOfCycle (lastDayOfYear year.val) = year.val := by
  decide +kernel

/-- The days of a year of the cycle are those from its first to its last. -/
theorem yearOfCycle_spec {day : Int} (hlow : 0 ≤ day) (hhigh : day < 146097) :
    0 ≤ yearOfCycle day ∧ yearOfCycle day < 400 ∧
      daysBeforeYear (yearOfCycle day) ≤ day ∧ day ≤ lastDayOfYear (yearOfCycle day) := by
  have hfirst : yearOfCycle 0 ≤ yearOfCycle day := yearOfCycle_mono hlow
  have hlast : yearOfCycle day ≤ yearOfCycle 146096 := yearOfCycle_mono (by omega)
  have hzero : yearOfCycle 0 = 0 := by decide
  have hend : yearOfCycle 146096 = 399 := by decide
  rw [hzero] at hfirst
  rw [hend] at hlast
  have hends : ∀ y : Int, 0 ≤ y → y < 400 →
      yearOfCycle (daysBeforeYear y) = y ∧ yearOfCycle (lastDayOfYear y) = y := by
    intro y h0 h1
    have h := yearOfCycle_ends ⟨y.toNat, by omega⟩
    simp only [Int.toNat_of_nonneg h0] at h
    exact h
  refine ⟨hfirst, by omega, ?_, ?_⟩
  · -- a day before the first one belongs to the year before at most
    by_contra hlt
    rcases Int.lt_or_eq_of_le hfirst with hpos | hnone
    · have hbefore := (hends (yearOfCycle day - 1) (by omega) (by omega)).2
      have hprevious : lastDayOfYear (yearOfCycle day - 1)
          = daysBeforeYear (yearOfCycle day) - 1 := by
        rw [lastDayOfYear, if_neg (by omega), Int.sub_add_cancel]
      have hmono := yearOfCycle_mono (a := day) (b := lastDayOfYear (yearOfCycle day - 1))
        (by omega)
      omega
    · rw [← hnone] at hlt
      exact hlt hlow
  · -- and one behind the last to the next year at least
    by_contra hlt
    by_cases hnext : yearOfCycle day = 399
    · rw [hnext] at hlt
      exact hlt (by show day ≤ 146096; omega)
    · have hafter := (hends (yearOfCycle day + 1) (by omega) (by omega)).1
      rw [lastDayOfYear, if_neg hnext] at hlt
      have hmono := yearOfCycle_mono (a := daysBeforeYear (yearOfCycle day + 1)) (b := day)
        (by omega)
      omega

/-! ## The month of a day -/

/-- The month, counted from March as 0, of a day of a year that begins in March. -/
def monthOfDay (dayOfYear : Int) : Int :=
  (5 * dayOfYear + 2) / 153

/-- The number of a month that is counted from March as 0. -/
def monthNumber (m : Int) : Int :=
  if m < 10 then m + 3 else m - 9

/-- The date of a day of a year of a cycle. -/
def ofYearDay (cycle year dayOfYear : Int) : Civil :=
  let m := monthOfDay dayOfYear
  { year := year + 400 * cycle + (if monthNumber m ≤ 2 then 1 else 0)
    month := monthNumber m
    day := dayOfYear - daysBeforeMonth m + 1 }

/-- A day is a day of some year of some cycle. -/
theorem exists_ofYearDay (n : Int) : ∃ cycle year dayOfYear,
    ofDayNumber n = ofYearDay cycle year dayOfYear ∧
      n = cycle * 146097 + daysBeforeYear year + dayOfYear - epochOffset ∧
      0 ≤ year ∧ year < 400 ∧ 0 ≤ dayOfYear ∧
      daysBeforeYear year + dayOfYear ≤ lastDayOfYear year := by
  have hlow := Int.emod_nonneg (n + epochOffset) (b := 146097) (by decide)
  have hhigh := Int.emod_lt_of_pos (n + epochOffset) (b := 146097) (by decide)
  obtain ⟨h0, h1, hfirst, hlast⟩ := yearOfCycle_spec hlow hhigh
  refine ⟨(n + epochOffset) / 146097, yearOfCycle ((n + epochOffset) % 146097),
    (n + epochOffset) % 146097 - daysBeforeYear (yearOfCycle ((n + epochOffset) % 146097)), rfl, ?_,
    h0, h1, by omega, by omega⟩
  have hsplit := Int.mul_ediv_add_emod (n + epochOffset) 146097
  omega

variable {cycle year dayOfYear : Int}

theorem monthOfDay_bounds (hlow : 0 ≤ dayOfYear) (hhigh : dayOfYear ≤ 365) :
    0 ≤ monthOfDay dayOfYear ∧ monthOfDay dayOfYear ≤ 11 := by
  unfold monthOfDay
  omega

/-- Counted from March again, a month is what it was. -/
theorem monthNumber_fromMarch {m : Int} (h0 : 0 ≤ m) (h1 : m ≤ 11) :
    (if 2 < monthNumber m then monthNumber m - 3 else monthNumber m + 9) = m := by
  unfold monthNumber
  split <;> split <;> omega

theorem dayOfYear_le (h : daysBeforeYear year + dayOfYear ≤ lastDayOfYear year) :
    dayOfYear ≤ 365 := by
  unfold lastDayOfYear daysBeforeYear at h
  split at h <;> omega

/-- The leap day is the last of a year, and the next year is a leap year then. -/
theorem isLeapYear_of_last (h : daysBeforeYear year + 365 ≤ lastDayOfYear year) :
    isLeapYear (year + 400 * cycle + 1) = true := by
  unfold lastDayOfYear daysBeforeYear at h
  simp only [isLeapYear, Bool.and_eq_true, Bool.or_eq_true, decide_eq_true_eq, ne_eq]
  split at h <;> omega

theorem dayNumber_ofYearDay (h0 : 0 ≤ year) (h1 : year < 400) (hlow : 0 ≤ dayOfYear)
    (hhigh : dayOfYear ≤ 365) : (ofYearDay cycle year dayOfYear).dayNumber
      = cycle * 146097 + daysBeforeYear year + dayOfYear - epochOffset := by
  obtain ⟨hm0, hm1⟩ := monthOfDay_bounds hlow hhigh
  have hyear : ∀ k : Int, year + 400 * cycle + k - k = year + 400 * cycle := fun k => by omega
  have hcycle : (year + 400 * cycle) / 400 = cycle := by omega
  have hrest : (year + 400 * cycle) % 400 = year := by omega
  unfold ofYearDay dayNumber
  dsimp only
  rw [hyear, hcycle, hrest, monthNumber_fromMarch hm0 hm1]
  omega

theorem isValid_iff {c : Civil} : c.isValid = true ↔
    1 ≤ c.month ∧ c.month ≤ 12 ∧ 1 ≤ c.day ∧ c.day ≤ daysInMonth c.year c.month := by
  simp [isValid, and_assoc]

/-- The lengths of the months in a year that begins in March; of February, which is the last, that
in a leap year. -/
theorem daysBeforeMonth_succ (year : Int) {m : Int} (h0 : 0 ≤ m) (h1 : m ≤ 10) :
    daysBeforeMonth (m + 1) - daysBeforeMonth m
      = daysInMonth year (monthNumber m) := by
  obtain rfl | rfl | rfl | rfl | rfl | rfl | rfl | rfl | rfl | rfl | rfl :
      m = 0 ∨ m = 1 ∨ m = 2 ∨ m = 3 ∨ m = 4 ∨ m = 5 ∨ m = 6 ∨ m = 7 ∨ m = 8 ∨ m = 9 ∨ m = 10 := by
    omega
  all_goals rfl

theorem isValid_ofYearDay (hlow : 0 ≤ dayOfYear)
    (hhigh : daysBeforeYear year + dayOfYear ≤ lastDayOfYear year) :
    (ofYearDay cycle year dayOfYear).isValid = true := by
  have hday := dayOfYear_le hhigh
  obtain ⟨hm0, hm1⟩ := monthOfDay_bounds hlow hday
  have hfirst : daysBeforeMonth (monthOfDay dayOfYear) ≤ dayOfYear := by
    unfold daysBeforeMonth monthOfDay
    omega
  have hnext : dayOfYear < daysBeforeMonth (monthOfDay dayOfYear + 1) := by
    unfold daysBeforeMonth monthOfDay
    omega
  rw [isValid_iff]
  unfold ofYearDay
  dsimp only
  refine ⟨by unfold monthNumber; split <;> omega, by unfold monthNumber; split <;> omega, by omega,
    ?_⟩
  rcases Int.lt_or_eq_of_le hm1 with hm | hm
  · have hlength := daysBeforeMonth_succ
      (year + 400 * cycle + if monthNumber (monthOfDay dayOfYear) ≤ 2 then 1 else 0)
      hm0 (by omega)
    omega
  · -- February has its 29th day in a leap year only
    rw [hm] at hnext ⊢
    show dayOfYear - 337 + 1 ≤ if isLeapYear (year + 400 * cycle + 1) then 29 else 28
    by_cases hlast : dayOfYear = 365
    · rw [isLeapYear_of_last (hlast ▸ hhigh), if_pos rfl]
      omega
    · split <;> omega

/-- The day of the date of a day is that day. -/
theorem dayNumber_ofDayNumber (n : Int) : (ofDayNumber n).dayNumber = n := by
  obtain ⟨cycle, year, dayOfYear, hdate, hn, h0, h1, hlow, hhigh⟩ := exists_ofYearDay n
  rw [hdate, dayNumber_ofYearDay h0 h1 hlow (dayOfYear_le hhigh)]
  exact hn.symm

/-- The date of a day exists. -/
theorem isValid_ofDayNumber (n : Int) : (ofDayNumber n).isValid = true := by
  obtain ⟨cycle, year, dayOfYear, hdate, -, -, -, hlow, hhigh⟩ := exists_ofYearDay n
  rw [hdate]
  exact isValid_ofYearDay hlow hhigh

example : ofDayNumber 59 = ⟨2000, 2, 29⟩ := by decide

end Civil

/-! ## Dates -/

theorem firstDay_eq : firstDay = -96476249 := by decide

theorem lastDay_eq : lastDay = 95015279 := by decide

namespace Date

theorem ofDay?_day (d : Date) : ofDay? d.day = some d :=
  dif_pos ⟨d.firstDay_le, d.le_lastDay⟩

theorem ofCivil?_civil (d : Date) : ofCivil? d.civil = some d := by
  rw [ofCivil?, civil, if_pos (Civil.isValid_ofDayNumber d.day), Civil.dayNumber_ofDayNumber,
    ofDay?_day]

theorem day_of_ofDay? {n : Int} {d : Date} (h : ofDay? n = some d) : d.day = n := by
  unfold ofDay? at h
  split at h
  · cases h
    rfl
  · exact nomatch h

end Date

end SqlBuilder.Calendar
