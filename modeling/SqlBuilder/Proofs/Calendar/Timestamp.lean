import SqlBuilder.Proofs.Calendar.Date
import SqlBuilder.Calendar.Timestamp

/-!
# Timestamps and their microseconds

A number of microseconds that has a timestamp is that of the timestamp, and every timestamp's number
fits 64 bits.  A leap second is shown as the second after it, which is the same instant.
-/

namespace SqlBuilder.Calendar.Timestamp

/-- The second is one of the day, and the nanoseconds are those of one second or of a leap second. -/
structure InDay (t : Timestamp) : Prop where
  second_lt : t.second < secondsPerDay
  nano_lt : t.nano < 2 * nanosPerSecond

/-- The year has four digits and no sign. -/
def FourDigitYear (t : Timestamp) : Prop :=
  0 ≤ t.date.civil.year ∧ t.date.civil.year ≤ 9999

instance (t : Timestamp) : Decidable t.FourDigitYear :=
  inferInstanceAs (Decidable (_ ∧ _))

/-- The timestamp as its text shows it: a leap second is the 60th of a minute, or else the second
after it. -/
def shown (t : Timestamp) : Timestamp :=
  if t.second % 60 ≠ 59 ∧ nanosPerSecond ≤ t.nano then
    ⟨t.date, t.second + 1, t.nano - nanosPerSecond⟩
  else t

theorem date_shown (t : Timestamp) : t.shown.date = t.date := by
  unfold shown
  split <;> rfl

/-- What is shown is the same instant. -/
theorem toNanos_shown (t : Timestamp) : t.shown.toNanos = t.toNanos := by
  unfold shown
  split
  · next h =>
    unfold toNanos
    dsimp only
    unfold nanosPerSecond secondsPerDay at *
    omega
  · rfl

theorem toMicros_shown (t : Timestamp) : t.shown.toMicros = t.toMicros := by
  rw [toMicros, toNanos_shown]
  rfl

theorem InDay.shown {t : Timestamp} (h : t.InDay) : t.shown.InDay := by
  obtain ⟨hsecond, hnano⟩ := h
  unfold Timestamp.shown
  split
  · next hleap =>
    unfold nanosPerSecond secondsPerDay at *
    exact ⟨by show t.second + 1 < 86400; omega, by show t.nano - 1000000000 < 2 * 1000000000; omega⟩
  · exact ⟨hsecond, hnano⟩

theorem addSeconds?_zero {t : Timestamp} (h : t.second < secondsPerDay) :
    t.addSeconds? 0 = some t := by
  have hday : ((t.second : Int) + 0) / secondsPerDay = 0 :=
    Int.ediv_eq_zero_of_lt (by omega) (by omega)
  have hrest : ((t.second : Int) + 0) % secondsPerDay = t.second := by
    rw [Int.add_zero]
    exact Int.emod_eq_of_lt (by omega) (by omega)
  unfold addSeconds?
  dsimp only
  rw [hday, hrest, Int.add_zero, Date.ofDay?_day]
  rfl

/-! ## Microseconds -/

/-- The timestamp of a number of microseconds has that number, and no leap second. -/
theorem ofMicros?_eq_some {micros : Int} {t : Timestamp} (h : ofMicros? micros = some t) :
    t.toMicros = micros ∧ t.InDay ∧ t.nano < nanosPerSecond := by
  obtain ⟨date, hdate, ht⟩ := Option.bind_eq_some_iff.mp h
  cases ht
  have hday := Date.day_of_ofDay? hdate
  have hday' : date.day = micros / 1000000 / 86400 := hday
  have hnanos : toNanos ⟨date, (micros / 1000000 % secondsPerDay).toNat,
      (micros % 1000000).toNat * 1000⟩ = micros * 1000 := by
    unfold toNanos
    unfold nanosPerSecond secondsPerDay
    dsimp only
    omega
  refine ⟨?_, ⟨?_, ?_⟩, ?_⟩
  · rw [toMicros, hnanos]
    exact Int.mul_tdiv_cancel _ (by decide)
  all_goals
    dsimp only [secondsPerDay, nanosPerSecond]
    omega

/-- The number of microseconds of any timestamp fits 64 bits. -/
theorem toMicros_bounds {t : Timestamp} (h : t.InDay) :
    -(Nat.pow 256 8 : Int) ≤ 2 * t.toMicros ∧ 2 * t.toMicros < Nat.pow 256 8 := by
  obtain ⟨hsecond, hnano⟩ := h
  have hfirst := t.date.firstDay_le
  have hlast := t.date.le_lastDay
  rw [firstDay_eq] at hfirst
  rw [lastDay_eq] at hlast
  have hpow : Nat.pow 256 8 = 18446744073709551616 := by decide
  unfold secondsPerDay nanosPerSecond at *
  have hnanos : t.toNanos = (t.date.day * 86400 + t.second) * 1000000000 + t.nano := rfl
  rw [toMicros, Int.tdiv_eq_ediv, hpow]
  split
  · omega
  · rw [Int.sign_eq_one_of_pos (by decide)]
    omega

/-- The leap second behind the last second of the last date. -/
structure IsPastLast (t : Timestamp) : Prop where
  day_eq : t.date.day = lastDay
  second_eq : t.second + 1 = secondsPerDay
  le_nano : nanosPerSecond ≤ t.nano

theorem isSome_ofMicros? {micros : Int} : (ofMicros? micros).isSome = true ↔
    firstDay ≤ micros / 1000000 / 86400 ∧ micros / 1000000 / 86400 ≤ lastDay := by
  by_cases h : firstDay ≤ micros / 1000000 / 86400 ∧ micros / 1000000 / 86400 ≤ lastDay
  · have hday : Date.ofDay? (micros / 1000000 / secondsPerDay)
        = some ⟨micros / 1000000 / 86400, h.1, h.2⟩ := dif_pos h
    refine iff_of_true ?_ h
    unfold ofMicros?
    dsimp only
    rw [hday]
    rfl
  · have hday : Date.ofDay? (micros / 1000000 / secondsPerDay) = none := dif_neg h
    refine iff_of_false ?_ h
    unfold ofMicros?
    dsimp only
    rw [hday]
    exact Bool.false_ne_true

/-- **The microseconds of any timestamp are those of one**, unless they belong to the second behind
the last one. -/
theorem isSome_ofMicros?_toMicros {t : Timestamp} (h : t.InDay) :
    (ofMicros? t.toMicros).isSome = true ↔ ¬t.IsPastLast := by
  obtain ⟨hsecond, hnano⟩ := h
  have hfirst := t.date.firstDay_le
  have hlast := t.date.le_lastDay
  have hpast : t.IsPastLast ↔ t.date.day = lastDay ∧ t.second + 1 = secondsPerDay ∧
      nanosPerSecond ≤ t.nano :=
    ⟨fun h => ⟨h.day_eq, h.second_eq, h.le_nano⟩, fun h => ⟨h.1, h.2.1, h.2.2⟩⟩
  have hnanos : t.toNanos = (t.date.day * 86400 + t.second) * 1000000000 + t.nano := rfl
  rw [isSome_ofMicros?, hpast, toMicros, Int.tdiv_eq_ediv]
  rw [firstDay_eq] at *
  rw [lastDay_eq] at *
  unfold secondsPerDay nanosPerSecond at *
  split
  · omega
  · rw [Int.sign_eq_one_of_pos (by decide)]
    omega

end SqlBuilder.Calendar.Timestamp
