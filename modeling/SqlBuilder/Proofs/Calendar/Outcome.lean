import SqlBuilder.Proofs.Calendar.Reading

/-!
# What readers of dates and times yield

Whatever text a timestamp is read from, its second is one of the day and its nanoseconds are those of
one second or of a leap second.  In the internet form the year has four digits, so the instant is far
from the ends of the range of dates, wherever its offset moves it.
-/

namespace SqlBuilder.Calendar.Reader

open Number

variable {α β : Type} {P : β → Prop}

/-- Whatever the reader takes has the property. -/
def Yields (r : Reader β) (P : β → Prop) : Prop :=
  ∀ cs b rest, StateT.run r cs = some (b, rest) → P b

theorem yields_any (r : Reader α) : Yields r fun _ => True := fun _ _ _ _ => trivial

theorem Yields.pure {b : β} (h : P b) : Yields (Pure.pure b) P := by
  intro cs b' rest hrun
  cases hrun
  exact h

/-- What a reader yields is known to the reader after it. -/
theorem Yields.bind {r : Reader α} {Q : α → Prop} {f : α → Reader β} (hr : Yields r Q)
    (hf : ∀ a, Q a → Yields (f a) P) : Yields (r >>= f) P := by
  intro cs b rest hrun
  rw [StateT.run_bind] at hrun
  obtain ⟨⟨a, mid⟩, ha, hb⟩ := Option.bind_eq_some_iff.mp hrun
  exact hf a (hr _ _ _ ha) _ _ _ hb

/-- What the first reader yields does not matter. -/
theorem Yields.after {r : Reader α} {f : α → Reader β} (hf : ∀ a, Yields (f a) P) :
    Yields (r >>= f) P :=
  (yields_any r).bind fun a _ => hf a

theorem Yields.of_run? {r : Reader β} {s : String} {b : β} (h : Yields r P)
    (hrun : run? r s = some b) : P b := by
  unfold run? at hrun
  split at hrun
  · next heq =>
    cases hrun
    exact h _ _ _ heq
  · exact nomatch hrun

/-! ## Parts -/

theorem yields_require {p : Bool} : Yields (require p) fun _ => p = true := by
  intro cs u rest hrun
  cases p with
  | true => rfl
  | false => exact nomatch hrun

theorem yields_number (least most : Nat) : Yields (number least most) (· < Nat.pow 10 most) := by
  refine Yields.bind (Q := fun ds => digitsValue ds < Nat.pow 10 most) ?_ fun ds hds => .pure hds
  intro cs ds rest hrun
  change (if ((cs.take most).takeWhile isDigit).length < least then none
    else some ((cs.take most).takeWhile isDigit, _)) = some (ds, rest) at hrun
  split at hrun
  · exact nomatch hrun
  · cases hrun
    have hdigits : ∀ c ∈ (cs.take most).takeWhile isDigit, isDigit c = true :=
      fun c hc => List.mem_takeWhile_imp hc
    have hlength : ((cs.take most).takeWhile isDigit).length ≤ most :=
      Nat.le_trans (List.takeWhile_prefix isDigit).length_le (List.length_take_le _ _)
    exact Nat.lt_of_lt_of_le (digitsValue_lt hdigits) (Nat.pow_le_pow_right (by decide) hlength)

theorem yields_fraction : Yields fraction (· < nanosPerSecond) := by
  intro cs n rest hrun
  change fraction cs = some (n, rest) at hrun
  unfold fraction at hrun
  split at hrun
  · next ds =>
    dsimp only at hrun
    split at hrun
    · exact nomatch hrun
    · cases hrun
      have hdigits : ∀ c ∈ (ds.takeWhile isDigit).take 9, isDigit c = true :=
        fun c hc => List.mem_takeWhile_imp (List.mem_of_mem_take hc)
      have hlength : ((ds.takeWhile isDigit).take 9).length ≤ 9 := List.length_take_le _ _
      have hpos : 0 < Nat.pow 10 (9 - ((ds.takeWhile isDigit).take 9).length) :=
        Nat.pos_of_ne_zero (by simp)
      calc _ < Nat.pow 10 ((ds.takeWhile isDigit).take 9).length
            * Nat.pow 10 (9 - ((ds.takeWhile isDigit).take 9).length) :=
          Nat.mul_lt_mul_of_pos_right (digitsValue_lt hdigits) hpos
        _ = Nat.pow 10 9 := by
          simp only [Nat.pow_eq]
          rw [← Nat.pow_add, Nat.add_sub_cancel' hlength]
        _ = nanosPerSecond := by decide
  · cases hrun
    decide

/-- Second of the day and nanosecond. -/
def OnClock (p : Nat × Nat) : Prop :=
  p.1 < secondsPerDay ∧ p.2 < 2 * nanosPerSecond

theorem yields_timeOfDay (hour minute second : Nat) {nano : Nat} (hnano : nano < nanosPerSecond) :
    Yields (timeOfDay hour minute second nano) OnClock := by
  refine yields_require.bind fun _ hclock => ?_
  simp only [Bool.and_eq_true, decide_eq_true_eq] at hclock
  unfold nanosPerSecond at hnano
  split
  · refine .pure ⟨?_, ?_⟩
    · show hour * 3600 + minute * 60 + 59 < 86400
      omega
    · show nano + 1000000000 < 2 * 1000000000
      omega
  · refine .pure ⟨?_, ?_⟩
    · show hour * 3600 + minute * 60 + second < 86400
      omega
    · show nano < 2 * 1000000000
      omega

theorem yields_time (lax : Bool) : Yields (time lax) OnClock := by
  unfold time
  refine .after fun h => .after fun _ => .after fun _ => .after fun m => .after fun _ =>
    .after fun _ => .after fun s => yields_fraction.bind fun n hn => ?_
  exact yields_timeOfDay h m s hn

theorem yields_joined : Yields joined Timestamp.InDay := by
  refine .after fun d => .after fun _ => .after fun _ => (yields_time true).bind ?_
  rintro ⟨second, nano⟩ hclock
  exact .after fun _ => .pure ⟨hclock.1, hclock.2⟩

theorem yields_spaced : Yields spaced Timestamp.InDay := by
  refine .after fun d => .after fun _ => (yields_time false).bind ?_
  rintro ⟨second, nano⟩ hclock
  exact .pure ⟨hclock.1, hclock.2⟩

/-! ## Instants -/

theorem yields_existing (year : Int) (month day : Nat) : Yields (existing year month day) fun d =>
    Civil.isValid ⟨year, month, day⟩ = true ∧ d.day = Civil.dayNumber ⟨year, month, day⟩ := by
  intro cs d rest hrun
  obtain ⟨d', hd, heq⟩ := Option.map_eq_some_iff.mp hrun
  cases heq
  unfold Date.ofCivil? at hd
  split at hd
  · next hvalid => exact ⟨hvalid, Date.day_of_ofDay? hd⟩
  · exact nomatch hd

/-- A date whose year has four digits is far from the ends of the range of dates. -/
theorem dayNumber_bounds {c : Civil} (hvalid : c.isValid = true) (hlow : 0 ≤ c.year)
    (hhigh : c.year < 10000) : -1000000 < c.dayNumber ∧ c.dayNumber < 4000000 := by
  obtain ⟨hmonth0, hmonth1, hday0, hday1⟩ := Civil.isValid_iff.mp hvalid
  have hday : c.day ≤ 31 := by
    refine Int.le_trans hday1 ?_
    unfold Civil.daysInMonth
    split
    · split <;> decide
    · split <;> decide
  unfold Civil.dayNumber Civil.daysBeforeYear Civil.daysBeforeMonth Civil.epochOffset
  dsimp only
  split <;> split <;> omega

theorem yields_offsetWith (separator : Reader Unit) :
    Yields (offsetWith separator) fun n => -86400 < n ∧ n < 86400 := by
  refine .after fun mark => ?_
  split
  · exact .pure (by decide)
  · refine .after fun h => .after fun _ => .after fun m => yields_require.bind fun _ hclock => ?_
    simp only [Bool.and_eq_true, decide_eq_true_eq] at hclock
    refine .pure ?_
    split <;> omega

/-- An instant is moved by less than a day. -/
theorem yields_inUniversalTime {t : Timestamp} {ahead : Int} (hnano : t.nano < 2 * nanosPerSecond)
    (hsecond : t.second < secondsPerDay) (hahead : -86400 < ahead ∧ ahead < 86400) :
    Yields (inUniversalTime t ahead) fun moved =>
      moved.InDay ∧ moved.date.day ≤ t.date.day + 1 := by
  intro cs moved rest hrun
  obtain ⟨t', ht', heq⟩ := Option.map_eq_some_iff.mp hrun
  cases heq
  obtain ⟨date, hdate, heq⟩ := Option.bind_eq_some_iff.mp ht'
  cases heq
  have hday := Date.day_of_ofDay? hdate
  unfold secondsPerDay at *
  refine ⟨⟨?_, hnano⟩, ?_⟩
  · show ((t.second + -ahead) % 86400).toNat < 86400
    omega
  · show date.day ≤ t.date.day + 1
    omega

theorem yields_internet :
    Yields internet fun t => t.InDay ∧ t.date.day < lastDay := by
  refine (yields_number 4 4).bind fun y hy => .after fun _ => .after fun m => .after fun _ =>
    .after fun d => (yields_existing y m d).bind fun day hday => .after fun _ => .after fun h =>
    .after fun _ => .after fun min => .after fun _ => .after fun s =>
    yields_fraction.bind fun n hn => (yields_timeOfDay h min s hn).bind ?_
  rintro ⟨second, nano⟩ hclock
  refine (yields_offsetWith _).bind fun ahead hahead => ?_
  intro cs t rest hrun
  obtain ⟨hinDay, hmoved⟩ := yields_inUniversalTime (t := ⟨day, second, nano⟩) hclock.2 hclock.1
    hahead _ _ _ hrun
  refine ⟨hinDay, ?_⟩
  have hyear : (y : Int) < 10000 := by
    have hfour : Nat.pow 10 4 = 10000 := by decide
    rw [hfour] at hy
    omega
  have hbounds := dayNumber_bounds hday.1 (Int.natCast_nonneg y) hyear
  rw [lastDay_eq]
  have hmoved' : t.date.day ≤ day.day + 1 := hmoved
  rw [hday.2] at hmoved'
  omega

end SqlBuilder.Calendar.Reader

namespace SqlBuilder.Calendar.Timestamp

open Reader

/-- A timestamp that was read has a second of the day. -/
theorem inDay_of_ofText? {s : String} {t : Timestamp} (h : ofText? s = some t) : t.InDay := by
  rcases Option.or_eq_some_iff.mp h with h | ⟨-, h⟩
  · exact yields_joined.of_run? h
  · exact yields_spaced.of_run? h

/-- An instant that was read has a second of the day, and a day behind it. -/
theorem of_ofUniversalText? {s : String} {t : Timestamp} (h : ofUniversalText? s = some t) :
    t.InDay ∧ t.date.day < lastDay :=
  yields_internet.of_run? h

end SqlBuilder.Calendar.Timestamp
