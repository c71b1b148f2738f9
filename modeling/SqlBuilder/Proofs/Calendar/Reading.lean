import SqlBuilder.Calendar.Reading
import SqlBuilder.Proofs.Calendar.Timestamp
import SqlBuilder.Proofs.Number.Digits
import SqlBuilder.Proofs.Text.Blank

/-!
# Dates and times read back

A reader that takes a text off the front leaves what follows it, so what is read of a date and of a
time is put together from their parts (`Reader.Takes`).
-/

namespace SqlBuilder.Calendar.Reader

open Number Text

variable {α β : Type}

/-! ## Taking a text off the front -/

/-- The reader takes the text off the front and leaves the rest. -/
def Takes (r : Reader α) (text : List Char) (a : α) (rest : List Char) : Prop :=
  StateT.run r (text ++ rest) = some (a, rest)

variable {text more rest : List Char} {a : α} {b : β}

theorem Takes.run {r : Reader α} (h : Takes r text a rest) :
    StateT.run r (text ++ rest) = some (a, rest) := h

theorem Takes.pure (a : α) (rest : List Char) : Takes (Pure.pure a) [] a rest := rfl

/-- What comes after a reader reads what that one left. -/
theorem Takes.run_bind {r : Reader α} (hr : Takes r text a rest) (f : α → Reader β) :
    StateT.run (r >>= f) (text ++ rest) = StateT.run (f a) rest := by
  rw [StateT.run_bind, hr.run]
  rfl

/-- One reader after the other takes one text after the other. -/
theorem Takes.bind {r : Reader α} {f : α → Reader β} (hr : Takes r text a (more ++ rest))
    (hf : Takes (f a) more b rest) : Takes (r >>= f) (text ++ more) b rest := by
  unfold Takes
  rw [List.append_assoc, hr.run_bind]
  exact hf

/-- A reader that takes nothing. -/
theorem Takes.skip {r : Reader α} {f : α → Reader β} (hr : Takes r [] a (text ++ rest))
    (hf : Takes (f a) text b rest) : Takes (r >>= f) text b rest :=
  hr.bind hf

theorem run?_eq {r : Reader α} {s : String} (h : Takes r s.toList a []) : run? r s = some a := by
  have hrun := h.run
  rw [List.append_nil] at hrun
  unfold run?
  rw [hrun]

theorem run?_eq_none {r : Reader α} {s : String} (h : StateT.run r s.toList = none) :
    run? r s = none := by
  unfold run?
  rw [h]

/-! ## Characters -/

theorem isBlank_of_isDigit {c : Char} (h : isDigit c = true) : Text.isBlank c = false := by
  simp only [isDigit, Bool.and_eq_true, decide_eq_true_eq, Char.le_def,
    UInt32.le_iff_toNat_le] at h
  have hlow : 48 ≤ c.toNat := h.1
  have hhigh : c.toNat ≤ 57 := h.2
  simp only [Text.isBlank, Text.blankRanges, List.any_cons, List.any_nil, Bool.or_false,
    Bool.or_eq_false_iff, Bool.and_eq_false_iff, decide_eq_false_iff_not]
  omega

theorem endsBlanks_digits {ds : List Char} (hne : ds ≠ []) (hds : ∀ c ∈ ds, isDigit c = true)
    (rest : List Char) : EndsBlanks (ds ++ rest) := by
  obtain ⟨d, ds, rfl⟩ := List.exists_cons_of_ne_nil hne
  intro c hc
  cases hc
  exact isBlank_of_isDigit (hds d List.mem_cons_self)

theorem takes_blanks {bs : List Char} (hbs : ∀ c ∈ bs, Text.isBlank c = true)
    (hrest : EndsBlanks rest) : Takes blanks bs () rest := by
  show some ((), (bs ++ rest).dropWhile Text.isBlank) = some ((), rest)
  rw [Text.dropWhile_blanks_append hbs hrest]

theorem takes_no_blanks (hrest : EndsBlanks rest) : Takes blanks [] () rest :=
  takes_blanks (fun _ h => nomatch h) hrest

theorem takes_char (c : Char) (rest : List Char) : Takes (char c) [c] () rest := by
  show (if c = c then some ((), rest) else none) = _
  rw [if_pos rfl]

theorem takes_oneOf {c : Char} {choices : List Char} (h : c ∈ choices) (rest : List Char) :
    Takes (oneOf choices) [c] c rest := by
  show (if c ∈ choices then some (c, rest) else none) = _
  rw [if_pos h]

theorem takes_require {p : Bool} (h : p = true) (rest : List Char) :
    Takes (require p) [] () rest := by
  rw [require, if_pos h]
  rfl

/-! ## Numbers -/

/-- Digits are all taken if there are as many as are asked for, or if no more follow. -/
theorem takes_number {ds : List Char} {least most : Nat} (hds : ∀ c ∈ ds, isDigit c = true)
    (hleast : least ≤ ds.length) (hmost : ds.length ≤ most)
    (hend : ds.length = most ∨ EndsDigits rest) :
    Takes (number least most) ds (digitsValue ds) rest := by
  have htake : ((ds ++ rest).take most).takeWhile isDigit = ds := by
    rw [List.take_append, List.take_of_length_le hmost]
    apply takeWhile_digits_append hds
    rcases hend with hfull | hend
    · rw [hfull, Nat.sub_self, List.take_zero]
      exact endsDigits_nil
    · intro c hc
      apply hend c
      cases rest with
      | nil => simp at hc
      | cons d rest =>
          cases hn : most - ds.length with
          | zero => simp [hn] at hc
          | succ n => simpa [hn] using hc
  have hdigits : Takes (digits least most) ds ds rest := by
    show (if ((ds ++ rest).take most |>.takeWhile isDigit).length < least then none
      else some ((ds ++ rest).take most |>.takeWhile isDigit,
        (ds ++ rest).drop ((ds ++ rest).take most |>.takeWhile isDigit).length)) = _
    rw [htake, if_neg (by omega), List.drop_left]
  have hnumber := hdigits.bind (f := fun ds => Pure.pure (digitsValue ds)) (Takes.pure _ _)
  rwa [List.append_nil] at hnumber

/-- A number filled up to a width is taken by a reader that asks for as many digits. -/
theorem takes_padded {least width n : Nat} (hleast : least ≤ width) (hwidth : 0 < width)
    (h : n < Nat.pow 10 width) (rest : List Char) :
    Takes (number least width) (padded width n).toList n rest := by
  have hlength := length_padded hwidth h
  have htakes : Takes (number least width) (padded width n).toList
      (digitsValue (padded width n).toList) rest :=
    takes_number (fun _ => isDigit_of_mem_padded) (by omega) (by omega) (.inl hlength)
  rwa [digitsValue_padded] at htakes

theorem takes_field {n : Nat} (h : n < 100) (rest : List Char) :
    Takes field (padded 2 n).toList n rest := by
  apply Takes.skip
  · exact takes_no_blanks (endsBlanks_digits (padded_ne_nil 2 n) (fun _ => isDigit_of_mem_padded) _)
  · exact takes_padded (by decide) (by decide) h rest

/-! ## Dates -/

theorem isDigit_of_mem_sign {c : Char} (h : c = '-' ∨ c = '+') : isDigit c = false := by
  rcases h with rfl | rfl <;> decide

/-- A year of four digits, or a sign with digits behind it. -/
theorem toList_yearText (y : Int) :
    (0 ≤ y ∧ y ≤ 9999 ∧ (yearText y).toList = (padded 4 y.toNat).toList) ∨
      (y < 0 ∧ (yearText y).toList = '-' :: (padded 4 y.natAbs).toList) ∨
      (9999 < y ∧ (yearText y).toList = '+' :: (padded 4 y.natAbs).toList) := by
  unfold yearText
  by_cases hfour : 0 ≤ y ∧ y ≤ 9999
  · rw [if_pos hfour]
    exact .inl ⟨hfour.1, hfour.2, rfl⟩
  · rw [if_neg hfour, String.toList_append]
    by_cases hneg : y < 0
    · rw [if_pos hneg]
      exact .inr (.inl ⟨hneg, rfl⟩)
    · rw [if_neg hneg]
      exact .inr (.inr ⟨by omega, rfl⟩)

theorem endsBlanks_padded (width n : Nat) (cs : List Char) :
    EndsBlanks ((padded width n).toList ++ cs) :=
  endsBlanks_digits (padded_ne_nil width n) (fun _ => isDigit_of_mem_padded) cs

theorem endsBlanks_yearText (y : Int) (cs : List Char) : EndsBlanks ((yearText y).toList ++ cs) := by
  rcases toList_yearText y with ⟨-, -, h⟩ | ⟨-, h⟩ | ⟨-, h⟩
  · rw [h]
    exact endsBlanks_padded 4 y.toNat cs
  · rw [h]
    exact endsBlanks_cons (by decide) _
  · rw [h]
    exact endsBlanks_cons (by decide) _

/-- Behind a sign, all digits are taken. -/
theorem run_signed (n : Nat) (hrest : EndsDigits rest) :
    StateT.run (number 1 ((padded 4 n).toList ++ rest).length) ((padded 4 n).toList ++ rest)
      = some (n, rest) := by
  have hlength := le_length_padded 4 n
  have htakes : Takes (number 1 ((padded 4 n).toList ++ rest).length) (padded 4 n).toList
      (digitsValue (padded 4 n).toList) rest :=
    takes_number (fun _ => isDigit_of_mem_padded) (by omega) (by rw [List.length_append]; omega)
      (.inr hrest)
  rw [digitsValue_padded] at htakes
  exact htakes

theorem run_year_minus (cs : List Char) : StateT.run year ('-' :: cs)
    = (StateT.run (number 1 cs.length) cs).map fun (n, rest) => (-(n : Int), rest) := rfl

theorem run_year_plus (cs : List Char) : StateT.run year ('+' :: cs)
    = (StateT.run (number 1 cs.length) cs).map fun (n, rest) => ((n : Int), rest) := rfl

/-- Without a sign, up to four digits are taken. -/
theorem run_unsigned {cs : List Char} (h : ∀ c ∈ cs.head?, isDigit c = true) :
    StateT.run year cs = (StateT.run (number 1 4) cs).map fun (n, rest) => ((n : Int), rest) := by
  show year cs = _
  unfold year
  split
  · exact absurd (h _ rfl) (by decide)
  · exact absurd (h _ rfl) (by decide)
  · rfl

theorem takes_year (y : Int) (hrest : EndsDigits rest) :
    Takes year (yearText y).toList y rest := by
  unfold Takes
  rcases toList_yearText y with ⟨h0, h1, h⟩ | ⟨hneg, h⟩ | ⟨hpos, h⟩
  · have hhead : ∀ c ∈ ((padded 4 y.toNat).toList ++ rest).head?, isDigit c = true := by
      obtain ⟨d, ds, hds⟩ := List.exists_cons_of_ne_nil (padded_ne_nil 4 y.toNat)
      intro c hc
      rw [hds] at hc
      cases hc
      exact isDigit_of_mem_padded (hds ▸ List.mem_cons_self)
    have hnumber : Takes (number 1 4) (padded 4 y.toNat).toList y.toNat rest :=
      takes_padded (by decide) (by decide) (by show y.toNat < 10000; omega) rest
    rw [h, run_unsigned hhead, hnumber.run]
    show some ((y.toNat : Int), rest) = some (y, rest)
    rw [Int.toNat_of_nonneg h0]
  · rw [h, List.cons_append, run_year_minus, run_signed y.natAbs hrest]
    show some (-(y.natAbs : Int), rest) = some (y, rest)
    rw [Int.ofNat_natAbs_of_nonpos (by omega), Int.neg_neg]
  · rw [h, List.cons_append, run_year_plus, run_signed y.natAbs hrest]
    show some ((y.natAbs : Int), rest) = some (y, rest)
    rw [Int.natAbs_of_nonneg (by omega)]

theorem takes_gap (lax : Bool) (hrest : EndsBlanks rest) :
    Takes (if lax then blanks else pure ()) [] () rest := by
  cases lax
  · exact Takes.pure () rest
  · exact takes_no_blanks hrest

/-- The month and the day of a date are small positive numbers. -/
theorem civil_bounds (d : Date) :
    1 ≤ d.civil.month ∧ d.civil.month ≤ 12 ∧ 1 ≤ d.civil.day ∧ d.civil.day ≤ 31 := by
  have hlength : Civil.daysInMonth d.civil.year d.civil.month ≤ 31 := by
    unfold Civil.daysInMonth
    split
    · split <;> decide
    · split <;> decide
  obtain ⟨hm0, hm1, hd0, hd1⟩ := Civil.isValid_iff.mp (Civil.isValid_ofDayNumber d.day)
  exact ⟨hm0, hm1, hd0, Int.le_trans hd1 hlength⟩

theorem takes_existing (d : Date) (rest : List Char) :
    Takes (existing d.civil.year d.civil.month.toNat d.civil.day.toNat) [] d rest := by
  obtain ⟨hm, -, hd, -⟩ := civil_bounds d
  show (Date.ofCivil? ⟨d.civil.year, d.civil.month.toNat, d.civil.day.toNat⟩).map (·, rest) = _
  rw [Int.toNat_of_nonneg (by omega), Int.toNat_of_nonneg (by omega)]
  show (Date.ofCivil? d.civil).map (·, rest) = _
  rw [Date.ofCivil?_civil]
  rfl

theorem toList_dateText (d : Date) : d.toText.toList = (yearText d.civil.year).toList ++ (['-'] ++
    ((padded 2 d.civil.month.toNat).toList ++ (['-'] ++ (padded 2 d.civil.day.toNat).toList))) := by
  simp [Date.toText, String.toList_append, List.append_assoc]

/-- The text of a date is read as that date. -/
theorem takes_date (lax : Bool) (d : Date) (rest : List Char) :
    Takes (date lax) d.toText.toList d rest := by
  obtain ⟨hm0, hm1, hd0, hd1⟩ := civil_bounds d
  rw [toList_dateText]
  unfold date
  apply Takes.skip (takes_no_blanks (by rw [List.append_assoc]; exact endsBlanks_yearText _ _))
  apply Takes.bind (takes_year _ (endsDigits_cons (by decide) _))
  apply Takes.skip (takes_gap lax (endsBlanks_cons (by decide) _))
  apply Takes.bind (takes_char '-' _)
  apply Takes.bind (takes_field (by omega) _)
  apply Takes.skip (takes_gap lax (endsBlanks_cons (by decide) _))
  apply Takes.bind (takes_char '-' _)
  rw [← List.append_nil (padded 2 d.civil.day.toNat).toList]
  apply Takes.bind (takes_field (by omega) _)
  exact takes_existing d rest

/-! ## Times of day -/

theorem run_fraction {ds : List Char} (hds : ∀ c ∈ ds, isDigit c = true) (hne : ds ≠ [])
    (hnine : ds.length ≤ 9) (hrest : EndsDigits rest) :
    StateT.run fraction ('.' :: (ds ++ rest))
      = some (digitsValue ds * Nat.pow 10 (9 - ds.length), rest) := by
  have hempty : ds.isEmpty = false := by simpa using hne
  show fraction ('.' :: (ds ++ rest)) = _
  simp only [fraction, takeWhile_digits_append hds hrest, hempty]
  rw [List.take_of_length_le hnine, List.drop_left]
  rfl

/-- The text of a fraction with `n` in `width` places is read as that many nanoseconds. -/
theorem takes_places (width n : Nat) (hwidth : 0 < width) (hnine : width ≤ 9)
    (hn : n < Nat.pow 10 width) (hrest : EndsDigits rest) :
    Takes fraction ("." ++ padded width n).toList (n * Nat.pow 10 (9 - width)) rest := by
  have hlength := length_padded hwidth hn
  have hrun := run_fraction (fun _ => isDigit_of_mem_padded) (padded_ne_nil width n) (by omega) hrest
  rw [digitsValue_padded, hlength] at hrun
  unfold Takes
  rw [String.toList_append]
  exact hrun

/-- The fraction of a second is read back. -/
theorem takes_fraction (nano : Nat) (hrest : EndsDigits rest) (hpoint : ∀ c ∈ rest.head?, c ≠ '.') :
    Takes fraction (Timestamp.fractionText nano).toList (nano % nanosPerSecond) rest := by
  have hn : nano % nanosPerSecond < 1000000000 := Nat.mod_lt _ (by decide)
  unfold Timestamp.fractionText
  dsimp only
  generalize nano % nanosPerSecond = n at hn ⊢
  split
  · next hzero =>
    rw [hzero]
    show fraction rest = some (0, rest)
    unfold fraction
    split
    · exact absurd rfl (hpoint _ rfl)
    · rfl
  · split
    · next hmilli =>
      have htakes := takes_places 3 (n / 1000000) (by decide) (by decide)
        (by show n / 1000000 < 1000; omega) hrest
      rwa [Nat.div_mul_cancel (Nat.dvd_of_mod_eq_zero hmilli)] at htakes
    · split
      · next hmicro =>
        have htakes := takes_places 6 (n / 1000) (by decide) (by decide)
          (by show n / 1000 < 1000000; omega) hrest
        rwa [Nat.div_mul_cancel (Nat.dvd_of_mod_eq_zero hmicro)] at htakes
      · have htakes := takes_places 9 n (by decide) (by decide)
          (by show n < 1000000000; omega) hrest
        rwa [Nat.sub_self, Nat.pow_eq, Nat.pow_zero, Nat.mul_one] at htakes

/-- Neither a digit nor a point follows, so that a time of day has ended. -/
def EndsTime (cs : List Char) : Prop :=
  ∀ c ∈ cs.head?, isDigit c = false ∧ c ≠ '.'

theorem EndsTime.endsDigits (h : EndsTime rest) : EndsDigits rest := fun c hc => (h c hc).1

/-- The hour, minute and second that are written give the second of the day again, the 60th second
as the 59th of a leap minute. -/
theorem takes_timeOfDay {t : Timestamp} (ht : t.InDay) (rest : List Char) :
    Takes (timeOfDay (t.second / 3600) (t.second / 60 % 60)
        (t.second % 60 + t.nano / nanosPerSecond) (t.nano % nanosPerSecond))
      [] (t.shown.second, t.shown.nano) rest := by
  obtain ⟨hsecond, hnano⟩ := ht
  unfold secondsPerDay nanosPerSecond at *
  have hpure : ∀ p q : Nat × Nat, p = q → Takes (pure p) [] q rest := fun p q h =>
    h ▸ Takes.pure p rest
  unfold timeOfDay Timestamp.shown nanosPerSecond
  dsimp only
  apply Takes.skip
  · apply takes_require
    simp only [Bool.and_eq_true, decide_eq_true_eq]
    omega
  · -- the 60th second is written of a leap minute's last second only
    split
    · rw [if_neg (by omega)]
      apply hpure
      rw [Prod.mk.injEq]
      omega
    · apply hpure
      split
      · rw [Prod.mk.injEq]
        dsimp only
        omega
      · rw [Prod.mk.injEq]
        omega

theorem toList_timeText (t : Timestamp) : t.timeText.toList = (padded 2 (t.second / 3600)).toList
    ++ ([':'] ++ ((padded 2 (t.second / 60 % 60)).toList ++ ([':']
      ++ ((padded 2 (t.second % 60 + t.nano / nanosPerSecond)).toList
        ++ (Timestamp.fractionText t.nano).toList)))) := by
  simp [Timestamp.timeText, String.toList_append, List.append_assoc]

theorem clock_bounds {t : Timestamp} (ht : t.InDay) : t.second / 3600 < 100 ∧
    t.second / 60 % 60 < 100 ∧ t.second % 60 + t.nano / nanosPerSecond < 100 := by
  obtain ⟨hsecond, hnano⟩ := ht
  unfold secondsPerDay nanosPerSecond at *
  omega

/-- The text of a time of day is read as that time. -/
theorem takes_time (lax : Bool) {t : Timestamp} (ht : t.InDay) (hrest : EndsTime rest) :
    Takes (time lax) t.timeText.toList (t.shown.second, t.shown.nano) rest := by
  obtain ⟨hhour, hminute, hsecond⟩ := clock_bounds ht
  rw [toList_timeText]
  unfold time
  apply Takes.bind (takes_field hhour _)
  apply Takes.skip (takes_gap lax (endsBlanks_cons (by decide) _))
  apply Takes.bind (takes_char ':' _)
  apply Takes.bind (takes_field hminute _)
  apply Takes.skip (takes_gap lax (endsBlanks_cons (by decide) _))
  apply Takes.bind (takes_char ':' _)
  apply Takes.bind (takes_field hsecond _)
  rw [← List.append_nil (Timestamp.fractionText t.nano).toList]
  apply Takes.bind
  · exact takes_fraction t.nano hrest.endsDigits fun c hc => (hrest c hc).2
  exact takes_timeOfDay ht rest

/-! ## Timestamps -/

theorem endsBlanks_timeText (t : Timestamp) (cs : List Char) :
    EndsBlanks (t.timeText.toList ++ cs) := by
  rw [toList_timeText, List.append_assoc]
  exact endsBlanks_padded 2 _ _

theorem shown_eq (t : Timestamp) : (⟨t.date, t.shown.second, t.shown.nano⟩ : Timestamp) = t.shown := by
  rw [← Timestamp.date_shown]

/-- With blanks between them, date and time of a timestamp are read. -/
theorem takes_spaced {t : Timestamp} (ht : t.InDay) : Takes spaced t.toText.toList t.shown [] := by
  have htext : t.toText.toList = t.date.toText.toList ++ ([' '] ++ (t.timeText.toList ++ [])) := by
    simp [Timestamp.toText, String.toList_append]
  rw [htext]
  unfold spaced
  apply Takes.bind (takes_date false t.date _)
  apply Takes.bind (takes_blanks (by simp [Text.isBlank, Text.blankRanges])
    (by rw [List.append_assoc]; exact endsBlanks_timeText t _))
  apply Takes.bind (takes_time false ht (by simp [EndsTime]))
  show Takes (pure ⟨t.date, t.shown.second, t.shown.nano⟩) [] t.shown []
  rw [shown_eq]
  exact Takes.pure _ []

/-- A form with a `T` is not found where a blank and a digit stand. -/
theorem joined_fails (t : Timestamp) : run? joined t.toText = none := by
  have htext : t.toText.toList = t.date.toText.toList ++ ([' '] ++ t.timeText.toList) := by
    simp [Timestamp.toText, String.toList_append]
  have hblanks : Takes blanks [' '] () t.timeText.toList :=
    takes_blanks (by simp [Text.isBlank, Text.blankRanges])
      (by rw [← List.append_nil t.timeText.toList]; exact endsBlanks_timeText t [])
  obtain ⟨c, cs, hcs⟩ := List.exists_cons_of_ne_nil (padded_ne_nil 2 (t.second / 3600))
  have hdigit : isDigit c = true := isDigit_of_mem_padded (hcs ▸ List.mem_cons_self)
  have hfails : ∀ rest, char 'T' (c :: rest) = none := fun rest => if_neg (by
    rintro rfl
    exact absurd hdigit (by decide))
  apply run?_eq_none
  unfold joined
  rw [htext, (takes_date true t.date _).run_bind, hblanks.run_bind, toList_timeText, hcs,
    StateT.run_bind]
  show (char 'T' (c :: _)).bind _ = none
  rw [hfails]
  rfl

/-! ## The internet form -/

theorem takes_two {n : Nat} (h : n < 100) (rest : List Char) :
    Takes (number 2 2) (padded 2 n).toList n rest :=
  takes_padded (by decide) (by decide) h rest

theorem takes_offset : Takes offset ['+', '0', '0', ':', '0', '0'] 0 [] := by
  have hzeros : (padded 2 0).toList = ['0', '0'] := by decide +kernel
  have htext : ['+', '0', '0', ':', '0', '0']
      = ['+'] ++ ((padded 2 0).toList ++ ([':'] ++ ((padded 2 0).toList ++ []))) := by
    rw [hzeros]
    rfl
  rw [htext]
  unfold offset offsetWith
  apply Takes.bind (takes_oneOf (by decide) _)
  rw [if_neg (by decide)]
  apply Takes.bind (takes_two (by decide) _)
  apply Takes.bind (takes_char ':' _)
  apply Takes.bind (takes_two (by decide) _)
  apply Takes.skip (takes_require rfl _)
  exact Takes.pure 0 []

theorem takes_inUniversalTime {t : Timestamp} (h : t.second < secondsPerDay) (rest : List Char) :
    Takes (inUniversalTime t 0) [] t rest := by
  show (t.addSeconds? 0).map (·, rest) = _
  rw [Timestamp.addSeconds?_zero h]
  rfl

theorem toList_universalText (t : Timestamp) : t.toUniversalText.toList
    = (yearText t.date.civil.year).toList ++ (['-'] ++ ((padded 2 t.date.civil.month.toNat).toList
      ++ (['-'] ++ ((padded 2 t.date.civil.day.toNat).toList ++ (['T']
      ++ ((padded 2 (t.second / 3600)).toList ++ ([':'] ++ ((padded 2 (t.second / 60 % 60)).toList
      ++ ([':'] ++ ((padded 2 (t.second % 60 + t.nano / nanosPerSecond)).toList
      ++ ((Timestamp.fractionText t.nano).toList ++ ['+', '0', '0', ':', '0', '0']))))))))))) := by
  simp [Timestamp.toUniversalText, toList_dateText, toList_timeText, String.toList_append]

/-- The internet form of a timestamp in a year of four digits is read as what it shows. -/
theorem takes_internet {t : Timestamp} (ht : t.InDay) (hyear : t.FourDigitYear) :
    Takes internet t.toUniversalText.toList t.shown [] := by
  obtain ⟨h0, h1⟩ := hyear
  obtain ⟨hm0, hm1, hd0, hd1⟩ := civil_bounds t.date
  obtain ⟨hhour, hminute, hsecond⟩ := clock_bounds ht
  have hfour : (yearText t.date.civil.year).toList = (padded 4 t.date.civil.year.toNat).toList := by
    rw [yearText, if_pos ⟨h0, h1⟩]
  have hexisting := takes_existing t.date
  rw [← Int.toNat_of_nonneg h0] at hexisting
  rw [toList_universalText, hfour]
  unfold internet
  apply Takes.bind (takes_padded (by decide) (by decide) (by show _ < 10000; omega) _)
  apply Takes.bind (takes_char '-' _)
  apply Takes.bind (takes_two (by omega) _)
  apply Takes.bind (takes_char '-' _)
  apply Takes.bind (takes_two (by omega) _)
  apply Takes.skip (hexisting _)
  apply Takes.bind (takes_oneOf (by decide) _)
  apply Takes.bind (takes_two hhour _)
  apply Takes.bind (takes_char ':' _)
  apply Takes.bind (takes_two hminute _)
  apply Takes.bind (takes_char ':' _)
  apply Takes.bind (takes_two hsecond _)
  apply Takes.bind (takes_fraction t.nano (endsDigits_cons (by decide) _) (by simp))
  apply Takes.skip (takes_timeOfDay ht _)
  rw [← List.append_nil ['+', '0', '0', ':', '0', '0']]
  apply Takes.bind takes_offset
  show Takes (inUniversalTime ⟨t.date, t.shown.second, t.shown.nano⟩ 0) [] t.shown []
  rw [shown_eq]
  exact takes_inUniversalTime ht.shown.second_lt []

/-- No sign stands before the four digits of a year. -/
theorem internet_fails {t : Timestamp} (h : ¬t.FourDigitYear) :
    run? internet t.toUniversalText = none := by
  have hsign : ∀ c cs, c = '-' ∨ c = '+' → StateT.run internet (c :: cs) = none := by
    intro c cs hc
    have hdigits : digits 4 4 (c :: cs) = none := by
      unfold digits
      rw [List.take_succ_cons, List.takeWhile_cons_of_neg (by rw [isDigit_of_mem_sign hc]; decide)]
      rfl
    unfold internet number
    rw [StateT.run_bind, StateT.run_bind]
    show ((digits 4 4 (c :: cs)).bind _).bind _ = none
    rw [hdigits]
    rfl
  apply run?_eq_none
  rw [toList_universalText]
  rcases toList_yearText t.date.civil.year with ⟨h0, h1, -⟩ | ⟨-, htext⟩ | ⟨-, htext⟩
  · exact absurd ⟨h0, h1⟩ h
  · rw [htext]
    exact hsign '-' _ (.inl rfl)
  · rw [htext]
    exact hsign '+' _ (.inr rfl)

end SqlBuilder.Calendar.Reader

namespace SqlBuilder.Calendar

open Reader Text

/-! ## Reading what was written -/

variable {t : Timestamp}

theorem Date.ofText?_toText (d : Date) : Date.ofText? d.toText = some d := by
  apply run?_eq
  rw [← List.append_nil d.toText.toList]
  apply Takes.bind (takes_date true d _)
  apply Takes.skip (takes_no_blanks (by simp [EndsBlanks]))
  exact Takes.pure d []

/-- The text of a timestamp is read as what it shows. -/
theorem Timestamp.ofText?_toText (ht : t.InDay) :
    Timestamp.ofText? t.toText = some t.shown := by
  rw [Timestamp.ofText?, joined_fails, run?_eq (takes_spaced ht)]
  rfl

/-- The internet form of a timestamp is read as what it shows in a year of four digits, and not at
all in any other year. -/
theorem Timestamp.ofUniversalText?_toUniversalText (ht : t.InDay) :
    Timestamp.ofUniversalText? t.toUniversalText
      = if t.FourDigitYear then some t.shown else none := by
  split
  · next h => exact run?_eq (takes_internet ht h)
  · next h => exact internet_fails h

/-! ## No blanks at the ends -/

theorem endsBlanks_dateText (d : Date) (cs : List Char) : EndsBlanks (d.toText.toList ++ cs) := by
  rw [toList_dateText, List.append_assoc]
  exact endsBlanks_yearText _ _

/-- A text that ends in digits ends in no blank. -/
theorem endsBlanks_reverse {ds : List Char} (hne : ds ≠ []) (hds : ∀ c ∈ ds, Number.isDigit c = true)
    (before : List Char) : EndsBlanks (before ++ ds).reverse := by
  rw [List.reverse_append]
  exact endsBlanks_digits (by simpa using hne) (fun c hc => hds c (List.mem_reverse.mp hc)) _

theorem endsBlanks_padded_reverse (width n : Nat) (before : List Char) :
    EndsBlanks (before ++ (Number.padded width n).toList).reverse :=
  endsBlanks_reverse (Number.padded_ne_nil width n) (fun _ => Number.isDigit_of_mem_padded) before

theorem endsBlanks_timeText_reverse (t : Timestamp) (before : List Char) :
    EndsBlanks (before ++ t.timeText.toList).reverse := by
  rw [toList_timeText]
  simp only [← List.append_assoc]
  unfold Timestamp.fractionText
  dsimp only
  split
  · rw [String.toList_empty, List.append_nil]
    exact endsBlanks_padded_reverse _ _ _
  · split
    · rw [String.toList_append, ← List.append_assoc]
      exact endsBlanks_padded_reverse _ _ _
    · split
      · rw [String.toList_append, ← List.append_assoc]
        exact endsBlanks_padded_reverse _ _ _
      · rw [String.toList_append, ← List.append_assoc]
        exact endsBlanks_padded_reverse _ _ _

theorem Date.trim_toText (d : Date) : trim d.toText = d.toText := by
  apply trim_eq_self
  · rw [← List.append_nil d.toText.toList]
    exact endsBlanks_dateText d []
  · rw [toList_dateText]
    simp only [← List.append_assoc]
    exact endsBlanks_padded_reverse _ _ _

theorem Timestamp.trim_toText (t : Timestamp) : trim t.toText = t.toText := by
  have htext : t.toText.toList = t.date.toText.toList ++ " ".toList ++ t.timeText.toList := by
    rw [Timestamp.toText, String.toList_append, String.toList_append]
  apply trim_eq_self
  · rw [htext, List.append_assoc]
    exact endsBlanks_dateText _ _
  · rw [htext]
    exact endsBlanks_timeText_reverse t _

theorem Timestamp.trim_toUniversalText (t : Timestamp) :
    trim t.toUniversalText = t.toUniversalText := by
  apply trim_eq_self
  · rw [toList_universalText]
    exact endsBlanks_yearText _ _
  · have hend : ['+', '0', '0', ':', '0', '0'] = ['+', '0', '0', ':', '0'] ++ ['0'] := rfl
    rw [toList_universalText, hend]
    simp only [← List.append_assoc]
    exact endsBlanks_reverse (by simp) (by simp [Number.isDigit]) _

end SqlBuilder.Calendar
