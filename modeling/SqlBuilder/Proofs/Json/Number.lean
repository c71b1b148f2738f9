import SqlBuilder.Json.Printer
import SqlBuilder.Json.Parser
import SqlBuilder.Proofs.Number.Digits
import SqlBuilder.Proofs.Number.Shortest

/-!
# Numbers of documents read back

A number that was written is read as a number, whatever follows it.  Of a floating point number this
needs more than the syntax, since a reader computes it as one product of two rounded factors, and
gives up if that is infinite: the fewest digits of a finite number stand for less than the numbers
that round to infinity, and the product exceeds them by two parts in `2 ^ 53` at most.
-/

namespace SqlBuilder.Json

open Number

/-! ## The range of products -/

/-- What digits may stand for so that the number computed from them is finite. -/
def safeBound : ℚ :=
  18014398509481979 * (2 : ℚ) ^ (970 : ℤ)

/-- Two roundings do not lead from the bound to an infinity. -/
theorem safeBound_rounded : safeBound * (1 + (2 : ℚ) ^ (-53 : ℤ)) * (1 + (2 : ℚ) ^ (-53 : ℤ))
    < (2 : ℚ) ^ (1024 : ℤ) - (2 : ℚ) ^ (970 : ℤ) := by
  have hunit : (0 : ℚ) < (2 : ℚ) ^ (970 : ℤ) := by positivity
  rw [safeBound, show (1024 : ℤ) = 54 + 970 by rfl, zpow_add₀ two_ne_zero]
  generalize (2 : ℚ) ^ (970 : ℤ) = unit at hunit ⊢
  norm_num
  linarith

theorem safeBound_lt : safeBound < (2 : ℚ) ^ (1024 : ℤ) - (2 : ℚ) ^ (970 : ℤ) := by
  have hunit : (0 : ℚ) < (2 : ℚ) ^ (970 : ℤ) := by positivity
  rw [safeBound, show (1024 : ℤ) = 54 + 970 by rfl, zpow_add₀ two_ne_zero]
  generalize (2 : ℚ) ^ (970 : ℤ) = unit at hunit ⊢
  norm_num
  linarith

/-- A power of ten below the bound has at most 308 zeros. -/
theorem le_of_tens_le {e : ℤ} (h : (10 : ℚ) ^ e ≤ safeBound) : e ≤ 308 := by
  by_contra hlt
  have hpow : (10 : ℚ) ^ (309 : ℤ) ≤ (10 : ℚ) ^ e := zpow_le_zpow_right₀ (by norm_num) (by omega)
  have htens : (10 : ℚ) ^ (309 : ℤ) = (10 : ℚ) ^ 17 * ((10 : ℚ) ^ 73) ^ 4 := by
    rw [show (309 : ℤ) = ((17 + 73 * 4 : ℕ) : ℤ) by rfl, zpow_natCast, pow_add, pow_mul]
  have htwos : (2 : ℚ) ^ (970 : ℤ) = (2 : ℚ) ^ 2 * ((2 : ℚ) ^ 242) ^ 4 := by
    rw [show (970 : ℤ) = ((2 + 242 * 4 : ℕ) : ℤ) by rfl, zpow_natCast, pow_add, pow_mul]
  have hunit : ((2 : ℚ) ^ 242) ^ 4 ≤ ((10 : ℚ) ^ 73) ^ 4 :=
    pow_le_pow_left₀ (by positivity) (by norm_num) 4
  have hpos : (0 : ℚ) < ((2 : ℚ) ^ 242) ^ 4 := by positivity
  have hchain := le_trans hpow h
  rw [safeBound, htens, htwos] at hchain
  generalize ((2 : ℚ) ^ 242) ^ 4 = low at hchain hunit hpos
  generalize ((10 : ℚ) ^ 73) ^ 4 = high at hchain hunit
  norm_num at hchain
  linarith

/-- A small significand is rounded to a number that exceeds it hardly. -/
theorem exists_value_ofInt {n : Nat} (hpos : 0 < n) (hn : n < Nat.pow 2 64) :
    ∃ m k, (Binary64.ofInt n).value = .finite false m k ∧ (1 : ℚ) ≤ m * (2 : ℚ) ^ k ∧
      m * (2 : ℚ) ^ k ≤ n * (1 + (2 : ℚ) ^ (-53 : ℤ)) := by
  have hone : (1 : ℚ) ≤ (n : ℚ) / (1 : ℕ) := by
    rw [Nat.cast_one, div_one]
    exact_mod_cast hpos
  have hlt : (n : ℚ) / (1 : ℕ) < (2 : ℚ) ^ (1024 : ℤ) - (2 : ℚ) ^ (970 : ℤ) := by
    have hsmall : (n : ℚ) ≤ 18446744073709551616 := by exact_mod_cast hn.le
    have hunit : (2 : ℚ) ^ (64 : ℤ) ≤ (2 : ℚ) ^ (970 : ℤ) :=
      zpow_le_zpow_right₀ (by norm_num) (by norm_num)
    rw [Nat.cast_one, div_one, show (1024 : ℤ) = 54 + 970 by rfl, zpow_add₀ two_ne_zero]
    generalize (2 : ℚ) ^ (970 : ℤ) = unit at hunit ⊢
    norm_num at hunit ⊢
    linarith
  obtain ⟨m, k, hvalue, hge, hle⟩ := exists_value_ofBits_round false (by decide) hone hlt
  rw [Nat.cast_one, div_one] at hle
  refine ⟨m, k, ?_, hge, hle⟩
  have hsign : decide ((n : Int) < 0) = false := decide_eq_false (by omega)
  rw [Binary64.ofInt, hsign, Int.natAbs_natCast]
  exact hvalue

/-- A power of ten below the bound is rounded to a number that exceeds it hardly. -/
theorem exists_value_tenTo {e : Nat} (he : (10 : ℚ) ^ (e : ℤ) ≤ safeBound) :
    ∃ m k, (tenTo e).value = .finite false m k ∧ (1 : ℚ) ≤ m * (2 : ℚ) ^ k ∧
      m * (2 : ℚ) ^ k ≤ (10 : ℚ) ^ (e : ℤ) * (1 + (2 : ℚ) ^ (-53 : ℤ)) := by
  have hsize := le_of_tens_le he
  have hdiv := scaleTen_div 1 1 (e : ℤ)
  have hden := den_scaleTen_pos 1 (by decide : 0 < 1) (e : ℤ)
  rw [Nat.cast_one, div_one, one_mul] at hdiv
  have hone : (1 : ℚ) ≤ (scaleTen 1 1 e).1 / (scaleTen 1 1 e).2 := by
    rw [hdiv]
    exact one_le_zpow₀ (by norm_num) (by omega)
  obtain ⟨m, k, hvalue, hge, hle⟩ := exists_value_ofBits_round false hden hone
    (by rw [hdiv]; exact lt_of_le_of_lt he safeBound_lt)
  rw [hdiv] at hle
  refine ⟨m, k, ?_, hge, hle⟩
  have hdigits : ((toString 1).length : ℤ) = 1 := rfl
  rw [tenTo, Binary64.ofDecimal, BinaryFormat.ofDecimal]
  dsimp only
  rw [hdigits, if_neg (by simp; omega), if_neg (by omega)]
  exact hvalue

/-- **Digits that stand for a number below the bound are a number.** -/
theorem exists_floatOfSignificand? (negative : Bool) {s : Significand} (hvalue : s.value < Nat.pow 2 64)
    (hle : (s.value : ℚ) * (10 : ℚ) ^ s.exponent ≤ safeBound) :
    ∃ x, floatOfSignificand? negative s = some x := by
  unfold floatOfSignificand?
  dsimp only
  split
  · exact ⟨_, rfl⟩
  · next hzero =>
    split
    · next hexp =>
      have hpos : 0 < s.value := Nat.pos_of_ne_zero hzero
      have hcast : ((s.exponent.toNat : ℕ) : ℤ) = s.exponent := Int.toNat_of_nonneg hexp
      have hone : (1 : ℚ) ≤ s.value := by exact_mod_cast hpos
      have htens : (10 : ℚ) ^ ((s.exponent.toNat : ℕ) : ℤ) ≤ safeBound := by
        rw [hcast]
        refine le_trans ?_ hle
        exact le_mul_of_one_le_left (by positivity) hone
      obtain ⟨m, e, hx, hx1, hx2⟩ := exists_value_ofInt hpos hvalue
      obtain ⟨n, k, hy, hy1, hy2⟩ := exists_value_tenTo htens
      have hfinite : ((Binary64.ofInt s.value).mul (tenTo s.exponent.toNat)).isFinite = true := by
        apply isFinite_mul hx hy
        · exact one_le_mul_of_one_le_of_one_le hx1 hy1
        · refine lt_of_le_of_lt ?_ safeBound_rounded
          rw [hcast] at hy2
          have hpart : (0 : ℚ) < 1 + (2 : ℚ) ^ (-53 : ℤ) := by positivity
          calc (m : ℚ) * (2 : ℚ) ^ e * (n * (2 : ℚ) ^ k)
              ≤ s.value * (1 + (2 : ℚ) ^ (-53 : ℤ))
                * ((10 : ℚ) ^ s.exponent * (1 + (2 : ℚ) ^ (-53 : ℤ))) := by gcongr
            _ = s.value * (10 : ℚ) ^ s.exponent * (1 + (2 : ℚ) ^ (-53 : ℤ))
                * (1 + (2 : ℚ) ^ (-53 : ℤ)) := by ring
            _ ≤ safeBound * (1 + (2 : ℚ) ^ (-53 : ℤ)) * (1 + (2 : ℚ) ^ (-53 : ℤ)) := by gcongr
      rw [if_pos (hcast ▸ le_of_tens_le htens), if_pos hfinite]
      exact ⟨_, rfl⟩
    · exact ⟨_, rfl⟩

/-! ## The parts of a number -/

/-- Nothing follows that would belong to a number. -/
def EndsNumber (cs : List Char) : Prop :=
  ∀ c ∈ cs.head?, isDigit c = false ∧ c ≠ '.' ∧ c ≠ 'e' ∧ c ≠ 'E'

variable {ds rest : List Char}

theorem endsNumber_nil : EndsNumber [] := by
  simp [EndsNumber]

theorem EndsNumber.endsDigits (h : EndsNumber rest) : EndsDigits rest := fun c hc => (h c hc).1

theorem takeFraction?_none (h : ∀ c ∈ rest.head?, c ≠ '.') :
    takeFraction? rest = some (none, rest) := by
  unfold takeFraction?
  split
  · exact absurd rfl (h _ rfl)
  · rfl

theorem takeFraction?_some (hne : ds ≠ []) (hds : ∀ c ∈ ds, isDigit c = true)
    (hrest : EndsDigits rest) : takeFraction? ('.' :: (ds ++ rest)) = some (some ds, rest) := by
  have hempty : ds.isEmpty = false := by simpa using hne
  rw [takeFraction?, takeWhile_digits_append hds hrest, dropWhile_digits_append hds hrest, hempty]
  rfl

theorem takeMarkedPower?_none (h : EndsNumber rest) :
    takeMarkedPower? rest = some (none, rest) := by
  unfold takeMarkedPower?
  split
  · exact absurd rfl (h _ rfl).2.2.1
  · exact absurd rfl (h _ rfl).2.2.2
  · rfl

/-- A power of ten with its sign. -/
theorem takeMarkedPower?_some (k : Int) (hrest : EndsDigits rest) :
    takeMarkedPower? ('e' :: (if k < 0 then '-' else '+') :: ((toString k.natAbs).toList ++ rest))
      = some (some k, rest) := by
  have hdigits : ∀ c ∈ (toString k.natAbs).toList, isDigit c = true := fun _ =>
    isDigit_of_mem_digits
  have hempty : (toString k.natAbs).toList.isEmpty = false := by
    rw [toList_toString]
    simp
  have hpower : ∀ sign : Char, sign = '-' ∨ sign = '+' →
      takePower? (sign :: ((toString k.natAbs).toList ++ rest))
        = some (if sign = '-' then -(k.natAbs : Int) else k.natAbs, rest) := by
    rintro sign (rfl | rfl)
    · simp only [takePower?, takeWhile_digits_append hdigits hrest,
        dropWhile_digits_append hdigits hrest, hempty, digitsValue_toString]
      rfl
    · simp only [takePower?, takeWhile_digits_append hdigits hrest,
        dropWhile_digits_append hdigits hrest, hempty, digitsValue_toString]
      rfl
  rw [takeMarkedPower?]
  split
  · rw [hpower '-' (.inl rfl), if_pos rfl, Int.ofNat_natAbs_of_nonpos (by omega), Int.neg_neg]
    rfl
  · rw [hpower '+' (.inr rfl), if_neg (by decide), Int.natAbs_of_nonneg (by omega)]
    rfl

/-- A number is taken if its parts are. -/
theorem takeNumber?_eq {whole behind : List Char} {fraction : Option (List Char)}
    {power : Option Int} {middle : List Char} (hne : whole ≠ [])
    (hwhole : ∀ c ∈ whole, isDigit c = true) (hzero : whole.head? = some '0' → whole.length = 1)
    (hbehind : EndsDigits behind) (hfraction : takeFraction? behind = some (fraction, middle))
    (hpower : takeMarkedPower? middle = some (power, rest)) :
    takeNumber? (whole ++ behind) = some (⟨whole, fraction, power⟩, rest) := by
  have hcond : (whole.isEmpty || (decide (whole.head? = some '0') && decide (1 < whole.length)))
      = false := by
    have hempty : whole.isEmpty = false := by simpa using hne
    rw [hempty, Bool.false_or, Bool.and_eq_false_iff, decide_eq_false_iff_not,
      decide_eq_false_iff_not]
    by_cases h : whole.head? = some '0'
    · exact .inr (by rw [hzero h]; decide)
    · exact .inl h
  unfold takeNumber?
  dsimp only
  rw [takeWhile_digits_append hwhole hbehind, dropWhile_digits_append hwhole hbehind, hcond,
    hfraction]
  show (takeMarkedPower? middle).bind _ = _
  rw [hpower]
  rfl

/-! ## What the parts stand for -/

/-- Digits that fit in 64 bits are all kept. -/
theorem wholeDigits_eq {n : Nat} (h : Nat.ofDigitChars 10 ds n < Nat.pow 2 64) :
    wholeDigits ⟨n, 0⟩ ds = ⟨Nat.ofDigitChars 10 ds n, 0⟩ := by
  induction ds generalizing n with
  | nil => rfl
  | cons c ds ih =>
      have hcons : Nat.ofDigitChars 10 (c :: ds) n
          = Nat.ofDigitChars 10 ds (n * 10 + (c.toNat - 48)) := by
        rw [Nat.ofDigitChars_cons, Nat.mul_comm]
        rfl
      rw [hcons] at h ⊢
      have hnext : n * 10 + (c.toNat - 48) < Nat.pow 2 64 := by
        refine Nat.lt_of_le_of_lt ?_ h
        rw [Nat.ofDigitChars_eq_ofDigitChars_zero]
        have hpow : 0 < 10 ^ ds.length := Nat.pow_pos (by decide)
        exact Nat.le_add_right_of_le (Nat.le_mul_of_pos_left _ hpow)
      show (if (0 : Int) = 0 ∧ n * 10 + (c.toNat - 48) < Nat.pow 2 64
        then wholeDigits ⟨n * 10 + (c.toNat - 48), 0⟩ ds else wholeDigits ⟨n, 0 + 1⟩ ds) = _
      rw [if_pos ⟨rfl, hnext⟩]
      exact ih h

/-- Digits that are dropped behind the point only make the number smaller. -/
theorem fractionDigits_spec (ds : List Char) {s : Significand} (hs : s.value < Nat.pow 2 64) :
    (fractionDigits s ds).value < Nat.pow 2 64 ∧
      ((fractionDigits s ds).value : ℚ) * (10 : ℚ) ^ (fractionDigits s ds).exponent
        ≤ Nat.ofDigitChars 10 ds s.value * (10 : ℚ) ^ (s.exponent - ds.length) := by
  induction ds generalizing s with
  | nil =>
      refine ⟨hs, ?_⟩
      rw [List.length_nil, Int.natCast_zero, Int.sub_zero]
      exact le_refl _
  | cons c ds ih =>
      have hshift : s.exponent - ((c :: ds).length : ℤ) = s.exponent - 1 - ds.length := by
        rw [List.length_cons]
        omega
      have hcons : Nat.ofDigitChars 10 (c :: ds) s.value
          = Nat.ofDigitChars 10 ds (s.value * 10 + (c.toNat - 48)) := by
        rw [Nat.ofDigitChars_cons, Nat.mul_comm]
        rfl
      unfold fractionDigits
      dsimp only
      split
      · next hnext =>
        rw [hshift, hcons]
        exact ih hnext
      · refine ⟨hs, ?_⟩
        have hdigits : (s.value : ℚ) * (10 : ℚ) ^ ((c :: ds).length : ℤ)
            ≤ Nat.ofDigitChars 10 (c :: ds) s.value := by
          rw [Nat.ofDigitChars_eq_ofDigitChars_zero, zpow_natCast]
          push_cast
          rw [mul_comm]
          exact le_add_of_nonneg_right (by positivity)
        calc (s.value : ℚ) * (10 : ℚ) ^ s.exponent
            = s.value * (10 : ℚ) ^ ((c :: ds).length : ℤ)
              * (10 : ℚ) ^ (s.exponent - (c :: ds).length) := by
                rw [mul_assoc, ← zpow_add₀ (by norm_num)]
                congr 2
                ring
          _ ≤ _ := by gcongr

/-- The parts of a number that is no integer are read as digits and a power of ten that stand for
the number, or for less. -/
theorem exists_significand {t : NumberText} (hwhole : digitsValue t.whole < Nat.pow 2 64)
    (hmarked : t.fraction.isSome = true ∨ t.power.isSome = true) : ∃ s : Significand,
      s.value < Nat.pow 2 64 ∧
      (s.value : ℚ) * (10 : ℚ) ^ s.exponent ≤ digitsValue (t.whole ++ t.fraction.getD [])
        * (10 : ℚ) ^ (t.power.getD 0 - (t.fraction.getD []).length) ∧
      ∀ negative, t.value? negative = (floatOfSignificand? negative s).map .float := by
  have hdigits : wholeDigits ⟨0, 0⟩ t.whole = ⟨digitsValue t.whole, 0⟩ := by
    rw [digitsValue_eq] at hwhole ⊢
    exact wholeDigits_eq hwhole
  obtain ⟨hvalue, hle⟩ := fractionDigits_spec (t.fraction.getD [])
    (s := ⟨digitsValue t.whole, 0⟩) hwhole
  generalize hr : fractionDigits ⟨digitsValue t.whole, 0⟩ (t.fraction.getD []) = r at hvalue hle
  refine ⟨⟨r.value, r.exponent + t.power.getD 0⟩, hvalue, ?_, ?_⟩
  · have hjoined : digitsValue (t.whole ++ t.fraction.getD [])
        = Nat.ofDigitChars 10 (t.fraction.getD []) (digitsValue t.whole) := by
      rw [digitsValue_eq, Nat.ofDigitChars_append, ← digitsValue_eq]
    rw [hjoined]
    calc (r.value : ℚ) * (10 : ℚ) ^ (r.exponent + t.power.getD 0)
        = r.value * (10 : ℚ) ^ r.exponent * (10 : ℚ) ^ t.power.getD 0 := by
          rw [zpow_add₀ (by norm_num), mul_assoc]
      _ ≤ Nat.ofDigitChars 10 (t.fraction.getD []) (digitsValue t.whole)
          * (10 : ℚ) ^ (0 - ((t.fraction.getD []).length : ℤ)) * (10 : ℚ) ^ t.power.getD 0 := by
          gcongr
      _ = _ := by
          rw [mul_assoc, ← zpow_add₀ (by norm_num)]
          congr 2
          ring
  · intro negative
    have hcond : (t.fraction.isNone && t.power.isNone) = false := by
      rcases hmarked with h | h
      · simp [Option.isNone_eq_false_iff.mpr h]
      · simp [Option.isNone_eq_false_iff.mpr h]
    rw [NumberText.value?]
    dsimp only
    rw [hcond, hdigits, hr]
    rfl

/-! ## Integers -/

theorem toNat_lt_of_jsonInteger (n : JsonInteger) : n.value.natAbs < Nat.pow 2 64 := by
  have hlow := n.lower
  have hhigh := n.upper
  have h63 : Nat.pow 2 63 = 9223372036854775808 := by decide
  have h64 : Nat.pow 2 64 = 18446744073709551616 := by decide
  rw [h63] at hlow
  rw [h64] at hhigh ⊢
  omega

theorem value?_whole (negative : Bool) (whole : List Char) :
    NumberText.value? negative ⟨whole, none, none⟩
      = integerOrFloat? negative (wholeDigits ⟨0, 0⟩ whole) := by
  unfold NumberText.value?
  exact if_pos rfl

/-- **The digits of an integer are read as that integer.** -/
theorem readNumber?_integer (n : JsonInteger) (hrest : EndsNumber rest) :
    readNumber? (n.value < 0) ((toString n.value.natAbs).toList ++ rest)
      = some (.integer n, rest) := by
  have htaken : takeNumber? ((toString n.value.natAbs).toList ++ rest)
      = some (⟨(toString n.value.natAbs).toList, none, none⟩, rest) := by
    refine takeNumber?_eq ?_ (fun _ => isDigit_of_mem_digits) ?_ hrest.endsDigits
      (takeFraction?_none fun c hc => (hrest c hc).2.1) (takeMarkedPower?_none hrest)
    · rw [toList_toString]
      simp
    · intro hzero
      have hnone : n.value.natAbs = 0 := by
        by_contra hne
        exact head?_toString hne hzero
      rw [hnone]
      rfl
  have hdigits : wholeDigits ⟨0, 0⟩ (toString n.value.natAbs).toList = ⟨n.value.natAbs, 0⟩ := by
    have hvalue := digitsValue_toString n.value.natAbs
    rw [digitsValue_eq] at hvalue
    rw [wholeDigits_eq (by rw [hvalue]; exact toNat_lt_of_jsonInteger n), hvalue]
  have hsigned : (if n.value < 0 then -(n.value.natAbs : Int) else n.value.natAbs) = n.value := by
    split <;> omega
  have hinteger : integerOrFloat? (n.value < 0) ⟨n.value.natAbs, 0⟩ = some (.integer n) := by
    have hsome : JsonInteger.ofInt? n.value = some n := dif_pos ⟨n.lower, n.upper⟩
    have hcond : ((0 : Int) = 0 ∧ (!(decide (n.value < 0) && decide (n.value.natAbs = 0))) = true) := by
      refine ⟨rfl, ?_⟩
      simp
      omega
    unfold integerOrFloat?
    simp only [decide_eq_true_eq]
    rw [hsigned, if_pos (by simpa using hcond), hsome]
  rw [readNumber?, htaken, Option.bind_eq_bind, Option.bind_some]
  dsimp only
  rw [value?_whole, hdigits, hinteger, Option.map_some]

/-! ## Decimals -/

/-- The parts of a number stand for the decimal, and show that it is no integer. -/
structure Spells (t : NumberText) (d : DecimalDigits) : Prop where
  whole_lt : digitsValue t.whole < Nat.pow 2 64
  marked : t.fraction.isSome = true ∨ t.power.isSome = true
  value_eq : (digitsValue (t.whole ++ t.fraction.getD []) : ℚ)
    * (10 : ℚ) ^ (t.power.getD 0 - (t.fraction.getD []).length) = d.toRat

/-- The text is taken as the parts, whatever follows that does not belong to a number. -/
def TakenAs (text : List Char) (t : NumberText) : Prop :=
  ∀ rest, EndsNumber rest → takeNumber? (text ++ rest) = some (t, rest)

variable {d : DecimalDigits}

theorem isDigit_of_mem_decimal {c : Char} (h : c ∈ d.digits) : isDigit c = true :=
  isDigit_of_mem_digits h

theorem digits_ne_nil (d : DecimalDigits) : d.digits ≠ [] := by
  rw [DecimalDigits.digits, toList_toString]
  simp

theorem digitsValue_digits (d : DecimalDigits) : digitsValue d.digits = d.coefficient :=
  digitsValue_toString d.coefficient

theorem digits_length_pos (d : DecimalDigits) : 0 < d.digits.length :=
  List.length_pos_of_ne_nil (digits_ne_nil d)

/-- Digits up to the sixteenth place fit in 64 bits. -/
theorem digitsValue_lt_of_length_le {ds : List Char} (hds : ∀ c ∈ ds, isDigit c = true)
    (h : ds.length ≤ 16) : digitsValue ds < Nat.pow 2 64 := by
  refine Nat.lt_of_lt_of_le (digitsValue_lt hds) (Nat.le_trans (Nat.pow_le_pow_right (by decide) h) ?_)
  decide

/-- A point with digits behind it, and no power of ten. -/
theorem takenAs_point {whole fraction : List Char} (hne : whole ≠ []) (hfne : fraction ≠ [])
    (hwhole : ∀ c ∈ whole, isDigit c = true) (hfraction : ∀ c ∈ fraction, isDigit c = true)
    (hzero : whole.head? = some '0' → whole.length = 1) :
    TakenAs (whole ++ '.' :: fraction) ⟨whole, some fraction, none⟩ := by
  intro rest hrest
  rw [List.append_assoc, List.cons_append]
  exact takeNumber?_eq hne hwhole hzero (endsDigits_cons (by decide) _)
    (takeFraction?_some hfne hfraction hrest.endsDigits) (takeMarkedPower?_none hrest)

/-- A whole number in full, with a zero behind the point. -/
theorem spells_whole (hd : d.Regular) (hexp : 0 ≤ d.exponent)
    (hlead : d.exponent + d.digits.length - 1 ≤ 15) : ∃ t,
      TakenAs (d.positional ++ ['.', '0']) t ∧ Spells t d := by
  have htext : d.positional = d.digits ++ List.replicate d.exponent.toNat '0' := by
    rw [DecimalDigits.positional]
    exact if_pos hexp
  have hdigits : ∀ c ∈ d.digits ++ List.replicate d.exponent.toNat '0', isDigit c = true := by
    intro c hc
    rcases List.mem_append.mp hc with hc | hc
    · exact isDigit_of_mem_decimal hc
    · rw [List.eq_of_mem_replicate hc]
      decide
  have hvalue : digitsValue (d.digits ++ List.replicate d.exponent.toNat '0')
      = Nat.pow 10 d.exponent.toNat * d.coefficient := by
    rw [digitsValue_eq, Nat.ofDigitChars_append, Nat.ofDigitChars_replicate_zero, ← digitsValue_eq,
      digitsValue_digits]
    rfl
  refine ⟨⟨d.digits ++ List.replicate d.exponent.toNat '0', some ['0'], none⟩, ?_, ?_, .inl rfl, ?_⟩
  · rw [htext]
    refine takenAs_point (by simp [digits_ne_nil]) (by simp) hdigits (by simp [isDigit]) ?_
    intro hhead
    have hfirst : d.digits.head? = some '0' := by
      rw [List.head?_append_of_ne_nil _ (digits_ne_nil d)] at hhead
      exact hhead
    have hzero : d.coefficient = 0 := by
      by_contra hne
      exact head?_toString hne hfirst
    have hlast : d.exponent = 0 := hd.resolve_left fun hne => hne hzero
    rw [hlast, DecimalDigits.digits, hzero]
    rfl
  · apply digitsValue_lt_of_length_le hdigits
    rw [List.length_append, List.length_replicate]
    omega
  · dsimp only [DecimalDigits.toRat]
    rw [Option.getD_some, Option.getD_none, digitsValue_append, hvalue]
    have hpow : (10 : ℚ) ^ d.exponent = (10 : ℚ) ^ d.exponent.toNat := by
      rw [← zpow_natCast, Int.toNat_of_nonneg hexp]
    have hzero : digitsValue ['0'] = 0 := rfl
    rw [hpow, hzero]
    simp only [Nat.pow_eq, List.length_cons, List.length_nil]
    push_cast
    norm_num
    ring

/-- Digits on both sides of the point. -/
theorem spells_point (hd : d.Regular) (hexp : d.exponent < 0)
    (hplaces : (-d.exponent).toNat < d.digits.length)
    (hlead : d.exponent + d.digits.length - 1 ≤ 15) : ∃ t,
      TakenAs d.positional t ∧ Spells t d := by
  have htext : d.positional = d.digits.take (d.digits.length - (-d.exponent).toNat)
      ++ '.' :: d.digits.drop (d.digits.length - (-d.exponent).toNat) := by
    rw [DecimalDigits.positional]
    dsimp only
    rw [if_neg (by omega), if_pos hplaces]
  have hnonzero : d.coefficient ≠ 0 := hd.resolve_right (by omega)
  have htake : ∀ c ∈ d.digits.take (d.digits.length - (-d.exponent).toNat), isDigit c = true :=
    fun c hc => isDigit_of_mem_decimal (List.mem_of_mem_take hc)
  refine ⟨⟨d.digits.take (d.digits.length - (-d.exponent).toNat),
    some (d.digits.drop (d.digits.length - (-d.exponent).toNat)), none⟩, ?_, ?_, .inl rfl, ?_⟩
  · rw [htext]
    apply takenAs_point
    · apply List.ne_nil_of_length_pos
      rw [List.length_take]
      omega
    · apply List.ne_nil_of_length_pos
      rw [List.length_drop]
      omega
    · exact htake
    · exact fun c hc => isDigit_of_mem_decimal (List.mem_of_mem_drop hc)
    · intro hhead
      rw [List.head?_take, if_neg (by omega)] at hhead
      exact absurd hhead (head?_toString hnonzero)
  · apply digitsValue_lt_of_length_le htake
    rw [List.length_take]
    omega
  · dsimp only [DecimalDigits.toRat]
    rw [Option.getD_some, Option.getD_none, List.take_append_drop, digitsValue_digits,
      List.length_drop]
    congr 2
    omega

/-- Zeros between the point and the digits. -/
theorem spells_zeros (hexp : d.exponent < 0) (hplaces : d.digits.length ≤ (-d.exponent).toNat) :
    ∃ t, TakenAs d.positional t ∧ Spells t d := by
  have htext : d.positional = ['0'] ++ '.' ::
      (List.replicate ((-d.exponent).toNat - d.digits.length) '0' ++ d.digits) := by
    rw [DecimalDigits.positional]
    dsimp only
    rw [if_neg (by omega), if_neg (by omega)]
    rfl
  refine ⟨⟨['0'], some (List.replicate ((-d.exponent).toNat - d.digits.length) '0' ++ d.digits),
    none⟩, ?_, ?_, .inl rfl, ?_⟩
  · rw [htext]
    refine takenAs_point (by simp) (by simp [digits_ne_nil]) (by simp [isDigit]) ?_ (by simp)
    intro c hc
    rcases List.mem_append.mp hc with hc | hc
    · rw [List.eq_of_mem_replicate hc]
      decide
    · exact isDigit_of_mem_decimal hc
  · show digitsValue ['0'] < Nat.pow 2 64
    decide
  · dsimp only [DecimalDigits.toRat]
    have hvalue : digitsValue (['0'] ++ (List.replicate ((-d.exponent).toNat - d.digits.length) '0'
        ++ d.digits)) = d.coefficient := by
      rw [digitsValue_append, digitsValue_eq (_ ++ d.digits), Nat.ofDigitChars_append,
        Nat.ofDigitChars_replicate_zero, Nat.mul_zero, ← digitsValue_eq, digitsValue_digits]
      show _ * 0 + _ = _
      omega
    rw [Option.getD_some, Option.getD_none, hvalue, List.length_append, List.length_replicate]
    congr 2
    omega

/-- A power of ten with its mark and sign. -/
def powerText (k : Int) : List Char :=
  'e' :: (if k < 0 then '-' else '+') :: (toString k.natAbs).toList

theorem endsDigits_powerText (k : Int) : EndsDigits (powerText k ++ rest) :=
  endsDigits_cons (by decide) _

/-- A single digit before a power of ten. -/
theorem spells_power_digit {first : Char} (hds : d.digits = [first]) :
    ∃ t, TakenAs ([first] ++ powerText d.exponent) t ∧ Spells t d := by
  have hfirst : ∀ c ∈ [first], isDigit c = true := fun c hc => isDigit_of_mem_decimal (hds ▸ hc)
  refine ⟨⟨[first], none, some d.exponent⟩, ?_, ?_, .inr rfl, ?_⟩
  · intro rest hrest
    rw [List.append_assoc]
    exact takeNumber?_eq (by simp) hfirst (fun _ => rfl) (endsDigits_powerText _)
      (takeFraction?_none fun c hc => by cases hc; decide)
      (takeMarkedPower?_some d.exponent hrest.endsDigits)
  · exact digitsValue_lt_of_length_le hfirst (by simp)
  · dsimp only [DecimalDigits.toRat]
    rw [Option.getD_none, Option.getD_some, List.append_nil, ← hds, digitsValue_digits,
      List.length_nil, Int.natCast_zero, Int.sub_zero]

/-- A point behind the first of several digits before a power of ten. -/
theorem spells_power_point {first second : Char} {more : List Char}
    (hds : d.digits = first :: second :: more) :
    ∃ t, TakenAs ([first] ++ '.' :: (second :: more
      ++ powerText (d.exponent + (more.length + 1)))) t ∧ Spells t d := by
  have hdigits : ∀ c ∈ first :: second :: more, isDigit c = true := fun c hc =>
    isDigit_of_mem_decimal (hds ▸ hc)
  have hfirst : ∀ c ∈ [first], isDigit c = true := fun c hc =>
    hdigits c (List.mem_cons.mpr (.inl (List.mem_singleton.mp hc)))
  have hfraction : ∀ c ∈ second :: more, isDigit c = true := fun c hc =>
    hdigits c (List.mem_cons_of_mem first hc)
  refine ⟨⟨[first], some (second :: more), some (d.exponent + (more.length + 1))⟩, ?_, ?_, .inl rfl,
    ?_⟩
  · intro rest hrest
    have htext : ([first] ++ '.' :: (second :: more ++ powerText (d.exponent + (more.length + 1))))
        ++ rest = [first] ++ '.' :: (second :: more
          ++ (powerText (d.exponent + (more.length + 1)) ++ rest)) := by
      simp
    rw [htext]
    exact takeNumber?_eq (by simp) hfirst (fun _ => rfl) (endsDigits_cons (by decide) _)
      (takeFraction?_some (by simp) hfraction (endsDigits_powerText _))
      (takeMarkedPower?_some _ hrest.endsDigits)
  · exact digitsValue_lt_of_length_le hfirst (by simp)
  · dsimp only [DecimalDigits.toRat]
    rw [Option.getD_some, Option.getD_some, List.singleton_append, ← hds, digitsValue_digits,
      List.length_cons]
    congr 2
    omega

/-- **A decimal that is written as a number that is no integer is taken as parts that stand for
it.** -/
theorem spells_decimalText (hd : d.Regular) :
    ∃ t, TakenAs (decimalText floatLayout d) t ∧ Spells t d := by
  have hpositive := digits_length_pos d
  unfold decimalText
  dsimp only
  by_cases hplain : floatLayout.leastPlain ≤ d.exponent + d.digits.length - 1 ∧
      d.exponent + d.digits.length - 1 ≤ floatLayout.greatestPlain
  · rw [if_pos hplain]
    by_cases hexp : 0 ≤ d.exponent
    · rw [if_pos hexp]
      exact spells_whole hd hexp hplain.2
    · rw [if_neg hexp]
      rcases Nat.lt_or_ge (-d.exponent).toNat d.digits.length with hplaces | hplaces
      · exact spells_point hd (by omega) hplaces hplain.2
      · exact spells_zeros (by omega) hplaces
  · rw [if_neg hplain]
    obtain ⟨first, ds, hds⟩ := List.exists_cons_of_length_pos hpositive
    cases ds with
    | nil =>
        have hlead : d.exponent + (d.digits.length : Int) - 1 = d.exponent := by
          rw [hds]
          simp
        rw [hlead, hds]
        exact spells_power_digit hds
    | cons second more =>
        have hlead : d.exponent + (d.digits.length : Int) - 1 = d.exponent + (more.length + 1) := by
          rw [hds]
          simp only [List.length_cons]
          omega
        rw [hlead, hds]
        exact spells_power_point hds

/-! ## Floating point numbers -/

/-- The mantissa and the exponent of a finite number are those of its format. -/
theorem bounds_of_value {x : Binary64} {negative : Bool} {m : Nat} {e : Int}
    (h : x.value = .finite negative m e) : m < 9007199254740992 ∧ e ≤ 971 := by
  have hleast : BinaryFormat.double.leastExponent = -1074 := by decide
  have hfraction : x.bits.toNat % Nat.pow 2 BinaryFormat.double.fractionBits < 4503599627370496 :=
    Nat.mod_lt _ (by decide)
  have hfield : x.bits.toNat / Nat.pow 2 BinaryFormat.double.fractionBits
      % Nat.pow 2 BinaryFormat.double.exponentBits < 2048 := Nat.mod_lt _ (by decide)
  unfold Binary64.value BinaryFormat.read at h
  dsimp only at h
  generalize x.bits.toNat / Nat.pow 2 BinaryFormat.double.fractionBits
    % Nat.pow 2 BinaryFormat.double.exponentBits = field at h hfield
  generalize x.bits.toNat % Nat.pow 2 BinaryFormat.double.fractionBits = fraction at h hfraction
  rw [hleast] at h
  split at h
  · split at h <;> exact nomatch h
  · next htop =>
    have hfield' : field ≠ 2047 := htop
    split at h
    · injection h with _ hm he
      omega
    · injection h with _ hm he
      have hm' : 4503599627370496 + fraction = m := hm
      omega

/-- The digits of all but the two greatest numbers stay below the bound. -/
theorem le_safeBound {m : Nat} {e : Int} (hm : m < 9007199254740992) (he : e ≤ 971)
    (h : ¬(e = 971 ∧ 9007199254740990 ≤ m)) :
    (2 * (m : ℚ) + 1) * (2 : ℚ) ^ (e - 1) ≤ safeBound := by
  have hunit : (0 : ℚ) < (2 : ℚ) ^ (970 : ℤ) := by positivity
  unfold safeBound
  rcases Int.lt_or_eq_of_le he with hlow | rfl
  · have hdigits : (2 * (m : ℚ) + 1) ≤ 18014398509481983 := by
      exact_mod_cast (by omega : 2 * m + 1 ≤ 18014398509481983)
    have hpow : (2 : ℚ) ^ (e - 1) ≤ (2 : ℚ) ^ (970 : ℤ) / 2 := by
      rw [div_eq_mul_inv, ← zpow_sub_one₀ (two_ne_zero : (2 : ℚ) ≠ 0)]
      exact zpow_le_zpow_right₀ (by norm_num) (by omega)
    generalize (2 : ℚ) ^ (970 : ℤ) = unit at hunit hpow ⊢
    calc (2 * (m : ℚ) + 1) * (2 : ℚ) ^ (e - 1) ≤ 18014398509481983 * (unit / 2) := by gcongr
      _ ≤ 18014398509481979 * unit := by linarith
  · have hdigits : (2 * (m : ℚ) + 1) ≤ 18014398509481979 := by
      exact_mod_cast (by omega : 2 * m + 1 ≤ 18014398509481979)
    show (2 * (m : ℚ) + 1) * (2 : ℚ) ^ (970 : ℤ) ≤ _
    gcongr

/-- The digits of the two greatest numbers are read as numbers too. -/
theorem isSome_readNumber?_greatest : ∀ negative : Bool, ∀ m : Fin 2,
    (readNumber? negative (decimalText floatLayout
      (shortestDigits .toEven (9007199254740990 + m.val) 971))).isSome = true := by
  decide +kernel

/-- **The digits of a finite number are read as a number.** -/
theorem exists_readNumber?_float {x : Binary64} {negative : Bool} {m : Nat} {e : Int}
    (h : x.value = .finite negative m e) : ∃ y, ∀ rest, EndsNumber rest →
      readNumber? negative (decimalText floatLayout (shortestDigits .toEven m e) ++ rest)
        = some (.float y, rest) := by
  obtain ⟨hm, he⟩ := bounds_of_value h
  obtain ⟨hregular, hle⟩ := shortestDigits_spec .toEven m e
  obtain ⟨t, htaken, hspells⟩ := spells_decimalText hregular
  obtain ⟨s, hvalue, hsle, hread⟩ := exists_significand hspells.whole_lt hspells.marked
  have hsome : ∃ y, floatOfSignificand? negative s = some y := by
    by_cases hgreat : e = 971 ∧ 9007199254740990 ≤ m
    · -- what is computed for the two greatest numbers
      obtain ⟨rfl, hlow⟩ := hgreat
      have hsome := isSome_readNumber?_greatest negative ⟨m - 9007199254740990, by omega⟩
      have hindex : 9007199254740990 + (m - 9007199254740990) = m := by omega
      have htext := htaken [] endsNumber_nil
      dsimp only at hsome
      rw [List.append_nil] at htext
      rw [hindex, readNumber?, htext] at hsome
      have hoption : (((floatOfSignificand? negative s).map Json.float).map (·, ([] : List Char))).isSome
          = true := by
        rw [← hread]
        exact hsome
      rw [Option.isSome_map, Option.isSome_map] at hoption
      exact Option.isSome_iff_exists.mp hoption
    · apply exists_floatOfSignificand? negative hvalue
      refine le_trans hsle ?_
      rw [hspells.value_eq]
      exact le_trans hle (le_safeBound hm he hgreat)
  obtain ⟨y, hy⟩ := hsome
  refine ⟨y, fun rest hrest => ?_⟩
  rw [readNumber?, htaken rest hrest]
  show (t.value? negative).map (·, rest) = _
  rw [hread, hy]
  rfl

end SqlBuilder.Json
