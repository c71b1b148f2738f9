import Mathlib.Algebra.Order.Field.Power
import Mathlib.Data.Nat.Log
import Mathlib.Data.Rat.Cast.Order
import Mathlib.Tactic.FieldSimp
import Mathlib.Tactic.Linarith
import Mathlib.Tactic.NormNum
import Mathlib.Tactic.Positivity
import Mathlib.Tactic.Ring
import SqlBuilder.Number.Binary

/-!
# How far a rounded number lies from the exact one

A quotient of at least one is rounded to a number of the 64-bit format that exceeds it by one part
in `2 ^ 53` at most, and it is rounded to an infinity only if it is nearer to `2 ^ 1024` than to the
greatest finite number.
-/

namespace SqlBuilder.Number

variable {num den : Nat}

/-! ## Scaled quotients -/

/-- A quotient times a power of a base, as the two functions that scale build it. -/
theorem scaled_div {base : Nat} (hbase : 0 < base) (num den : Nat) (k : Int) {p : Nat × Nat}
    (hp : p = if 0 ≤ k then (num * Nat.pow base k.toNat, den)
      else (num, den * Nat.pow base (-k).toNat)) :
    (p.1 : ℚ) / p.2 = num / den * (base : ℚ) ^ k ∧ (0 < den → 0 < p.2) := by
  subst hp
  split
  · next hk =>
    have hpow : (base : ℚ) ^ k = (base : ℚ) ^ k.toNat := by
      rw [← zpow_natCast, Int.toNat_of_nonneg hk]
    refine ⟨?_, fun hden => hden⟩
    simp only [Nat.pow_eq]
    push_cast
    rw [hpow]
    ring
  · next hk =>
    have hpow : (base : ℚ) ^ k = ((base : ℚ) ^ (-k).toNat)⁻¹ := by
      rw [← zpow_natCast, Int.toNat_of_nonneg (by omega), zpow_neg, inv_inv]
    refine ⟨?_, fun hden => Nat.mul_pos hden (Nat.pow_pos hbase)⟩
    simp only [Nat.pow_eq]
    push_cast
    rw [hpow, ← div_div, div_eq_mul_inv (_ / _ : ℚ)]

theorem scaleTwo_div (num den : Nat) (k : Int) :
    ((scaleTwo num den k).1 : ℚ) / (scaleTwo num den k).2 = num / den * (2 : ℚ) ^ k :=
  (scaled_div (by decide : 0 < 2) num den k rfl).1

theorem den_scaleTwo_pos (num : Nat) (hden : 0 < den) (k : Int) : 0 < (scaleTwo num den k).2 :=
  (scaled_div (by decide : 0 < 2) num den k rfl).2 hden

theorem scaleTen_div (num den : Nat) (k : Int) :
    ((scaleTen num den k).1 : ℚ) / (scaleTen num den k).2 = num / den * (10 : ℚ) ^ k :=
  (scaled_div (by decide : 0 < 10) num den k rfl).1

theorem den_scaleTen_pos (num : Nat) (hden : 0 < den) (k : Int) : 0 < (scaleTen num den k).2 :=
  (scaled_div (by decide : 0 < 10) num den k rfl).2 hden

/-! ## The binary exponent -/

/-- The binary exponent of a quotient is the greatest power of two below it. -/
theorem binaryExponent_spec (hnum : 0 < num) (hden : 0 < den) :
    (2 : ℚ) ^ binaryExponent num den ≤ num / den ∧
      (num : ℚ) / den < (2 : ℚ) ^ (binaryExponent num den + 1) := by
  have hdenq : (0 : ℚ) < den := by exact_mod_cast hden
  have hnumlow : (2 : ℚ) ^ num.log2 ≤ num := by exact_mod_cast Nat.log2_self_le hnum.ne'
  have hnumhigh : (num : ℚ) < (2 : ℚ) ^ (num.log2 + 1) := by exact_mod_cast Nat.lt_log2_self
  have hdenlow : (2 : ℚ) ^ den.log2 ≤ den := by exact_mod_cast Nat.log2_self_le hden.ne'
  have hdenhigh : (den : ℚ) < (2 : ℚ) ^ (den.log2 + 1) := by exact_mod_cast Nat.lt_log2_self
  have hlow : (2 : ℚ) ^ ((num.log2 : ℤ) - den.log2 - 1) ≤ num / den := by
    rw [le_div_iff₀ hdenq]
    calc (2 : ℚ) ^ ((num.log2 : ℤ) - den.log2 - 1) * den
        ≤ (2 : ℚ) ^ ((num.log2 : ℤ) - den.log2 - 1) * (2 : ℚ) ^ (den.log2 + 1) := by gcongr
      _ = (2 : ℚ) ^ num.log2 := by
          rw [← zpow_natCast, ← zpow_natCast, ← zpow_add₀ two_ne_zero]
          congr 1
          push_cast
          ring
      _ ≤ num := hnumlow
  have hhigh : (num : ℚ) / den < (2 : ℚ) ^ ((num.log2 : ℤ) - den.log2 + 1) := by
    rw [div_lt_iff₀ hdenq]
    calc (num : ℚ) < (2 : ℚ) ^ (num.log2 + 1) := hnumhigh
      _ = (2 : ℚ) ^ ((num.log2 : ℤ) - den.log2 + 1) * (2 : ℚ) ^ den.log2 := by
          rw [← zpow_natCast, ← zpow_natCast, ← zpow_add₀ two_ne_zero]
          congr 1
          push_cast
          ring
      _ ≤ (2 : ℚ) ^ ((num.log2 : ℤ) - den.log2 + 1) * den := by gcongr
  -- the scaled quotient tells whether the guess is met
  have hguess : (scaleTwo num den (-((num.log2 : ℤ) - den.log2))).2
        ≤ (scaleTwo num den (-((num.log2 : ℤ) - den.log2))).1 ↔
      (2 : ℚ) ^ ((num.log2 : ℤ) - den.log2) ≤ num / den := by
    have hd : (0 : ℚ) < (scaleTwo num den (-((num.log2 : ℤ) - den.log2))).2 := by
      exact_mod_cast den_scaleTwo_pos num hden _
    have hpow : (0 : ℚ) < (2 : ℚ) ^ ((num.log2 : ℤ) - den.log2) := by positivity
    rw [← Nat.cast_le (α := ℚ), ← one_le_div hd, scaleTwo_div, zpow_neg, ← div_eq_mul_inv,
      one_le_div hpow]
  unfold binaryExponent
  dsimp only
  split
  · next h => exact ⟨hguess.mp h, hhigh⟩
  · next h =>
    refine ⟨hlow, ?_⟩
    rw [sub_add_cancel]
    exact lt_of_not_ge fun hge => h (hguess.mpr hge)

/-! ## Rounding to an integer -/

theorem roundHalfEven_le_of_le {bound : Nat} (hden : 0 < den) (h : num ≤ bound * den) :
    roundHalfEven num den ≤ bound := by
  have hdiv : num / den ≤ bound := Nat.div_le_of_le_mul (by rwa [Nat.mul_comm])
  unfold roundHalfEven
  dsimp only
  split
  · exact hdiv
  · next hup =>
    -- a quotient that is rounded up has a rest
    have hrest : num % den ≠ 0 := by
      intro hzero
      apply hup
      simp [hzero, hden]
    have hsplit := Nat.div_add_mod num den
    by_contra hlt
    have hbound : num / den = bound := by omega
    rw [hbound, Nat.mul_comm] at hsplit
    omega

theorem div_le_roundHalfEven (num den : Nat) : num / den ≤ roundHalfEven num den := by
  unfold roundHalfEven
  dsimp only
  split <;> omega

/-- A quotient is rounded up by one half at most. -/
theorem roundHalfEven_le (hden : 0 < den) :
    (roundHalfEven num den : ℚ) ≤ num / den + 1 / 2 := by
  have hdenq : (0 : ℚ) < den := by exact_mod_cast hden
  have hsplit : (num : ℚ) = den * (num / den : Nat) + (num % den : Nat) := by
    exact_mod_cast (Nat.div_add_mod num den).symm
  have hrest : (0 : ℚ) ≤ (num % den : Nat) := by positivity
  have hquotient : (num : ℚ) / den = (num / den : Nat) + (num % den : Nat) / den := by
    rw [hsplit]
    field_simp
  unfold roundHalfEven
  dsimp only
  split
  · have hnonneg : (0 : ℚ) ≤ (num % den : Nat) / den := by positivity
    rw [hquotient]
    linarith
  · next hup =>
    have htwice : den ≤ 2 * (num % den) := by
      by_contra hlt
      apply hup
      simp [Nat.lt_of_not_le hlt]
    have hhalf : (1 : ℚ) / 2 ≤ (num % den : Nat) / den := by
      rw [div_le_div_iff₀ (by norm_num) hdenq]
      exact_mod_cast (by omega : 1 * den ≤ num % den * 2)
    rw [hquotient]
    push_cast
    linarith

/-! ## Rounding to the 64-bit format -/

/-- The bits of a number with a full mantissa. -/
theorem double_read (negative : Bool) (field fraction : Nat) (hpos : 0 < field)
    (hfield : field < 2047) (hfraction : fraction < 4503599627370496) :
    BinaryFormat.double.read
        (BinaryFormat.double.signBits negative + (field * 4503599627370496 + fraction))
      = .finite negative (4503599627370496 + fraction) (field - 1075) := by
  have hsign : BinaryFormat.double.signBits negative
      = (if negative then 1 else 0) * 9223372036854775808 := by
    cases negative <;> decide
  have hfrac : (BinaryFormat.double.signBits negative + (field * 4503599627370496 + fraction))
      % Nat.pow 2 BinaryFormat.double.fractionBits = fraction := by
    show _ % 4503599627370496 = _
    rw [hsign]
    split <;> omega
  have hexp : (BinaryFormat.double.signBits negative + (field * 4503599627370496 + fraction))
      / Nat.pow 2 BinaryFormat.double.fractionBits % Nat.pow 2 BinaryFormat.double.exponentBits
      = field := by
    show _ / 4503599627370496 % 2048 = _
    rw [hsign]
    split <;> omega
  have hneg : decide ((BinaryFormat.double.signBits negative + (field * 4503599627370496 + fraction))
      / Nat.pow 2 (BinaryFormat.double.exponentBits + BinaryFormat.double.fractionBits) % 2 = 1)
      = negative := by
    show decide (_ / 9223372036854775808 % 2 = 1) = _
    rw [hsign]
    cases negative
    · exact decide_eq_false (by simp; omega)
    · exact decide_eq_true (by simp; omega)
  have htop : BinaryFormat.double.topExponent = 2047 := by decide
  have hleast : BinaryFormat.double.leastExponent = -1074 := by decide
  unfold BinaryFormat.read
  dsimp only
  rw [hfrac, hexp, hneg, htop, hleast, if_neg (by omega), if_neg (by omega)]
  congr 1
  omega

theorem value_ofBits {bits : Nat} (h : bits < 18446744073709551616) :
    (Binary64.ofBits bits).value = BinaryFormat.double.read bits := by
  show BinaryFormat.double.read (UInt64.ofNat bits).toNat = _
  rw [UInt64.toNat_ofNat_of_lt' h]

/-- A mantissa of 53 bits, or the next power of two, is read back from where it is put. -/
theorem exists_read_of_mantissa (negative : Bool) {place r : Nat} (hlow : 4503599627370496 ≤ r)
    (hhigh : r ≤ 9007199254740992) (hplace : place * 4503599627370496 + r < 9218868437227405312) :
    ∃ mantissa exponent, (Binary64.ofBits (BinaryFormat.double.signBits negative
        + (place * 4503599627370496 + r))).value = .finite negative mantissa exponent ∧
      (mantissa : ℚ) * (2 : ℚ) ^ exponent = r * (2 : ℚ) ^ ((place : ℤ) - 1074) := by
  have hsign : BinaryFormat.double.signBits negative ≤ 9223372036854775808 := by
    cases negative <;> decide
  rw [value_ofBits (by omega)]
  rcases Nat.lt_or_eq_of_le hhigh with hlt | rfl
  · have hread := double_read negative (place + 1) (r - 4503599627370496) (by omega) (by omega)
      (by omega)
    have hbits : (place + 1) * 4503599627370496 + (r - 4503599627370496)
        = place * 4503599627370496 + r := by omega
    rw [hbits] at hread
    have hmantissa : 4503599627370496 + (r - 4503599627370496) = r := by omega
    have hexp : ((place + 1 : Nat) : ℤ) - 1075 = (place : ℤ) - 1074 := by omega
    refine ⟨_, _, hread, ?_⟩
    rw [hmantissa, hexp]
  · have hread := double_read negative (place + 2) 0 (by omega) (by omega) (by omega)
    have hbits : (place + 2) * 4503599627370496 + 0
        = place * 4503599627370496 + 9007199254740992 := by omega
    rw [hbits] at hread
    refine ⟨_, _, hread, ?_⟩
    have hexp : ((place + 2 : Nat) : ℤ) - 1075 = ((place : ℤ) - 1074) + 1 := by omega
    rw [hexp, zpow_add₀ two_ne_zero]
    push_cast
    ring

/-- A power of two in units of the last place of its mantissa. -/
theorem zpow_eq_units (e : ℤ) : (2 : ℚ) ^ e = 4503599627370496 * (2 : ℚ) ^ (e - 52) := by
  have hsum : (2 : ℚ) ^ e = (2 : ℚ) ^ (52 : ℤ) * (2 : ℚ) ^ (e - 52) := by
    rw [← zpow_add₀ two_ne_zero]
    congr 1
    ring
  rw [hsum]
  norm_num

/-- The mantissa that a quotient is rounded to in units of its last place. -/
def roundedUnits (num den : Nat) : Nat :=
  let p := scaleTwo num den (-(binaryExponent num den - 52))
  roundHalfEven p.1 p.2

/-- The mantissa has 53 bits, or is the next power of two, and exceeds the quotient by half a unit at
most. -/
theorem roundedUnits_spec (hnum : 0 < num) (hden : 0 < den) :
    4503599627370496 ≤ roundedUnits num den ∧ roundedUnits num den ≤ 9007199254740992 ∧
      ((roundedUnits num den : ℚ) - 1 / 2) * (2 : ℚ) ^ (binaryExponent num den - 52)
        ≤ num / den := by
  obtain ⟨hlow, hhigh⟩ := binaryExponent_spec hnum hden
  unfold roundedUnits
  generalize binaryExponent num den = e at hlow hhigh ⊢
  have hunits := scaleTwo_div num den (-(e - 52))
  have hd := den_scaleTwo_pos num hden (-(e - 52))
  generalize scaleTwo num den (-(e - 52)) = p at hunits hd ⊢
  have hdq : (0 : ℚ) < p.2 := by exact_mod_cast hd
  have hunit : (0 : ℚ) < (2 : ℚ) ^ (e - 52) := by positivity
  have hquotient : (num : ℚ) / den = p.1 / p.2 * (2 : ℚ) ^ (e - 52) := by
    rw [hunits, zpow_neg, mul_assoc, inv_mul_cancel₀ hunit.ne', mul_one]
  have hleast : 4503599627370496 ≤ p.1 / p.2 := by
    rw [hquotient, zpow_eq_units e] at hlow
    have hq := le_of_mul_le_mul_right hlow hunit
    rw [le_div_iff₀ hdq] at hq
    rw [Nat.le_div_iff_mul_le hd]
    exact_mod_cast hq
  have hmost : p.1 ≤ 9007199254740992 * p.2 := by
    rw [hquotient, zpow_add₀ two_ne_zero, zpow_eq_units e] at hhigh
    have hq : (p.1 : ℚ) / p.2 < 9007199254740992 := by
      apply lt_of_mul_lt_mul_right _ hunit.le
      linarith
    rw [div_lt_iff₀ hdq] at hq
    exact_mod_cast hq.le
  refine ⟨le_trans hleast (div_le_roundHalfEven p.1 p.2), roundHalfEven_le_of_le hd hmost, ?_⟩
  have hhalf : (roundHalfEven p.1 p.2 : ℚ) ≤ p.1 / p.2 + 1 / 2 := roundHalfEven_le hd
  rw [hquotient]
  exact mul_le_mul_of_nonneg_right (by linarith) hunit.le

/-- The bits of what a quotient is rounded to, unless it is too small for a full mantissa. -/
theorem double_round (negative : Bool) (hnum : 0 < num)
    (hexponent : -1022 ≤ binaryExponent num den) : BinaryFormat.double.round negative num den
      = if 9218868437227405312 ≤ (binaryExponent num den + 1022).toNat * 4503599627370496
            + roundedUnits num den
        then BinaryFormat.double.infinity negative
        else BinaryFormat.double.signBits negative
          + ((binaryExponent num den + 1022).toNat * 4503599627370496 + roundedUnits num den) := by
  have hplace : max (BinaryFormat.double.leastExponent)
      (binaryExponent num den - BinaryFormat.double.fractionBits) = binaryExponent num den - 52 := by
    show max (-1074) (binaryExponent num den - 52) = _
    omega
  have hunits : (binaryExponent num den - 52 - BinaryFormat.double.leastExponent).toNat
      = (binaryExponent num den + 1022).toNat := by
    show (binaryExponent num den - 52 - (-1074)).toNat = _
    congr 1
    omega
  rw [BinaryFormat.round, if_neg hnum.ne', hplace]
  dsimp only
  rw [hunits]
  rfl

/-! ## Quotients from one to the edge of the infinities -/

/-- The greatest numbers that are rounded to a finite one lie below this: half a unit before the
mantissa carries into an infinity. -/
theorem edge_eq_units : (((9007199254740992 : Nat) : ℚ) - 1 / 2) * (2 : ℚ) ^ ((1023 : ℤ) - 52)
    = (2 : ℚ) ^ (1024 : ℤ) - (2 : ℚ) ^ (970 : ℤ) := by
  rw [show (1024 : ℤ) = 54 + 970 by rfl, show (1023 : ℤ) - 52 = 1 + 970 by rfl,
    zpow_add₀ two_ne_zero, zpow_add₀ two_ne_zero]
  generalize (2 : ℚ) ^ (970 : ℤ) = unit
  norm_num
  ring

theorem num_pos_of_one_le (hone : (1 : ℚ) ≤ num / den) : 0 < num := by
  rcases Nat.eq_zero_or_pos num with rfl | h
  · norm_num at hone
  · exact h

theorem binaryExponent_nonneg (hden : 0 < den) (hone : (1 : ℚ) ≤ num / den) :
    0 ≤ binaryExponent num den := by
  obtain ⟨-, hhigh⟩ := binaryExponent_spec (num_pos_of_one_le hone) hden
  by_contra hneg
  have hle : (2 : ℚ) ^ (binaryExponent num den + 1) ≤ 1 :=
    zpow_le_one_of_nonpos₀ (by norm_num) (by omega)
  linarith

theorem binaryExponent_le (hnum : 0 < num) (hden : 0 < den)
    (hlt : (num : ℚ) / den < (2 : ℚ) ^ (1024 : ℤ)) : binaryExponent num den ≤ 1023 := by
  obtain ⟨hlow, -⟩ := binaryExponent_spec hnum hden
  have hpow := (zpow_lt_zpow_iff_right₀ (by norm_num : (1 : ℚ) < 2)).mp (lt_of_le_of_lt hlow hlt)
  omega

/-- Below the edge no mantissa carries into an infinity: only at the greatest exponent could it, and
there it is less than that. -/
theorem magnitude_lt_infinity (hnum : 0 < num) (hden : 0 < den)
    (hexponent : 0 ≤ binaryExponent num den)
    (hlt : (num : ℚ) / den < (2 : ℚ) ^ (1024 : ℤ) - (2 : ℚ) ^ (970 : ℤ)) :
    (binaryExponent num den + 1022).toNat * 4503599627370496 + roundedUnits num den
      < 9218868437227405312 := by
  obtain ⟨-, hmost, hhalf⟩ := roundedUnits_spec hnum hden
  have hunit : (0 : ℚ) < (2 : ℚ) ^ (970 : ℤ) := by positivity
  have hrange := binaryExponent_le hnum hden (lt_trans hlt (sub_lt_self _ hunit))
  have htop : binaryExponent num den = 1023 → roundedUnits num den < 9007199254740992 := by
    intro he
    refine lt_of_le_of_ne hmost fun hcarry => ?_
    rw [he, hcarry, edge_eq_units] at hhalf
    exact absurd hlt (not_lt_of_ge hhalf)
  omega

/-- A quotient of at least one is not rounded below one. -/
theorem one_le_rounded (hden : 0 < den) (hone : (1 : ℚ) ≤ num / den) :
    (1 : ℚ) ≤ roundedUnits num den * (2 : ℚ) ^ (binaryExponent num den - 52) := by
  obtain ⟨hfull, -, -⟩ := roundedUnits_spec (num_pos_of_one_le hone) hden
  have hfullq : (4503599627370496 : ℚ) ≤ roundedUnits num den := by exact_mod_cast hfull
  calc (1 : ℚ) ≤ (2 : ℚ) ^ binaryExponent num den :=
        one_le_zpow₀ (by norm_num) (binaryExponent_nonneg hden hone)
    _ = 4503599627370496 * (2 : ℚ) ^ (binaryExponent num den - 52) := zpow_eq_units _
    _ ≤ roundedUnits num den * (2 : ℚ) ^ (binaryExponent num den - 52) := by gcongr

/-- Half a unit of the last place is one part in `2 ^ 53` at most. -/
theorem rounded_le (hnum : 0 < num) (hden : 0 < den) :
    (roundedUnits num den : ℚ) * (2 : ℚ) ^ (binaryExponent num den - 52)
      ≤ num / den * (1 + (2 : ℚ) ^ (-53 : ℤ)) := by
  obtain ⟨hlow, -⟩ := binaryExponent_spec hnum hden
  obtain ⟨-, -, hhalf⟩ := roundedUnits_spec hnum hden
  generalize binaryExponent num den = e at hlow hhalf ⊢
  have hulp : (2 : ℚ) ^ (e - 52) / 2 = (2 : ℚ) ^ e * (2 : ℚ) ^ (-53 : ℤ) := by
    rw [zpow_eq_units e]
    norm_num
    ring
  calc (roundedUnits num den : ℚ) * (2 : ℚ) ^ (e - 52)
      = ((roundedUnits num den : ℚ) - 1 / 2) * (2 : ℚ) ^ (e - 52) + (2 : ℚ) ^ (e - 52) / 2 := by
        ring
    _ ≤ num / den + (2 : ℚ) ^ e * (2 : ℚ) ^ (-53 : ℤ) := by
        rw [hulp]
        gcongr
    _ ≤ num / den + num / den * (2 : ℚ) ^ (-53 : ℤ) := by gcongr
    _ = num / den * (1 + (2 : ℚ) ^ (-53 : ℤ)) := by ring

/-- **A quotient of at least one, if it is nearer to the greatest finite number than to `2 ^ 1024`,
is rounded to a finite number that exceeds it by one part in `2 ^ 53` at most.** -/
theorem exists_value_ofBits_round (negative : Bool) (hden : 0 < den) (hone : (1 : ℚ) ≤ num / den)
    (hlt : (num : ℚ) / den < (2 : ℚ) ^ (1024 : ℤ) - (2 : ℚ) ^ (970 : ℤ)) : ∃ mantissa exponent,
      (Binary64.ofBits (BinaryFormat.double.round negative num den)).value
        = .finite negative mantissa exponent ∧
      (1 : ℚ) ≤ mantissa * (2 : ℚ) ^ exponent ∧
      mantissa * (2 : ℚ) ^ exponent ≤ num / den * (1 + (2 : ℚ) ^ (-53 : ℤ)) := by
  have hnum : 0 < num := num_pos_of_one_le hone
  have hexponent : 0 ≤ binaryExponent num den := binaryExponent_nonneg hden hone
  have hfinite := magnitude_lt_infinity hnum hden hexponent hlt
  obtain ⟨hfull, hmost, -⟩ := roundedUnits_spec hnum hden
  obtain ⟨mantissa, exponent, hvalue, heq⟩ :=
    exists_read_of_mantissa negative hfull hmost hfinite
  have hplace : ((binaryExponent num den + 1022).toNat : ℤ) - 1074
      = binaryExponent num den - 52 := by omega
  rw [hplace] at heq
  refine ⟨mantissa, exponent, ?_, ?_, ?_⟩
  · rw [double_round negative hnum (by omega), if_neg (Nat.not_le.mpr hfinite)]
    exact hvalue
  · exact heq ▸ one_le_rounded hden hone
  · exact heq ▸ rounded_le hnum hden

/-- Halfway between two numbers of the format the even one is taken. -/
example : (Binary64.ofBits (BinaryFormat.double.round false 9007199254740993 1)).value
    = .finite false 4503599627370496 1 := by decide +kernel

/-- A product of finite numbers is finite if it is nearer to the greatest finite number than to
`2 ^ 1024`. -/
theorem isFinite_mul {x y : Binary64} {s t : Bool} {m n : Nat} {e k : Int}
    (hx : x.value = .finite s m e) (hy : y.value = .finite t n k)
    (hone : (1 : ℚ) ≤ m * (2 : ℚ) ^ e * (n * (2 : ℚ) ^ k))
    (hlt : m * (2 : ℚ) ^ e * (n * (2 : ℚ) ^ k) < (2 : ℚ) ^ (1024 : ℤ) - (2 : ℚ) ^ (970 : ℤ)) :
    (x.mul y).isFinite = true := by
  have hquotient : ((scaleTwo (m * n) 1 (e + k)).1 : ℚ) / (scaleTwo (m * n) 1 (e + k)).2
      = m * (2 : ℚ) ^ e * (n * (2 : ℚ) ^ k) := by
    rw [scaleTwo_div, zpow_add₀ two_ne_zero]
    push_cast
    ring
  obtain ⟨_, _, hvalue, -⟩ := exists_value_ofBits_round (s != t)
    (den_scaleTwo_pos (m * n) (by decide : 0 < 1) (e + k)) (hquotient ▸ hone) (hquotient ▸ hlt)
  have hmul : x.mul y = .ofBits (BinaryFormat.double.round (s != t)
      (scaleTwo (m * n) 1 (e + k)).1 (scaleTwo (m * n) 1 (e + k)).2) := by
    rw [Binary64.mul, hx, hy]
  rw [hmul, Binary64.isFinite, hvalue]

end SqlBuilder.Number
