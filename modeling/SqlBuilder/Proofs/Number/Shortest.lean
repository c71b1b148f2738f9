import Mathlib.Data.Nat.Cast.Order.Field
import SqlBuilder.Number.Shortest
import SqlBuilder.Proofs.Number.Rounding

/-!
# What the fewest digits stand for

The digits that are chosen for a number stand for one that is not above the end of the interval that
rounds to the number, and a positive number gets digits of its own.
-/

namespace SqlBuilder.Number

namespace DecimalDigits

/-- The number that the digits stand for. -/
def toRat (d : DecimalDigits) : ℚ :=
  d.coefficient * (10 : ℚ) ^ d.exponent

/-- Only a number with its point behind the digits may be zero. -/
def Regular (d : DecimalDigits) : Prop :=
  d.coefficient ≠ 0 ∨ d.exponent = 0

/-- Moving zeros into the exponent changes nothing. -/
theorem stripZeros_spec (steps : Nat) (d : DecimalDigits) :
    (d.stripZeros steps).toRat = d.toRat ∧ (d.Regular → (d.stripZeros steps).Regular) := by
  induction steps generalizing d with
  | zero => exact ⟨rfl, id⟩
  | succ steps ih =>
      rw [stripZeros]
      split
      · next h =>
        obtain ⟨hvalue, hregular⟩ := ih ⟨d.coefficient / 10, d.exponent + 1⟩
        have hsplit : d.coefficient = d.coefficient / 10 * 10 := by omega
        refine ⟨hvalue.trans ?_, fun _ => hregular (.inl (by dsimp only; omega))⟩
        unfold toRat
        dsimp only
        rw [zpow_add_one₀ (by norm_num)]
        conv_rhs => rw [hsplit]
        push_cast
        ring
      · exact ⟨rfl, id⟩

end DecimalDigits

namespace RoundingInterval

variable {i : RoundingInterval} {d : DecimalDigits}

/-- The ends are those of an interval of positive numbers. -/
structure Positive (i : RoundingInterval) : Prop where
  low_pos : 0 < i.low
  den_pos : 0 < i.den
  value_le : i.value ≤ i.high

/-- What lies in the interval is positive and not above its end. -/
theorem contains_spec (hi : i.Positive) (h : i.contains d = true) :
    d.coefficient ≠ 0 ∧ d.toRat ≤ i.high / i.den := by
  have hdiv := scaleTen_div d.coefficient 1 d.exponent
  have hden := den_scaleTen_pos d.coefficient (by decide : 0 < 1) d.exponent
  have hbounds : i.low * (scaleTen d.coefficient 1 d.exponent).2
        ≤ (scaleTen d.coefficient 1 d.exponent).1 * i.den ∧
      (scaleTen d.coefficient 1 d.exponent).1 * i.den
        ≤ i.high * (scaleTen d.coefficient 1 d.exponent).2 := by
    unfold contains at h
    dsimp only at h
    split at h
    · simpa only [Bool.and_eq_true, decide_eq_true_eq] using h
    · simp only [Bool.and_eq_true, decide_eq_true_eq] at h
      exact ⟨h.1.le, h.2.le⟩
  have hdenq : (0 : ℚ) < (scaleTen d.coefficient 1 d.exponent).2 := by exact_mod_cast hden
  have hidenq : (0 : ℚ) < i.den := by exact_mod_cast hi.den_pos
  have hvalue : d.toRat
      = (scaleTen d.coefficient 1 d.exponent).1 / (scaleTen d.coefficient 1 d.exponent).2 := by
    rw [hdiv, Nat.cast_one, div_one]
    rfl
  constructor
  · intro hzero
    have hpos : 0 < i.low * (scaleTen d.coefficient 1 d.exponent).2 := Nat.mul_pos hi.low_pos hden
    have hnone : (scaleTen d.coefficient 1 d.exponent).1 = 0 := by
      rw [hzero]
      unfold scaleTen
      split <;> simp
    rw [hnone, Nat.zero_mul] at hbounds
    exact absurd (Nat.lt_of_lt_of_le hpos hbounds.1) (Nat.lt_irrefl 0)
  · rw [hvalue, div_le_div_iff₀ hdenq hidenq]
    exact_mod_cast hbounds.2

theorem contains_of_nearest? {tie : Tie} {k : Int} {count : Nat}
    (h : i.nearest? tie k count = some d) : i.contains d = true := by
  unfold nearest? at h
  dsimp only at h
  split at h
  · next hlower hupper =>
    split at h
    · cases h
      exact hupper
    · cases h
      exact hlower
  · next hlower _ =>
    cases h
    exact hlower
  · next _ hupper =>
    cases h
    exact hupper
  · exact nomatch h

/-- The shortest digits of a positive number stand for one that is not above the interval. -/
theorem shortest_spec (hi : i.Positive) (tie : Tie) :
    (i.shortest tie).Regular ∧ (i.shortest tie).toRat ≤ i.high / i.den := by
  have hidenq : (0 : ℚ) < i.den := by exact_mod_cast hi.den_pos
  unfold shortest
  dsimp only
  cases hfound : (List.range 17).findSome? fun n => i.nearest? tie i.decimalExponent (n + 1) with
  | some d =>
      obtain ⟨_, -, hd⟩ := List.exists_of_findSome?_eq_some hfound
      obtain ⟨hne, hle⟩ := contains_spec hi (contains_of_nearest? hd)
      obtain ⟨hvalue, hregular⟩ := DecimalDigits.stripZeros_spec 400 d
      exact ⟨hregular (.inl hne), hvalue ▸ hle⟩
  | none =>
      obtain ⟨hvalue, hregular⟩ := DecimalDigits.stripZeros_spec 400 ⟨i.value / i.den, 0⟩
      refine ⟨hregular (.inr rfl), hvalue.trans_le ?_⟩
      have hfloor : ((i.value / i.den : Nat) : ℚ) ≤ i.value / i.den := Nat.cast_div_le
      have hend : (i.value : ℚ) / i.den ≤ i.high / i.den := by
        gcongr
        exact_mod_cast hi.value_le
      rw [DecimalDigits.toRat, zpow_zero, mul_one]
      exact le_trans hfloor hend

theorem positive_ofFinite {mantissa : Nat} (hm : 0 < mantissa) (exponent : Int) :
    (ofFinite mantissa exponent).Positive := by
  have hunit : 0 < (scaleTwo 1 1 (exponent - 2)).1 := by
    unfold scaleTwo
    split
    · exact Nat.mul_pos (by decide) (Nat.pow_pos (by decide))
    · exact Nat.one_pos
  refine ⟨Nat.mul_pos ?_ hunit, den_scaleTwo_pos 1 (by decide) _, Nat.mul_le_mul_right _ (by omega)⟩
  split <;> omega

theorem high_ofFinite (mantissa : Nat) (exponent : Int) :
    ((ofFinite mantissa exponent).high : ℚ) / (ofFinite mantissa exponent).den
      = (2 * mantissa + 1) * (2 : ℚ) ^ (exponent - 1) := by
  have hdiv := scaleTwo_div 1 1 (exponent - 2)
  rw [Nat.cast_one, div_one, one_mul] at hdiv
  have hpow : (2 : ℚ) ^ (exponent - 1) = 2 * (2 : ℚ) ^ (exponent - 2) := by
    rw [← zpow_one_add₀ two_ne_zero]
    congr 1
    ring
  show (((4 * mantissa + 2) * (scaleTwo 1 1 (exponent - 2)).1 : Nat) : ℚ)
    / (scaleTwo 1 1 (exponent - 2)).2 = _
  push_cast
  rw [mul_div_assoc, hdiv, hpow]
  ring

end RoundingInterval

/-- **The fewest digits of a number stand for one that is above it by half a unit of its last place
at most.** -/
theorem shortestDigits_spec (tie : Tie) (mantissa : Nat) (exponent : Int) :
    (shortestDigits tie mantissa exponent).Regular ∧
      (shortestDigits tie mantissa exponent).toRat
        ≤ (2 * mantissa + 1) * (2 : ℚ) ^ (exponent - 1) := by
  unfold shortestDigits
  split
  · refine ⟨.inr rfl, ?_⟩
    rw [DecimalDigits.toRat]
    norm_num
    positivity
  · next hm =>
    have hpositive := RoundingInterval.positive_ofFinite (Nat.pos_of_ne_zero hm) exponent
    rw [← RoundingInterval.high_ofFinite]
    exact RoundingInterval.shortest_spec hpositive tie

example : shortestDigits .up 1 (-1074) = ⟨5, -324⟩ := by decide +kernel

end SqlBuilder.Number
