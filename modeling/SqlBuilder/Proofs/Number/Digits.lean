import Mathlib.Data.List.TakeWhile
import SqlBuilder.Number.Integer

/-!
# Digits and the number they spell

A number's decimal digits spell that number again, also behind zeros that fill them up to a width,
and a run of digits is found again where something else follows.
-/

namespace SqlBuilder.Number

theorem isDigit_eq (c : Char) : isDigit c = c.isDigit := by
  simp only [isDigit, Char.isDigit, Char.le_def, ge_iff_le]

/-- No digit follows. -/
def EndsDigits (cs : List Char) : Prop :=
  ∀ c ∈ cs.head?, isDigit c = false

theorem endsDigits_nil : EndsDigits [] := by
  simp [EndsDigits]

theorem endsDigits_cons {c : Char} (h : isDigit c = false) (cs : List Char) :
    EndsDigits (c :: cs) := by
  simpa [EndsDigits] using h

variable {ds rest : List Char}

theorem takeWhile_digits_append (hds : ∀ c ∈ ds, isDigit c = true) (hrest : EndsDigits rest) :
    (ds ++ rest).takeWhile isDigit = ds := by
  have hstop : rest.takeWhile isDigit = [] := by
    cases rest with
    | nil => rfl
    | cons c rest => simp [hrest c rfl]
  rw [List.takeWhile_append_of_pos hds, hstop, List.append_nil]

theorem dropWhile_digits_append (hds : ∀ c ∈ ds, isDigit c = true) (hrest : EndsDigits rest) :
    (ds ++ rest).dropWhile isDigit = rest := by
  have hstop : rest.dropWhile isDigit = rest := by
    cases rest with
    | nil => rfl
    | cons c rest => simp [hrest c rfl]
  rw [List.dropWhile_append_of_pos hds, hstop]

/-! ## The value of digits -/

theorem digitsValue_eq (cs : List Char) : digitsValue cs = Nat.ofDigitChars 10 cs 0 := by
  rw [digitsValue, Nat.ofDigitChars_eq_foldl]
  congr 1
  funext n c
  rw [Nat.mul_comm]
  rfl

theorem digitsValue_append (ds more : List Char) : digitsValue (ds ++ more)
    = Nat.pow 10 more.length * digitsValue ds + digitsValue more := by
  rw [digitsValue_eq, Nat.ofDigitChars_append, Nat.ofDigitChars_eq_ofDigitChars_zero,
    ← digitsValue_eq, ← digitsValue_eq]
  rfl

/-- Digits spell a number below the power of ten with as many zeros. -/
theorem digitsValue_lt (hds : ∀ c ∈ ds, isDigit c = true) :
    digitsValue ds < Nat.pow 10 ds.length := by
  induction ds with
  | nil => decide
  | cons c ds ih =>
      have hrest := ih fun d hd => hds d (List.mem_cons_of_mem c hd)
      have hdigit : c.toNat - 48 ≤ 9 := by
        have hc := hds c List.mem_cons_self
        simp only [isDigit, Bool.and_eq_true, decide_eq_true_eq, Char.le_def,
          UInt32.le_iff_toNat_le] at hc
        have hhigh : c.toNat ≤ 57 := hc.2
        omega
      have hone : digitsValue [c] = c.toNat - 48 := by
        show 0 * 10 + (c.toNat - 48) = _
        omega
      have hcons : digitsValue (c :: ds)
          = Nat.pow 10 ds.length * (c.toNat - 48) + digitsValue ds := by
        rw [← List.singleton_append, digitsValue_append, hone]
      have hnine := Nat.mul_le_mul_left (Nat.pow 10 ds.length) hdigit
      have hpow : Nat.pow 10 (c :: ds).length = Nat.pow 10 ds.length * 10 := rfl
      omega

theorem toList_toString (n : Nat) : (toString n).toList = Nat.toDigits 10 n := by
  rw [Nat.toString_eq_ofList_toDigits, String.toList_ofList]

theorem isDigit_of_mem_digits {n : Nat} {c : Char} (h : c ∈ (toString n).toList) :
    isDigit c = true := by
  rw [toList_toString] at h
  rw [isDigit_eq]
  exact Nat.isDigit_of_mem_toDigits (by decide) (by decide) h

@[simp]
theorem digitsValue_toString (n : Nat) : digitsValue (toString n).toList = n := by
  rw [toList_toString, digitsValue_eq, Nat.ofDigitChars_ten_toDigits]

/-- The digits of a positive number do not begin with a zero. -/
theorem head?_toString {n : Nat} (h : n ≠ 0) : (toString n).toList.head? ≠ some '0' := by
  intro hzero
  have hne : (toString n).toList ≠ [] := by
    rw [toList_toString]
    simp
  obtain ⟨c, ds, hds⟩ := List.exists_cons_of_ne_nil hne
  rw [hds, List.head?_cons, Option.some.injEq] at hzero
  subst hzero
  -- the digits behind the zero spell the number too, and there are too few of them
  have hvalue : digitsValue ds = n := by
    rw [← digitsValue_toString n, hds, ← List.singleton_append, digitsValue_append]
    show _ = Nat.pow 10 ds.length * 0 + digitsValue ds
    omega
  have hlt : n < Nat.pow 10 ds.length := by
    have hrest : ∀ c ∈ ds, isDigit c = true := fun c hc =>
      isDigit_of_mem_digits (hds ▸ List.mem_cons_of_mem '0' hc)
    have hdigits := digitsValue_lt hrest
    rwa [hvalue] at hdigits
  have hlength : (toString n).toList.length ≤ ds.length := by
    cases ds with
    | nil => exact absurd (Nat.lt_one_iff.mp hlt) h
    | cons e es =>
        rw [toList_toString]
        exact (Nat.length_toDigits_le_iff (by decide) (by simp)).mpr hlt
  rw [hds, List.length_cons] at hlength
  omega

/-! ## Digits in a number of places -/

theorem toList_padded (width n : Nat) : (padded width n).toList
    = List.replicate (width - (toString n).toList.length) '0' ++ (toString n).toList := by
  simp [padded]

theorem isDigit_of_mem_padded {width n : Nat} {c : Char} (h : c ∈ (padded width n).toList) :
    isDigit c = true := by
  rw [toList_padded] at h
  rcases List.mem_append.mp h with h | h
  · rw [List.eq_of_mem_replicate h]
    rfl
  · exact isDigit_of_mem_digits h

@[simp]
theorem digitsValue_padded (width n : Nat) : digitsValue (padded width n).toList = n := by
  rw [toList_padded, digitsValue_eq, Nat.ofDigitChars_append, Nat.ofDigitChars_replicate_zero,
    Nat.mul_zero, ← digitsValue_eq, digitsValue_toString]

theorem le_length_padded (width n : Nat) : width ≤ (padded width n).toList.length := by
  rw [toList_padded, List.length_append, List.length_replicate]
  omega

theorem padded_ne_nil (width n : Nat) : (padded width n).toList ≠ [] := by
  rw [toList_padded, toList_toString]
  simp

/-- A number with no more digits than places fills them exactly. -/
theorem length_padded {width n : Nat} (hwidth : 0 < width) (h : n < Nat.pow 10 width) :
    (padded width n).toList.length = width := by
  have hdigits : (toString n).toList.length ≤ width := by
    rw [toList_toString]
    exact (Nat.length_toDigits_le_iff (by decide) hwidth).mpr h
  rw [toList_padded, List.length_append, List.length_replicate]
  omega

end SqlBuilder.Number
