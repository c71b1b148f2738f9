import Mathlib.Data.List.TakeWhile
import Mathlib.Tactic.Ring
import SqlBuilder.Proofs.Bytes
import SqlBuilder.Proofs.Number.Rounding
import SqlBuilder.Wire.Numeric

/-!
# Exact decimals read back

The binary form of a decimal is read as that decimal.  A reader adds group by group and gives up
places where the coefficient leaves 96 bits, so the groups could be read as another number than they
stand for; but the groups of a decimal leave 96 bits with the last one at most, and then by zeros.
-/

namespace SqlBuilder.Wire.Numeric

open Number

/-! ## Groups of four digits -/

/-- The number that the groups spell behind the digits of `n`. -/
def groupsValue (n : Nat) (gs : List Nat) : Nat :=
  gs.foldl (fun n g => n * 10000 + g) n

/-- A group stands for four digits. -/
theorem pow_groups (count : Nat) : Nat.pow 10000 count = Nat.pow 10 (4 * count) := by
  simp only [Nat.pow_eq]
  rw [Nat.pow_mul]

theorem groupsValue_append (n : Nat) (gs more : List Nat) :
    groupsValue n (gs ++ more) = groupsValue (groupsValue n gs) more :=
  List.foldl_append

theorem groupsValue_zeros (n count : Nat) :
    groupsValue n (List.replicate count 0) = n * Nat.pow 10000 count := by
  induction count generalizing n with
  | zero => exact (Nat.mul_one n).symm
  | succ count ih =>
      rw [List.replicate_succ]
      show groupsValue (n * 10000 + 0) (List.replicate count 0) = _
      rw [ih]
      simp only [Nat.pow_eq]
      ring

/-- Groups at the end only make a number greater. -/
theorem mul_le_groupsValue (n : Nat) (gs : List Nat) :
    n * Nat.pow 10000 gs.length ≤ groupsValue n gs := by
  induction gs generalizing n with
  | nil => exact Nat.le_of_eq (Nat.mul_one n)
  | cons g gs ih =>
      refine Nat.le_trans ?_ (ih (n * 10000 + g))
      rw [List.length_cons]
      simp only [Nat.pow_eq]
      rw [Nat.pow_succ', ← Nat.mul_assoc]
      exact Nat.mul_le_mul_right _ (Nat.le_add_right _ _)

theorem le_groupsValue (n : Nat) (gs : List Nat) : n ≤ groupsValue n gs :=
  Nat.le_trans (Nat.le_mul_of_pos_right n (Nat.pos_of_ne_zero (by simp))) (mul_le_groupsValue n gs)

theorem groupsValue_groups {count n : Nat} (h : n < Nat.pow 10000 count) :
    groupsValue 0 (groups count n) = n := by
  induction count generalizing n with
  | zero => exact (Nat.lt_one_iff.mp h).symm
  | succ count ih =>
      rw [groups]
      split
      · next hzero => exact hzero.symm
      · have hdiv : n / 10000 < Nat.pow 10000 count :=
          Nat.div_lt_of_lt_mul (by rw [Nat.mul_comm]; exact h)
        rw [groupsValue_append, ih hdiv]
        show n / 10000 * 10000 + n % 10000 = n
        omega

theorem lt_of_mem_groups {count n g : Nat} (h : g ∈ groups count n) : g < 10000 := by
  induction count generalizing n with
  | zero => exact absurd h List.not_mem_nil
  | succ count ih =>
      rw [groups] at h
      split at h
      · exact absurd h List.not_mem_nil
      · rcases List.mem_append.mp h with h | h
        · exact ih h
        · rw [List.mem_singleton.mp h]
          exact Nat.mod_lt _ (by decide)

theorem length_groups_le (count n : Nat) : (groups count n).length ≤ count := by
  induction count generalizing n with
  | zero => exact Nat.le_refl 0
  | succ count ih =>
      rw [groups]
      split
      · exact Nat.zero_le _
      · rw [List.length_append, List.length_singleton]
        exact Nat.succ_le_succ (ih _)

/-- What is dropped at the end are zeros. -/
theorem exists_dropZeros (gs : List Nat) :
    ∃ count, gs = dropZeros gs ++ List.replicate count 0 := by
  refine ⟨(gs.reverse.takeWhile (· = 0)).length, ?_⟩
  have hzeros : gs.reverse.takeWhile (· = 0)
      = List.replicate (gs.reverse.takeWhile (· = 0)).length 0 := by
    apply List.eq_replicate_of_mem
    intro g hg
    simpa using List.mem_takeWhile_imp hg
  have hsplit := List.takeWhile_append_dropWhile (p := (· = 0)) (l := gs.reverse)
  rw [hzeros] at hsplit
  have hreverse := congrArg List.reverse hsplit
  rw [List.reverse_append, List.reverse_reverse, List.reverse_replicate] at hreverse
  exact hreverse.symm

/-! ## The whole part -/

theorem wholePart?_eq {n : Nat} {gs : List Nat} (h : groupsValue n gs < Nat.pow 2 96) :
    wholePart? n gs = some (groupsValue n gs) := by
  induction gs generalizing n with
  | nil => rfl
  | cons g gs ih =>
      have hnext : n * 10000 + g < Nat.pow 2 96 := Nat.lt_of_le_of_lt (le_groupsValue _ gs) h
      rw [wholePart?, if_pos hnext]
      exact ih h

/-! ## The places behind the point -/

/-- Rounding gives up no digits but zeros, if the number without them has room. -/
theorem fit?_exact {m zeros places : Nat} (hm : m < Nat.pow 2 96) (hzeros : zeros ≤ places) :
    ∃ drop ≤ zeros, fit? ⟨m * Nat.pow 10 zeros, places⟩
      = some ⟨m * Nat.pow 10 (zeros - drop), places - drop⟩ := by
  -- as many zeros as there are can be given up exactly
  have hround : ∀ drop ≤ zeros,
      roundHalfEven (m * Nat.pow 10 zeros) (Nat.pow 10 drop) = m * Nat.pow 10 (zeros - drop) := by
    intro drop hdrop
    have hpos : 0 < Nat.pow 10 drop := Nat.pos_of_ne_zero (by simp)
    have hsplit : m * Nat.pow 10 zeros = m * Nat.pow 10 (zeros - drop) * Nat.pow 10 drop := by
      simp only [Nat.pow_eq]
      rw [Nat.mul_assoc, ← Nat.pow_add, Nat.sub_add_cancel hdrop]
    apply Nat.le_antisymm
    · exact roundHalfEven_le_of_le hpos (Nat.le_of_eq hsplit)
    · rw [hsplit]
      have hdiv := div_le_roundHalfEven (m * Nat.pow 10 (zeros - drop) * Nat.pow 10 drop)
        (Nat.pow 10 drop)
      rwa [Nat.mul_div_cancel _ hpos] at hdiv
  let fits : Nat → Bool := fun drop =>
    roundHalfEven (m * Nat.pow 10 zeros) (Nat.pow 10 drop) < Nat.pow 2 96
  have hfits : fits zeros = true := by
    show decide _ = true
    rw [hround zeros (Nat.le_refl _), Nat.sub_self]
    exact decide_eq_true ((Nat.mul_one m).trans_lt hm)
  have hsome : ((List.range (places + 1)).find? fits).isSome = true := by
    rw [List.find?_isSome]
    exact ⟨zeros, List.mem_range.mpr (by omega), hfits⟩
  obtain ⟨drop, hfind⟩ := Option.isSome_iff_exists.mp hsome
  have hfirst := (List.find?_range_eq_some.mp hfind).2.2
  have hdrop : drop ≤ zeros := by
    by_contra hlt
    have hno := hfirst zeros (by omega)
    rw [hfits] at hno
    exact Bool.noConfusion hno
  refine ⟨drop, hdrop, ?_⟩
  rw [fit?, List.find?_map]
  show Option.map _ ((List.range (places + 1)).find? fits) = _
  rw [hfind, Option.map_some, hround drop hdrop]

/-- What was read stands for `n` units of the given place. -/
def Partial.Stands (x : Partial) (place n : Nat) : Prop :=
  x.scale ≤ place ∧ x.coefficient * Nat.pow 10 (place - x.scale) = n

/-- The number is one with room in 96 bits, and zeros behind it. -/
def HasRoom (place n : Nat) : Prop :=
  ∃ m zeros, n = m * Nat.pow 10 zeros ∧ m < Nat.pow 2 96 ∧ zeros ≤ place

theorem addPlace?_exact {x : Partial} {place n g : Nat} (hx : x.Stands place n)
    (hroom : HasRoom (place + 4) (n * 10000 + g)) :
    ∃ y, addPlace? x g (place + 4) = some y ∧ y.Stands (place + 4) (n * 10000 + g) := by
  obtain ⟨hscale, hvalue⟩ := hx
  obtain ⟨m, zeros, hn, hm, hzeros⟩ := hroom
  obtain ⟨drop, hdrop, hfit⟩ := fit?_exact hm hzeros
  refine ⟨⟨m * Nat.pow 10 (zeros - drop), place + 4 - drop⟩, ?_, Nat.sub_le _ _, ?_⟩
  · have hmax : max x.scale (place + 4) = place + 4 := Nat.max_eq_right (by omega)
    have hshift : x.coefficient * Nat.pow 10 (place + 4 - x.scale) = n * 10000 := by
      have hsplit : place + 4 - x.scale = place - x.scale + 4 := by omega
      rw [← hvalue, hsplit]
      simp only [Nat.pow_eq]
      rw [Nat.pow_add, ← Nat.mul_assoc]
    have hunit : g * Nat.pow 10 (place + 4 - (place + 4)) = g := by
      rw [Nat.sub_self]
      exact Nat.mul_one g
    rw [addPlace?, hmax, hshift, hunit, hn]
    exact hfit
  · have hplaces : place + 4 - (place + 4 - drop) = drop := by omega
    rw [hplaces, hn]
    simp only [Nat.pow_eq]
    rw [Nat.mul_assoc, ← Nat.pow_add, Nat.sub_add_cancel hdrop]

/-- Groups are added exactly if what they spell has room after each of them. -/
theorem fractionPart?_exact {x : Partial} {place n : Nat} {gs : List Nat} (hx : x.Stands place n)
    (hplaces : place + 4 * gs.length ≤ 28)
    (hroom : ∀ i < gs.length, HasRoom (place + 4 * (i + 1)) (groupsValue n (gs.take (i + 1)))) :
    ∃ y, fractionPart? x (place + 4) gs = some y ∧
      y.Stands (place + 4 * gs.length) (groupsValue n gs) := by
  induction gs generalizing x place n with
  | nil => exact ⟨x, rfl, hx⟩
  | cons g gs ih =>
      rw [List.length_cons] at hplaces hroom ⊢
      obtain ⟨next, hadd, hnext⟩ := addPlace?_exact hx (hroom 0 (by omega))
      have hrest : ∀ i < gs.length,
          HasRoom (place + 4 + 4 * (i + 1)) (groupsValue (n * 10000 + g) (gs.take (i + 1))) := by
        intro i hi
        have h := hroom (i + 1) (by omega)
        have hplace : place + 4 * (i + 1 + 1) = place + 4 + 4 * (i + 1) := by omega
        rwa [hplace] at h
      obtain ⟨y, hread, hy⟩ := ih hnext (by omega) hrest
      refine ⟨y, ?_, ?_⟩
      · rw [fractionPart?, if_pos (by omega), hadd]
        exact hread
      · have hplace : place + 4 * (gs.length + 1) = place + 4 + 4 * gs.length := by omega
        rw [hplace]
        exact hy

/-! ## The scale of the column -/

theorem extend_exact {steps : Nat} {x : Partial}
    (h : x.coefficient * Nat.pow 10 steps < Nat.pow 2 96) :
    extend steps x = ⟨x.coefficient * Nat.pow 10 steps, x.scale + steps⟩ := by
  induction steps generalizing x with
  | zero =>
      show x = ⟨x.coefficient * 1, x.scale⟩
      rw [Nat.mul_one]
  | succ steps ih =>
      have hsplit : x.coefficient * Nat.pow 10 (steps + 1)
          = x.coefficient * 10 * Nat.pow 10 steps := by
        simp only [Nat.pow_eq]
        ring
      have hpos : 0 < Nat.pow 10 steps := Nat.pos_of_ne_zero (by simp)
      rw [hsplit] at h ⊢
      rw [extend, if_pos (Nat.lt_of_le_of_lt (Nat.le_mul_of_pos_right _ hpos) h), ih h,
        Nat.add_assoc, Nat.add_comm 1]

/-- A number is brought exactly to a scale at which it has room. -/
theorem rescale_exact {x : Partial} {coefficient scale : Nat} (hpos : coefficient ≠ 0)
    (hlt : coefficient < Nat.pow 2 96)
    (h : x.coefficient * Nat.pow 10 scale = coefficient * Nat.pow 10 x.scale) :
    rescale x scale = ⟨coefficient, scale⟩ := by
  have hten : ∀ k, 0 < Nat.pow 10 k := fun k => Nat.pos_of_ne_zero (by simp)
  have hne : x.coefficient ≠ 0 := by
    intro hzero
    rw [hzero, Nat.zero_mul] at h
    exact absurd h.symm (Nat.mul_ne_zero hpos (hten _).ne')
  rw [rescale, if_neg hne]
  split
  · next hscale =>
    have hsplit : Nat.pow 10 x.scale = Nat.pow 10 (x.scale - scale) * Nat.pow 10 scale := by
      simp only [Nat.pow_eq]
      rw [← Nat.pow_add, Nat.sub_add_cancel hscale.le]
    have hvalue : x.coefficient = coefficient * Nat.pow 10 (x.scale - scale) := by
      rw [hsplit, ← Nat.mul_assoc] at h
      exact Nat.eq_of_mul_eq_mul_right (hten scale) h
    rw [roundHalfUp, hvalue, Nat.mul_comm, Nat.mul_add_div (hten _),
      Nat.div_eq_of_lt (Nat.div_lt_self (hten _) (by decide)), Nat.add_zero]
  · next hscale =>
    have hle : x.scale ≤ scale := Nat.le_of_not_lt hscale
    have hsplit : Nat.pow 10 scale = Nat.pow 10 (scale - x.scale) * Nat.pow 10 x.scale := by
      simp only [Nat.pow_eq]
      rw [← Nat.pow_add, Nat.sub_add_cancel hle]
    have hvalue : x.coefficient * Nat.pow 10 (scale - x.scale) = coefficient := by
      rw [hsplit, ← Nat.mul_assoc] at h
      exact Nat.eq_of_mul_eq_mul_right (hten x.scale) h
    rw [extend_exact (by rw [hvalue]; exact hlt), hvalue, Nat.add_sub_cancel' hle]

/-! ## The groups of a decimal -/

section Decimals

variable {d : Decimal}

/-- The groups behind the point. -/
def fractionGroups (d : Decimal) : Nat := (d.scale + 3) / 4

/-- The coefficient, with zeros up to the end of the last group. -/
def aligned (d : Decimal) : Nat :=
  d.coefficient * Nat.pow 10 (4 * fractionGroups d - d.scale)

theorem aligned_lt (d : Decimal) : aligned d < Nat.pow 10000 16 := by
  have hpow : Nat.pow 10 (4 * fractionGroups d - d.scale) ≤ Nat.pow 10 3 :=
    Nat.pow_le_pow_right (by decide) (by unfold fractionGroups; omega)
  calc aligned d ≤ d.coefficient * Nat.pow 10 3 := Nat.mul_le_mul_left _ hpow
    _ ≤ Nat.pow 2 96 * Nat.pow 10 3 := Nat.mul_le_mul_right _ d.coefficient_lt.le
    _ < Nat.pow 10000 16 := by decide

/-- What the groups up to some place spell is at most the coefficient, if there are as many groups
behind it as end in the zeros. -/
theorem le_coefficient {n : Nat} (behind : Nat) (h : n * Nat.pow 10000 behind ≤ aligned d)
    (hbehind : 4 * fractionGroups d - d.scale ≤ 4 * behind) : n ≤ d.coefficient := by
  have hpow : Nat.pow 10 (4 * fractionGroups d - d.scale) ≤ Nat.pow 10000 behind := by
    rw [pow_groups]
    exact Nat.pow_le_pow_right (by decide) hbehind
  exact Nat.le_of_mul_le_mul_right (Nat.le_trans (Nat.mul_le_mul_left n hpow) h)
    (Nat.pos_of_ne_zero (by simp))

/-- After each group there is room for what was read, and zeros behind it after the last one only. -/
theorem hasRoom_aligned {place zeros n i : Nat} {gs : List Nat}
    (hplaces : place + 4 * (gs.length + zeros) = 4 * fractionGroups d)
    (hvalue : groupsValue n gs * Nat.pow 10000 zeros = aligned d) (hi : i < gs.length) :
    HasRoom (place + 4 * (i + 1)) (groupsValue n (gs.take (i + 1))) := by
  have hscale := d.scale_le
  have hsplit : gs.take (i + 1) ++ gs.drop (i + 1) = gs := List.take_append_drop _ _
  by_cases hlast : gs.length - (i + 1) + zeros = 0
  · have htake : gs.take (i + 1) = gs := List.take_of_length_le (by omega)
    have hnone : zeros = 0 := by omega
    refine ⟨d.coefficient, 4 * fractionGroups d - d.scale, ?_, d.coefficient_lt, by omega⟩
    rw [htake]
    rw [hnone] at hvalue
    exact (Nat.mul_one _).symm.trans hvalue
  · have hle : groupsValue n (gs.take (i + 1)) * Nat.pow 10000 (gs.length - (i + 1) + zeros)
        ≤ aligned d := by
      have hprefix := mul_le_groupsValue (groupsValue n (gs.take (i + 1))) (gs.drop (i + 1))
      rw [← groupsValue_append, hsplit, List.length_drop] at hprefix
      rw [← hvalue]
      simp only [Nat.pow_eq] at hprefix ⊢
      rw [Nat.pow_add, ← Nat.mul_assoc]
      exact Nat.mul_le_mul_right _ hprefix
    refine ⟨groupsValue n (gs.take (i + 1)), 0, (Nat.mul_one _).symm, ?_, Nat.zero_le _⟩
    refine Nat.lt_of_le_of_lt (le_coefficient _ hle ?_) d.coefficient_lt
    unfold fractionGroups
    omega

/-- Two numbers of places that are equal in units of a common place. -/
theorem mul_pow_eq_of_units {a b s t u place : Nat} (hu : u + t = place) (hs : s ≤ place)
    (h : a * Nat.pow 10 u = b * Nat.pow 10 (place - s)) : a * Nat.pow 10 s = b * Nat.pow 10 t := by
  simp only [Nat.pow_eq] at h ⊢
  have hpos : 0 < 10 ^ place := Nat.pow_pos (by decide)
  apply Nat.eq_of_mul_eq_mul_right hpos
  calc a * 10 ^ s * 10 ^ place
      = a * 10 ^ u * 10 ^ t * 10 ^ s := by
        rw [← hu, Nat.pow_add]
        ring
    _ = b * (10 ^ (place - s) * 10 ^ s) * 10 ^ t := by
        rw [h]
        ring
    _ = b * 10 ^ t * 10 ^ place := by
        rw [← Nat.pow_add, Nat.sub_add_cancel hs]
        ring

/-- The groups behind the point are read as what the decimal stands for, if those that are left out
are zeros. -/
theorem fractionPart?_aligned {x : Partial} {n : Nat} {gs : List Nat} (place zeros : Nat)
    (hx : x.Stands place n) (hplaces : place + 4 * (gs.length + zeros) = 4 * fractionGroups d)
    (hvalue : groupsValue n gs * Nat.pow 10000 zeros = aligned d) :
    ∃ y, fractionPart? x (place + 4) gs = some y ∧
      y.coefficient * Nat.pow 10 d.scale = d.coefficient * Nat.pow 10 y.scale := by
  have hscale := d.scale_le
  have hgroups : 4 * fractionGroups d ≤ 28 := by
    unfold fractionGroups
    omega
  have hcover : d.scale ≤ 4 * fractionGroups d := by
    unfold fractionGroups
    omega
  obtain ⟨y, hread, hy, hyvalue⟩ := fractionPart?_exact hx (by omega) fun i hi =>
    hasRoom_aligned hplaces hvalue hi
  refine ⟨y, hread, mul_pow_eq_of_units (u := place + 4 * gs.length - y.scale + 4 * zeros)
    (by omega) hcover ?_⟩
  have hsplit : Nat.pow 10 (place + 4 * gs.length - y.scale + 4 * zeros)
      = Nat.pow 10 (place + 4 * gs.length - y.scale) * Nat.pow 10 (4 * zeros) := by
    simp only [Nat.pow_eq]
    rw [Nat.pow_add]
  rw [hsplit, ← pow_groups, ← Nat.mul_assoc, hyvalue]
  exact hvalue

end Decimals

/-! ## Words -/

theorem wordsOf_ofNat {n : Nat} (h : n < 65536) (rest : Bytes) :
    wordsOf (Bytes.ofNat 2 n ++ rest) = n :: wordsOf rest := by
  have hhigh : (UInt8.ofNat (n / 256)).toNat = n / 256 := by
    rw [UInt8.toNat_ofNat']
    omega
  have hlow : (UInt8.ofNat (n / 1)).toNat = n % 256 := by
    rw [UInt8.toNat_ofNat', Nat.div_one]
  have hword : n / 256 * 256 + n % 256 = n := by omega
  show ((UInt8.ofNat (n / 256)).toNat * 256 + (UInt8.ofNat (n / 1)).toNat) :: wordsOf rest = _
  rw [hhigh, hlow, hword]

theorem wordsOf_flatMap {gs : List Nat} (h : ∀ g ∈ gs, g < 10000) :
    wordsOf (gs.flatMap (Bytes.ofNat 2)) = gs := by
  induction gs with
  | nil => rfl
  | cons g gs ih =>
      have hg := h g List.mem_cons_self
      rw [List.flatMap_cons, wordsOf_ofNat (by omega), ih fun k hk => h k (List.mem_cons_of_mem g hk)]

/-! ## The binary form -/

/-- A decimal is read from a header and groups that stand for it. -/
theorem decode?_eq {d : Decimal} {weight : Int} {kept : List Nat} {y : Partial} (whole : Nat)
    (hd : d.coefficient ≠ 0) (hweight : -16 ≤ weight ∧ weight ≤ 16) (hlength : kept.length ≤ 16)
    (hkept : ∀ g ∈ kept, g < 10000) (hcount : (weight + 1).toNat ≤ kept.length)
    (hwhole : wholePart? 0 (kept.take (weight + 1).toNat) = some whole)
    (hlt : whole < Nat.pow 2 96)
    (hread : fractionPart? ⟨whole, 0⟩ (4 * ((-weight).toNat - 1) + 4)
      (kept.drop (weight + 1).toNat) = some y)
    (hy : y.coefficient * Nat.pow 10 d.scale = d.coefficient * Nat.pow 10 y.scale) :
    decode? (Bytes.ofNat 2 kept.length ++ Bytes.ofInt 2 weight
      ++ Bytes.ofNat 2 (if d.negative then negativeWord else 0)
      ++ Bytes.ofNat 2 d.scale ++ kept.flatMap (Bytes.ofNat 2)) = some d := by
  have hscale := d.scale_le
  have hpow : Nat.pow 256 2 = 65536 := by decide
  have hword : (weight % Nat.pow 256 2).toNat < 65536 := by
    rw [hpow]
    omega
  have hsign : (if d.negative then negativeWord else 0) < 65536 := by
    split <;> decide
  have hback : Bytes.toInt (Bytes.ofNat 2 (weight % Nat.pow 256 2).toNat) = weight :=
    Bytes.toInt_ofInt_of_bounds (by rw [hpow]; omega) (by rw [hpow]; omega)
  have hproper : ¬(kept.length < kept.length ∨
      (if d.negative then negativeWord else 0) &&& specialBits = specialBits) := by
    rintro (h | h)
    · exact Nat.lt_irrefl _ h
    · revert h
      cases d.negative <;> decide
  have hnegative : decide ((if d.negative then negativeWord else 0) = negativeWord) = d.negative := by
    cases d.negative <;> decide
  have hzeros : appendZeros? whole ((weight + 1).toNat - kept.length) = some whole := by
    have hone : whole * Nat.pow 10000 0 = whole := Nat.mul_one whole
    rw [Nat.sub_eq_zero_of_le hcount, appendZeros?, hone, if_neg]
    rintro (h | h)
    · exact Nat.not_lt_zero _ h
    · exact absurd hlt (Nat.not_lt.mpr h)
  have hmake : Decimal.make? d.negative d.coefficient d.scale = some d :=
    dif_pos ⟨d.coefficient_lt, d.scale_le⟩
  rw [Bytes.ofInt, List.append_assoc, List.append_assoc, List.append_assoc, decode?,
    wordsOf_ofNat (by omega), wordsOf_ofNat hword, wordsOf_ofNat hsign, wordsOf_ofNat (by omega),
    wordsOf_flatMap hkept]
  dsimp only
  rw [if_neg hproper, List.take_length, hback, hwhole, Option.bind_eq_bind, Option.bind_some,
    hzeros, Option.bind_eq_bind, Option.bind_some, hread, Option.bind_some,
    Nat.min_eq_left hscale, rescale_exact hd d.coefficient_lt hy, hnegative]
  exact hmake

/-- The power of 10000 of the first group. -/
def leadingPower (d : Decimal) : Int :=
  ((groups 16 (aligned d)).length : Int) - fractionGroups d - 1

/-- The groups that are written. -/
def keptGroups (d : Decimal) : List Nat :=
  if 0 ≤ leadingPower d then
    (groups 16 (aligned d)).take (leadingPower d + 1).toNat
      ++ dropZeros ((groups 16 (aligned d)).drop (leadingPower d + 1).toNat)
  else groups 16 (aligned d)

theorem encode_eq {d : Decimal} (hd : d.coefficient ≠ 0) : encode d
    = Bytes.ofNat 2 (keptGroups d).length ++ Bytes.ofInt 2 (leadingPower d)
      ++ Bytes.ofNat 2 (if d.negative then negativeWord else 0)
      ++ Bytes.ofNat 2 d.scale ++ (keptGroups d).flatMap (Bytes.ofNat 2) :=
  if_neg hd

/-- Zeros at the end that are left out are a power of 10000. -/
theorem groupsValue_kept {gs : List Nat} {n zeros : Nat}
    (hzeros : gs.drop n = dropZeros (gs.drop n) ++ List.replicate zeros 0) :
    groupsValue (groupsValue 0 (gs.take n)) (dropZeros (gs.drop n)) * Nat.pow 10000 zeros
      = groupsValue 0 gs := by
  rw [← groupsValue_zeros, ← groupsValue_append, ← hzeros, ← groupsValue_append,
    List.take_append_drop]

/-- The groups before the point spell less than a coefficient may be. -/
theorem groupsValue_whole_lt {d : Decimal} {gs : List Nat} {n : Nat}
    (hvalue : groupsValue 0 gs = aligned d) (hcount : gs.length - n = fractionGroups d) :
    groupsValue 0 (gs.take n) < Nat.pow 2 96 := by
  have hle : groupsValue 0 (gs.take n) * Nat.pow 10000 (fractionGroups d) ≤ aligned d := by
    have hprefix := mul_le_groupsValue (groupsValue 0 (gs.take n)) (gs.drop n)
    rwa [← groupsValue_append, List.take_append_drop, hvalue, List.length_drop, hcount] at hprefix
  exact Nat.lt_of_le_of_lt (le_coefficient (fractionGroups d) hle (Nat.sub_le _ _))
    d.coefficient_lt

/-- A decimal with a whole part: its groups before the point are all written. -/
theorem decode?_encode_of_whole {d : Decimal} (hd : d.coefficient ≠ 0)
    (hwhole : 0 ≤ leadingPower d) : decode? (encode d) = some d := by
  have hscale := d.scale_le
  have hlength := length_groups_le 16 (aligned d)
  have hvalue := groupsValue_groups (aligned_lt d)
  have hgroups : ∀ g ∈ groups 16 (aligned d), g < 10000 := fun _ => lt_of_mem_groups
  have hkeep : keptGroups d = (groups 16 (aligned d)).take (leadingPower d + 1).toNat
      ++ dropZeros ((groups 16 (aligned d)).drop (leadingPower d + 1).toNat) := if_pos hwhole
  have hpower : leadingPower d = (groups 16 (aligned d)).length - fractionGroups d - 1 := rfl
  rw [encode_eq hd, hkeep]
  generalize groups 16 (aligned d) = gs at *
  generalize leadingPower d = power at *
  obtain ⟨zeros, hzeros⟩ := exists_dropZeros (gs.drop (power + 1).toNat)
  have hcount : (power + 1).toNat = gs.length - fractionGroups d := by omega
  have htake : (gs.take (power + 1).toNat).length = (power + 1).toNat := by
    rw [List.length_take]
    omega
  have hdropped := congrArg List.length hzeros
  rw [List.length_drop, List.length_append, List.length_replicate] at hdropped
  have hlt := groupsValue_whole_lt hvalue (n := (power + 1).toNat) (by omega)
  obtain ⟨y, hread, hy⟩ := fractionPart?_aligned
    (x := ⟨groupsValue 0 (gs.take (power + 1).toNat), 0⟩) 0 zeros
    ⟨Nat.le_refl 0, Nat.mul_one _⟩ (by omega) ((groupsValue_kept hzeros).trans hvalue)
  refine decode?_eq (groupsValue 0 (gs.take (power + 1).toNat)) hd (by omega) ?_ ?_ ?_ ?_ hlt ?_ hy
  · rw [List.length_append, htake]
    omega
  · intro g hg
    rcases List.mem_append.mp hg with hg | hg
    · exact hgroups g (List.mem_of_mem_take hg)
    · have hmem : g ∈ gs.drop (power + 1).toNat := by
        rw [hzeros]
        exact List.mem_append_left _ hg
      exact hgroups g (List.mem_of_mem_drop hmem)
  · rw [List.length_append, htake]
    omega
  · rw [List.take_append_of_le_length htake.ge, List.take_take, Nat.min_self]
    exact wholePart?_eq hlt
  · have hplace : 4 * ((-power).toNat - 1) + 4 = 0 + 4 := by omega
    rw [List.drop_append_of_le_length htake.ge, List.drop_take_self, List.nil_append, hplace]
    exact hread

/-- A decimal without a whole part: its groups begin behind the point. -/
theorem decode?_encode_of_fraction {d : Decimal} (hd : d.coefficient ≠ 0)
    (hfraction : ¬0 ≤ leadingPower d) : decode? (encode d) = some d := by
  have hscale := d.scale_le
  have hlength := length_groups_le 16 (aligned d)
  have hvalue := groupsValue_groups (aligned_lt d)
  have hgroups : ∀ g ∈ groups 16 (aligned d), g < 10000 := fun _ => lt_of_mem_groups
  have hkeep : keptGroups d = groups 16 (aligned d) := if_neg hfraction
  have hpower : leadingPower d = (groups 16 (aligned d)).length - fractionGroups d - 1 := rfl
  have hmany : fractionGroups d ≤ 7 := by
    unfold fractionGroups
    omega
  rw [encode_eq hd, hkeep]
  generalize groups 16 (aligned d) = gs at *
  generalize leadingPower d = power at *
  have hcount : (power + 1).toNat = 0 := by omega
  obtain ⟨y, hread, hy⟩ := fractionPart?_aligned (x := ⟨0, 0⟩)
    (4 * (fractionGroups d - gs.length)) 0 ⟨Nat.zero_le _, Nat.zero_mul _⟩ (by omega)
    ((Nat.mul_one _).trans hvalue)
  refine decode?_eq 0 hd (by omega) hlength hgroups ?_ ?_ (by decide) ?_ hy
  · rw [hcount]
    exact Nat.zero_le _
  · rw [hcount]
    rfl
  · have hplace : 4 * ((-power).toNat - 1) + 4 = 4 * (fractionGroups d - gs.length) + 4 := by omega
    rw [hcount, hplace]
    exact hread

/-- **The binary form of a decimal is read as that decimal**, unless it is a zero. -/
theorem decode?_encode {d : Decimal} (hd : d.coefficient ≠ 0) : decode? (encode d) = some d := by
  by_cases hwhole : 0 ≤ leadingPower d
  · exact decode?_encode_of_whole hd hwhole
  · exact decode?_encode_of_fraction hd hwhole

/-- A zero is read without its sign and its places. -/
theorem decode?_encode_zero {d : Decimal} (hd : d.coefficient = 0) :
    decode? (encode d) = Decimal.make? false 0 0 := by
  rw [encode, if_pos hd]
  decide +kernel

theorem exists_decode?_encode (d : Decimal) : ∃ e, decode? (encode d) = some e := by
  by_cases hd : d.coefficient = 0
  · rw [decode?_encode_zero hd]
    exact ⟨_, dif_pos ⟨by decide, by decide⟩⟩
  · exact ⟨d, decode?_encode hd⟩

end SqlBuilder.Wire.Numeric
