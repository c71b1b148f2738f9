import SqlBuilder.Proofs.Number.Digits
import SqlBuilder.Proofs.Text.Blank
import SqlBuilder.Value.Basic

/-!
# Texts that spell an integer

A text spells an integer if it is a numeral between blanks, that is one digit or more behind an
optional sign.  A value's integer is the one that its text spells, provided that it has 64 bits
(`Value.asInt?_text`): leading zeros, the sign and the blanks around it make no difference, and
nothing is cut off to make a number fit.
-/

namespace SqlBuilder

open Number Text

namespace Number

/-! ## Numerals -/

/-- One digit or more. -/
def IsDigits (cs : List Char) : Prop := cs ≠ [] ∧ ∀ c ∈ cs, isDigit c = true

/-- Digits behind an optional sign, and the integer that they stand for. -/
inductive Numeral : List Char → Int → Prop
  | plain {ds : List Char} : IsDigits ds → Numeral ds (digitsValue ds)
  | plus {ds : List Char} : IsDigits ds → Numeral ('+' :: ds) (digitsValue ds)
  | minus {ds : List Char} : IsDigits ds → Numeral ('-' :: ds) (-digitsValue ds)

theorem naturalOfDigits?_eq_some_iff {cs : List Char} {n : Nat} :
    naturalOfDigits? cs = some n ↔ IsDigits cs ∧ n = digitsValue cs := by
  have hrefused : (cs.isEmpty || !cs.all isDigit) = true ↔ ¬IsDigits cs := by
    simp [IsDigits, Decidable.or_iff_not_imp_left]
  unfold naturalOfDigits?
  by_cases hcs : IsDigits cs
  · have hread : ¬(cs.isEmpty || !cs.all isDigit) = true := fun h => hrefused.mp h hcs
    rw [if_neg hread, Option.some.injEq]
    exact ⟨fun h => ⟨hcs, h.symm⟩, fun h => h.2.symm⟩
  · rw [if_pos (hrefused.mpr hcs)]
    exact iff_of_false (fun h => nomatch h) fun h => hcs h.1

theorem digits_eq_some_iff {cs : List Char} {n : Int} :
    (naturalOfDigits? cs : Option Int) = some n ↔ IsDigits cs ∧ n = digitsValue cs := by
  constructor
  · intro h
    obtain ⟨k, hk, hn⟩ := Option.bind_eq_some_iff.mp h
    obtain ⟨hcs, rfl⟩ := naturalOfDigits?_eq_some_iff.mp hk
    exact ⟨hcs, (Option.some.inj hn).symm⟩
  · rintro ⟨hcs, rfl⟩
    rw [naturalOfDigits?_eq_some_iff.mpr ⟨hcs, rfl⟩]
    rfl

theorem isBlank_of_isDigit {c : Char} (h : isDigit c = true) : isBlank c = false := by
  simp only [isDigit, Bool.and_eq_true, decide_eq_true_eq, Char.le_def, UInt32.le_iff_toNat_le] at h
  have hrange : 48 ≤ c.toNat ∧ c.toNat ≤ 57 := h
  simp only [isBlank, blankRanges, List.any_cons, List.any_nil, Bool.or_false, Bool.or_eq_false_iff,
    Bool.and_eq_false_iff, decide_eq_false_iff_not]
  omega

/-- A sign is no digit, so a text without one is read as digits from its first character. -/
theorem integerOfText?_eq_some_iff {s : String} {n : Int} :
    integerOfText? s = some n ↔ Numeral s.toList n := by
  unfold integerOfText?
  constructor
  · intro h
    split at h
    all_goals
      obtain ⟨m, hm, rfl⟩ := Option.map_eq_some_iff.mp h
      obtain ⟨hds, rfl⟩ := digits_eq_some_iff.mp hm
    · next hs =>
      rw [hs]
      exact .minus hds
    · next hs =>
      rw [hs]
      exact .plus hds
    · exact .plain hds
  · intro h
    generalize s.toList = cs at h
    cases h with
    | plain hds =>
        split
        · exact absurd (hds.2 _ List.mem_cons_self) (by decide)
        · exact absurd (hds.2 _ List.mem_cons_self) (by decide)
        · rw [digits_eq_some_iff.mpr ⟨hds, rfl⟩]
          rfl
    | @plus ds hds =>
        show (naturalOfDigits? ds : Option Int).map (fun n => n) = _
        rw [digits_eq_some_iff.mpr ⟨hds, rfl⟩]
        rfl
    | @minus ds hds =>
        show (naturalOfDigits? ds : Option Int).map (fun n => -n) = _
        rw [digits_eq_some_iff.mpr ⟨hds, rfl⟩]
        rfl

/-- A numeral has no blank at its ends, which are a sign or a digit. -/
theorem Numeral.ends {cs : List Char} {n : Int} (h : Numeral cs n) :
    cs ≠ [] ∧ EndsBlanks cs ∧ EndsBlanks cs.reverse := by
  have hdigits : ∀ {ds : List Char}, IsDigits ds → EndsBlanks ds ∧ EndsBlanks ds.reverse := by
    intro ds hds
    constructor
    · intro c hc
      exact isBlank_of_isDigit (hds.2 c (List.mem_of_mem_head? hc))
    · intro c hc
      exact isBlank_of_isDigit (hds.2 c (List.mem_reverse.mp (List.mem_of_mem_head? hc)))
  have hsigned : ∀ {sign : Char} {ds : List Char}, isBlank sign = false → IsDigits ds →
      sign :: ds ≠ [] ∧ EndsBlanks (sign :: ds) ∧ EndsBlanks (sign :: ds).reverse := by
    intro sign ds hsign hds
    refine ⟨List.cons_ne_nil sign ds, endsBlanks_cons hsign ds, ?_⟩
    have hne : ds.reverse ≠ [] := by simpa using hds.1
    intro c hc
    rw [List.reverse_cons, List.head?_append_of_ne_nil _ hne] at hc
    exact (hdigits hds).2 c hc
  cases h with
  | plain hds => exact ⟨hds.1, hdigits hds⟩
  | plus hds => exact hsigned (by decide) hds
  | minus hds => exact hsigned (by decide) hds

/-! ## Numerals between blanks -/

/-- The text is a numeral of the integer, with blanks on either side. -/
inductive Spells (s : String) (n : Int) : Prop
  | between {before numeral after : List Char} (hs : s.toList = before ++ numeral ++ after)
      (hbefore : ∀ c ∈ before, isBlank c = true) (hnumeral : Numeral numeral n)
      (hafter : ∀ c ∈ after, isBlank c = true) : Spells s n

theorem spells_iff {s : String} {n : Int} : Spells s n ↔ Numeral (trim s).toList n := by
  constructor
  · rintro ⟨hs, hbefore, hnumeral, hafter⟩
    obtain ⟨hne, hfirst, hlast⟩ := hnumeral.ends
    rwa [toList_trim_of_between hs hbefore hafter hne hfirst hlast]
  · intro h
    obtain ⟨before, after, hs, hbefore, hafter⟩ := toList_trim_between s
    exact .between hs hbefore h hafter

/-- An integer of 64 bits is read if it fits, and is then what was read. -/
theorem int64OfText?_eq_some_iff {s : String} {n : Int64} :
    int64OfText? s = some n ↔ Numeral s.toList n.toInt := by
  have hfits : ∀ k : Int, fitsSigned 64 k = true ↔
      -9223372036854775808 ≤ k ∧ k < 9223372036854775808 := by
    intro k
    have hpow : Nat.pow 2 (64 - 1) = 9223372036854775808 := by decide
    rw [fitsSigned, Bool.and_eq_true, decide_eq_true_eq, decide_eq_true_eq, hpow]
    rfl
  rw [← integerOfText?_eq_some_iff]
  unfold int64OfText?
  constructor
  · intro h
    obtain ⟨k, hk, rfl⟩ := Option.map_eq_some_iff.mp h
    obtain ⟨hread, hbounds⟩ := Option.filter_eq_some_iff.mp hk
    obtain ⟨hlow, hhigh⟩ := (hfits k).mp hbounds
    rw [Int64.toInt_ofInt_of_le hlow hhigh, hread]
  · intro h
    have hbounds := (hfits n.toInt).mpr ⟨n.le_toInt, n.toInt_lt⟩
    rw [h, Option.filter_some, if_pos hbounds, Option.map_some, Int64.ofInt_toInt]

end Number

/-- **The integer of a text is the one that it spells.** -/
theorem Value.asInt?_text {s : String} {n : Int64} :
    (Value.text s).asInt? = some n ↔ Spells s n.toInt :=
  int64OfText?_eq_some_iff.trans spells_iff.symm

end SqlBuilder
