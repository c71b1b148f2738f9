import SqlBuilder.Proofs.Placeholder.Filling

/-!
# Literals inside templates

A value that is written into a statement as a literal is inert, whatever it holds: texts and
documents are quotations, and numbers are digits, a sign and a point.
-/

namespace SqlBuilder

open Placeholder Number

/-! ## Numbers -/

/-- A digit, a sign or a point. -/
def isNumeral (c : Char) : Bool := c.isDigit || c = '-' || c = '.'

theorem not_special_of_isNumeral {c : Char} (h : isNumeral c = true) : ¬ IsQuote c ∧ c ≠ ':' := by
  refine ⟨?_, ?_⟩
  · rintro (rfl | rfl) <;> exact absurd h (by decide)
  · rintro rfl
    exact absurd h (by decide)

theorem plain_of_isNumeral {s : String} (h : ∀ c ∈ s.toList, isNumeral c = true) : Plain s :=
  fun c hc => not_special_of_isNumeral (h c hc)

theorem isNumeral_toString (n : Nat) : ∀ c ∈ (toString n).toList, isNumeral c = true := by
  intro c hc
  simp [isNumeral, isDigit_of_mem_toString hc]

theorem plain_toString (n : Nat) : Plain (toString n) :=
  plain_of_isNumeral (isNumeral_toString n)

theorem plain_toString_int (n : Int) : Plain (toString n) := by
  rw [Int.toString_eq_repr, Int.repr_eq_if]
  split
  · exact plain_toString _
  · exact Plain.append (by decide +kernel) (plain_toString _)

/-- Every part of a number's positional text is digits, zeros or the point. -/
theorem isNumeral_positional (d : DecimalDigits) : ∀ c ∈ d.positional, isNumeral c = true := by
  have hdigits : ∀ c ∈ d.digits, isNumeral c = true := isNumeral_toString d.coefficient
  have hzeros : ∀ n, ∀ c ∈ List.replicate n '0', isNumeral c = true := by
    intro n c hc
    rw [List.eq_of_mem_replicate hc]
    decide
  intro c hc
  -- the point stands behind all the digits, between them, or before zeros and digits
  unfold DecimalDigits.positional at hc
  split at hc
  · rcases List.mem_append.mp hc with hc | hc
    · exact hdigits c hc
    · exact hzeros _ c hc
  · dsimp only at hc
    split at hc
    · rcases List.mem_append.mp hc with hc | hc
      · exact hdigits c (List.mem_of_mem_take hc)
      · rcases List.mem_cons.mp hc with rfl | hc
        · decide
        · exact hdigits c (List.mem_of_mem_drop hc)
    · rcases List.mem_append.mp hc with hc | hc
      · rcases List.mem_cons.mp hc with rfl | hc
        · decide
        · rcases List.mem_cons.mp hc with rfl | hc
          · decide
          · exact hzeros _ c hc
      · exact hdigits c hc

theorem plain_signText (negative : Bool) : Plain (signText negative) := by
  cases negative <;> decide +kernel

theorem plain_toText {x : Binary64} (h : x.isFinite = true) : Plain x.toText := by
  unfold Binary64.isFinite at h
  unfold Binary64.toText
  split at h
  · next negative mantissa exponent hvalue =>
    rw [hvalue]
    refine (plain_signText negative).append (plain_of_isNumeral ?_)
    rw [String.toList_ofList]
    exact isNumeral_positional _
  · exact nomatch h

/-! ## Quoted text -/

namespace Value

/-- A string literal is a quotation. -/
theorem inert_quoted (s : String) : Inert (quoted s) := by
  have hquotation : quoted s = quotation '\'' s.toList := rfl
  rw [hquotation]
  exact inert_quotation (.inl rfl) s.toList

/-- **No value can end its literal, hold a placeholder or hide one behind it.** -/
theorem inert_literal (v : Value) : Inert v.literal := by
  cases v with
  | null => decide +kernel
  | bool b => cases b <;> decide +kernel
  | int n => exact (plain_toString_int n.toInt).inert
  | float x =>
      rw [literal]
      split
      · next h => exact (plain_toText h).inert
      · exact inert_quoted x.toText
  | text s => exact inert_quoted s
  | json j => exact inert_quoted j.toText

end Value

end SqlBuilder
