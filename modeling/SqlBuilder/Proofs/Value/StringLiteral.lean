import SqlBuilder.Proofs.Value.Literal

/-!
# String literals as they are read

Two readers meet a value that is written into a statement: the server's, for which a literal ends at
its closing quote, and the scanner for placeholders.  Both take the literal for the whole value and
nothing else, whatever stands in it: the server reads back the value's text
(`Value.readLiteral?_literal`), and the scanner copies the literal and goes on behind it as if it
were not there (`Value.pieces_literal`).
-/

namespace SqlBuilder

open Placeholder

/-! ## The server's reader -/

/-- Reads behind an opening quote: the text up to the closing quote and what follows it.  A doubled
quote stands for one, and a backslash for itself. -/
def readBody : List Char → Option (List Char × List Char)
  | [] => none
  | '\'' :: '\'' :: rest => (readBody rest).map fun r => ('\'' :: r.1, r.2)
  | '\'' :: rest => some ([], rest)
  | c :: rest => (readBody rest).map fun r => (c :: r.1, r.2)

/-- Reads a string literal: its text and what follows it. -/
def readLiteral? : List Char → Option (List Char × List Char)
  | '\'' :: rest => readBody rest
  | _ => none

theorem readBody_of_ne {c : Char} (h : c ≠ '\'') (rest : List Char) :
    readBody (c :: rest) = (readBody rest).map fun r => (c :: r.1, r.2) := by
  rw [readBody]
  · exact fun _ hc _ => h hc
  · exact fun hc => h hc

theorem readBody_close {rest : List Char} (h : rest.head? ≠ some '\'') :
    readBody ('\'' :: rest) = some ([], rest) := by
  cases rest with
  | nil => rfl
  | cons c rest =>
      have hc : c ≠ '\'' := fun e => h (congrArg some e)
      rw [readBody]
      rintro more ⟨⟩
      exact hc rfl

/-- The quotes inside are read in pairs, so the literal ends at the quote behind them. -/
theorem readBody_doubleQuotes (cs : List Char) {rest : List Char} (h : rest.head? ≠ some '\'') :
    readBody (Value.doubleQuotes cs ++ '\'' :: rest) = some (cs, rest) := by
  induction cs with
  | nil => exact readBody_close h
  | cons c cs ih =>
      have hcons : Value.doubleQuotes (c :: cs)
          = (if c = '\'' then ['\'', '\''] else [c]) ++ Value.doubleQuotes cs := rfl
      rw [hcons, List.append_assoc]
      by_cases hc : c = '\''
      · subst c
        rw [if_pos rfl]
        show readBody ('\'' :: '\'' :: (Value.doubleQuotes cs ++ '\'' :: rest)) = _
        rw [readBody, ih]
        rfl
      · rw [if_neg hc, List.singleton_append, readBody_of_ne hc, ih]
        rfl

theorem readLiteral?_quoted (s : String) {rest : List Char} (h : rest.head? ≠ some '\'') :
    readLiteral? ((Value.quoted s).toList ++ rest) = some (s.toList, rest) := by
  have htext : (Value.quoted s).toList ++ rest
      = '\'' :: (Value.doubleQuotes s.toList ++ '\'' :: rest) := by
    simp [Value.quoted]
  rw [htext]
  exact readBody_doubleQuotes s.toList h

namespace Value

/-- Whether the value is written as a string literal. -/
def isQuoted : Value → Bool
  | .text _ => true
  | .json _ => true
  | .float x => !x.isFinite
  | _ => false

theorem literal_eq_quoted {v : Value} (h : v.isQuoted = true) : v.literal = quoted v.display := by
  cases v with
  | text s => rfl
  | json j => rfl
  | float x =>
      have hx : ¬ x.isFinite = true := by simpa [isQuoted] using h
      rw [literal, if_neg hx]
      rfl
  | _ => simp [isQuoted] at h

/-- A string literal is read back as the value's text, and reading stops behind it. -/
theorem readLiteral?_literal {v : Value} (h : v.isQuoted = true) {rest : List Char}
    (hrest : rest.head? ≠ some '\'') :
    readLiteral? (v.literal.toList ++ rest) = some (v.display.toList, rest) := by
  rw [literal_eq_quoted h]
  exact readLiteral?_quoted v.display hrest

/-- Any other literal is a word or a number. -/
theorem plain_literal {v : Value} (h : v.isQuoted = false) : Plain v.literal := by
  cases v with
  | null => decide +kernel
  | bool b => cases b <;> decide +kernel
  | int n => exact plain_toString_int n.toInt
  | float x =>
      have hx : x.isFinite = true := by simpa [isQuoted] using h
      rw [literal, if_pos hx]
      exact plain_toText hx
  | text s => simp [isQuoted] at h
  | json j => simp [isQuoted] at h

end Value

/-! ## The scanner -/

/-- The scanner copies a literal and stands behind it where it stood before. -/
theorem Value.scan_literal (v : Value) :
    after .code v.literal.toList = .code ∧ run .code v.literal.toList = copy v.literal.toList := by
  by_cases h : v.isQuoted = true
  · have hquotation : v.literal = quotation '\'' v.display.toList := literal_eq_quoted h
    rw [hquotation]
    exact scan_quotation (.inl rfl) v.display.toList
  · have hplain := plain_literal (Bool.eq_false_iff.mpr h)
    exact ⟨after_plain hplain, run_plain hplain⟩

/-- The text ends in a blank or in an opening parenthesis. -/
def EndsOpen (a : String) : Prop :=
  a.toList.getLast? = some ' ' ∨ a.toList.getLast? = some '('

instance (a : String) : Decidable (EndsOpen a) := inferInstanceAs (Decidable (_ ∨ _))

/-- Behind such a text nothing is left open, neither a colon nor a name. -/
theorem after_of_endsOpen {a : String} (ha : Closes a) (hend : EndsOpen a) :
    after .code a.toList = .code := by
  obtain ⟨c, hlast, hc⟩ : ∃ c, a.toList.getLast? = some c ∧ IsSeparator c := by
    rcases hend with h | h
    · exact ⟨' ', h, by decide⟩
    · exact ⟨'(', h, by decide⟩
  obtain ⟨cs, hcs⟩ := List.getLast?_eq_some_iff.mp hlast
  unfold Closes at ha
  rw [hcs, after_append] at ha ⊢
  -- the separator is no quote, so the scanner stood outside quotes before it
  rcases inQuotes_or_outside (.inr outside_code) cs with hin | hout
  · have hquote : ∀ d ∈ [c], ¬ IsQuote d := by simpa using hc.1
    obtain ⟨q, -, hq⟩ := inQuotes_after hin hquote
    exact absurd hq (ha q)
  · rw [after, step_separator hout hc]
    rfl

/-- **A literal neither holds a placeholder nor hides one**: the pieces around it are those that the
texts around it have by themselves. -/
theorem Value.pieces_literal (v : Value) {a : String} (ha : Closes a) (hend : EndsOpen a)
    (b : String) :
    pieces (a ++ v.literal ++ b) = pieces a ++ copy v.literal.toList ++ pieces b := by
  have hcode := after_of_endsOpen ha hend
  obtain ⟨hafter, hrun⟩ := v.scan_literal
  have hbefore : pieces a = run .code a.toList := by
    rw [pieces, scan, hcode]
    exact List.append_nil _
  rw [hbefore]
  unfold pieces
  rw [String.toList_append, String.toList_append, List.append_assoc, scan_append, hcode,
    scan_append, hafter, hrun, List.append_assoc]

theorem Value.names_pieces_literal (v : Value) {a : String} (ha : Closes a) (hend : EndsOpen a)
    (b : String) :
    names (pieces (a ++ v.literal ++ b)) = names (pieces a) ++ names (pieces b) := by
  rw [v.pieces_literal ha hend, names_append, names_append, names_copy, List.append_nil]

end SqlBuilder
