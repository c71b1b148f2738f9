import SqlBuilder.Proofs.Value.StringLiteral

/-!
# Translated text is final

What a translation returns may be scanned again: a log takes up text that has been filled in, and a
caller may hand in a statement that has been numbered.  The second pass has nothing left to do, it
finds no placeholder and returns the text as it is.

The replaced texts stand in a new context, where a colon before them or a quote in them might mean
something.  The argument therefore keeps the second pass in step with the first one: behind every
character it stands where the first pass stands, except that a colon or a name still open there is
not written yet (`settled`), and it has copied all that it met (`copies_run`).
-/

namespace SqlBuilder.Placeholder

/-- Scanning the text from `m` copies it and ends in `m'`, with nothing pending in between. -/
def Copies (m : Mode) (cs : List Char) (m' : Mode) : Prop :=
  after m cs = m' ∧ run m cs = copy cs

theorem Copies.nil (m : Mode) : Copies m [] m := ⟨rfl, rfl⟩

theorem Copies.append {m m' m'' : Mode} {as bs : List Char} (ha : Copies m as m')
    (hb : Copies m' bs m'') : Copies m (as ++ bs) m'' := by
  obtain ⟨haAfter, haRun⟩ := ha
  obtain ⟨hbAfter, hbRun⟩ := hb
  constructor
  · rw [after_append, haAfter, hbAfter]
  · rw [run_append, haAfter, haRun, hbRun, copy_append]

theorem Copies.scan_append {m m' : Mode} {as : List Char} (ha : Copies m as m')
    (bs : List Char) : scan m (as ++ bs) = copy as ++ scan m' bs := by
  rw [Placeholder.scan_append, ha.1, ha.2]

theorem copies_of_step {m m' : Mode} {c : Char} (h : step m c = ([.copied c], m')) :
    Copies m [c] m' := by
  constructor
  · show (step m c).2 = m'
    rw [h]
  · show (step m c).1 ++ [] = [.copied c]
    rw [h]
    rfl

theorem copies_plain {cs : List Char} (h : ∀ c ∈ cs, ¬ IsQuote c ∧ c ≠ ':') :
    Copies .code cs .code :=
  ⟨after_plain h, run_plain h⟩

/-! ## The second pass beside the first -/

/-- Where the second pass stands in the text written so far, when the first one stands at `m`. -/
def settled : Mode → Mode
  | .code => .code
  | .quoted q => .quoted q
  | .colon => .code
  | .name _ => .code

variable {f : String → List Char}

theorem enter_of_ne_colon {c : Char} (h : c ≠ ':') :
    enter c = ([.copied c], (enter c).2) ∧ settled (enter c).2 = (enter c).2 := by
  unfold enter
  rw [if_neg h]
  split
  · exact ⟨rfl, rfl⟩
  · exact ⟨rfl, rfl⟩

/-- Both passes take up a character outside quotes alike, but the first one holds a colon back. -/
theorem copies_enter (c : Char) :
    Copies .code (written f (enter c).1) (settled (enter c).2) := by
  by_cases hc : c = ':'
  · subst c
    exact .nil .code
  · obtain ⟨henter, hsettled⟩ := enter_of_ne_colon hc
    have hwritten : written f (enter c).1 = [c] := by
      rw [henter]
      rfl
    rw [hwritten, hsettled]
    exact copies_of_step henter

/-- A colon held back is written together with the character behind it, and is no placeholder's. -/
theorem copies_colon {c : Char} (hcolon : c ≠ ':') (hkey : isKeyChar c = false) :
    Copies .code [':', c] (settled (enter c).2) := by
  obtain ⟨henter, hsettled⟩ := enter_of_ne_colon hcolon
  have hstep : step .colon c = (.copied ':' :: (enter c).1, (enter c).2) := by
    simp [step, hcolon, hkey]
  constructor
  · show (step .colon c).2 = settled (enter c).2
    rw [hstep, hsettled]
  · show (step .colon c).1 ++ [] = [.copied ':', .copied c]
    rw [hstep, henter]
    rfl

/-- **What one step of the first pass writes, the second pass copies.** -/
theorem copies_step (hf : ∀ name, Copies .code (f name) .code) (m : Mode) (c : Char) :
    Copies (settled m) (written f (step m c).1) (settled (step m c).2) := by
  cases m with
  | code => exact copies_enter c
  | quoted q =>
      -- inside quotes both passes look for the same quote
      have hmode : settled (step (.quoted q) c).2 = (step (.quoted q) c).2 := by
        simp only [step]
        split <;> rfl
      rw [hmode]
      exact copies_of_step rfl
  | colon =>
      show Copies .code (written f (step .colon c).1) (settled (step .colon c).2)
      by_cases hcolon : c = ':'
      · subst c
        exact ⟨rfl, rfl⟩
      · by_cases hkey : isKeyChar c = true
        · have hstep : step .colon c = ([], .name [c]) := by simp [step, hcolon, hkey]
          rw [hstep]
          exact .nil .code
        · have hstep : step .colon c = (.copied ':' :: (enter c).1, (enter c).2) := by
            simp [step, hcolon, hkey]
          rw [hstep, written_copied, (enter_of_ne_colon hcolon).1]
          exact copies_colon hcolon (Bool.eq_false_iff.mpr hkey)
  | name letters =>
      show Copies .code (written f (step (.name letters) c).1)
        (settled (step (.name letters) c).2)
      by_cases hkey : isKeyChar c = true
      · have hstep : step (.name letters) c = ([], .name (letters ++ [c])) := by
          simp [step, hkey]
        rw [hstep]
        exact .nil .code
      · have hstep : step (.name letters) c
            = (.slot (.ofList letters) :: (enter c).1, (enter c).2) := by
          simp [step, hkey]
        rw [hstep, written_slot]
        exact (hf (.ofList letters)).append (copies_enter c)

theorem copies_run (hf : ∀ name, Copies .code (f name) .code) (m : Mode) (cs : List Char) :
    Copies (settled m) (written f (run m cs)) (settled (after m cs)) := by
  induction cs generalizing m with
  | nil => exact .nil (settled m)
  | cons c cs ih =>
      rw [run, written_append]
      exact (copies_step hf m c).append (ih (step m c).2)

/-- At the end a colon is all that either pass may still hold back. -/
theorem scan_finish (hf : ∀ name, Copies .code (f name) .code) (m : Mode) :
    scan (settled m) (written f (finish m)) = copy (written f (finish m)) := by
  cases m with
  | code => rfl
  | quoted q => rfl
  | colon => rfl
  | name letters =>
      have hname := (hf (.ofList letters)).scan_append []
      show scan .code (f (.ofList letters) ++ []) = copy (f (.ofList letters) ++ [])
      rw [hname, copy_append]
      rfl

theorem scan_written (hf : ∀ name, Copies .code (f name) .code) (m : Mode) (cs : List Char) :
    scan (settled m) (written f (scan m cs)) = copy (written f (scan m cs)) := by
  have hwritten : written f (scan m cs)
      = written f (run m cs) ++ written f (finish (after m cs)) := written_append f _ _
  rw [hwritten, (copies_run hf m cs).scan_append, scan_finish hf (after m cs), copy_append]

/-- A template with texts put in that the scanner copies is nothing but text. -/
theorem pieces_of_written (hf : ∀ name, Copies .code (f name) .code) {template s : String}
    (h : s.toList = written f (pieces template)) : pieces s = copy s.toList := by
  rw [pieces, h]
  exact scan_written hf .code template.toList

/-! ## The texts put in -/

theorem copies_parameter (k : Nat) : Copies .code (parameter k) .code := by
  refine copies_plain fun c hc => ?_
  rcases List.mem_cons.mp hc with rfl | hdigit
  · decide
  · exact plain_toString k c hdigit

theorem copies_literalOrNull (params : Bindings) (name : String) :
    Copies .code (literalOrNull params name) .code := by
  unfold literalOrNull
  cases params.get? name with
  | none => exact ⟨rfl, rfl⟩
  | some v => exact v.scan_literal

/-! ## The theorem -/

/-- The text holds no placeholder, and either translation returns it as it is, whatever is bound. -/
structure Final (s : String) : Prop where
  noNames : names (pieces s) = []
  filled : ∀ params, fillLiterals s params = s
  numbered : ∀ params, numberParameters s params = .ok ⟨s, []⟩

theorem final_of_pieces {s : String} (h : pieces s = copy s.toList) : Final s where
  noNames := by rw [h, names_copy]
  filled := by
    intro params
    rw [← String.toList_inj, toList_fillLiterals, h, written_copy]
  numbered := by
    intro params
    rw [numberParameters_eq_ok_iff, h]
    constructor
    · rw [written_copy]
    · rw [distinctNames, names_copy]
      rfl

/-- **Translated text is final.**  Neither the text that a log shows for a template nor the text of
its numbered statement is changed by a second translation with any values. -/
theorem translated_text_is_final (template : String) (params : Bindings) :
    Final (fillLiterals template params) ∧
      ∀ s, numberParameters template params = .ok s → Final s.sql := by
  constructor
  · have hcopied := pieces_of_written (copies_literalOrNull params)
      (toList_fillLiterals template params)
    exact final_of_pieces hcopied
  · intro s hs
    have hnumbers := numberParameters_eq_ok_iff.mp hs
    have hcopied := pieces_of_written (fun _ => copies_parameter _) hnumbers.text
    exact final_of_pieces hcopied

example : fillLiterals ":::a:b" (SortedMap.ofList [("a", .text ":b'"), ("b", .bool true)])
    = "::':b'''TRUE" := by decide +kernel

end SqlBuilder.Placeholder
