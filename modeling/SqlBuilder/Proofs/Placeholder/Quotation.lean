import SqlBuilder.Proofs.Placeholder.Inert

/-!
# Quoted text

A text between quotes with the quotes inside doubled is inert, whatever it holds: a quote inside
closes the text only to open it again, and everything else that could mean something to the scanner
stands between quotes.  String literals and quoted names are of this form.

Where a quote was left open before, nothing of this holds.  Names then open and close quotes the
other way round, and behind any number of them the scanner still stands inside quotes, so a colon
there begins no placeholder (`written_scan_unclosed`).
-/

namespace SqlBuilder.Placeholder

/-! ## Quotations -/

/-- Writes every quote twice. -/
def doubled (q : Char) (body : List Char) : List Char :=
  body.flatMap fun c => if c = q then [q, q] else [c]

/-- The text between quotes. -/
def quotation (q : Char) (body : List Char) : String :=
  .ofList (q :: (doubled q body ++ [q]))

theorem doubled_cons (q c : Char) (body : List Char) :
    doubled q (c :: body) = (if c = q then [q, q] else [c]) ++ doubled q body := rfl

theorem step_code_quote {q : Char} (hq : IsQuote q) :
    step .code q = ([.copied q], .quoted q) := by
  have hquote : q = '\'' ∨ q = '"' := hq
  simp [step, enter, hquote]

/-- The quotes inside come in pairs, of which the second opens again what the first closes. -/
theorem scan_doubled {q : Char} (hq : IsQuote q) (body : List Char) :
    after (.quoted q) (doubled q body) = .quoted q ∧
      run (.quoted q) (doubled q body) = copy (doubled q body) := by
  induction body with
  | nil => exact ⟨rfl, rfl⟩
  | cons c body ih =>
      obtain ⟨hafter, hrun⟩ := ih
      by_cases hc : c = q
      · subst c
        -- a doubled quote leaves the quotes and enters them again
        have hclose : step (.quoted q) q = ([.copied q], .code) := by simp [step]
        have hopen : step .code q = ([.copied q], .quoted q) := step_code_quote hq
        have hpair : after (.quoted q) [q, q] = .quoted q := by
          rw [after, hclose, after, hopen, after]
        have hcopy : run (.quoted q) [q, q] = copy [q, q] := by
          rw [run, hclose, run, hopen]
          rfl
        rw [doubled_cons, if_pos rfl, after_append, run_append, hpair, hcopy, hafter, hrun,
          copy_append]
        exact ⟨rfl, rfl⟩
      · have hstay : step (.quoted q) c = ([.copied c], .quoted q) := by simp [step, hc]
        rw [doubled_cons, if_neg hc, List.singleton_append, after, run, hstay, hafter, hrun]
        exact ⟨rfl, rfl⟩

/-- A quotation is copied, and behind it the scanner stands where it stood before. -/
theorem scan_quotation {q : Char} (hq : IsQuote q) (body : List Char) :
    after .code (quotation q body).toList = .code ∧
      run .code (quotation q body).toList = copy (quotation q body).toList := by
  obtain ⟨hafter, hrun⟩ := scan_doubled hq body
  have htext : (quotation q body).toList = q :: (doubled q body ++ [q]) := String.toList_ofList
  constructor
  · rw [htext, after, step_code_quote hq, after_append, hafter]
    simp [after, step]
  · rw [htext, run, step_code_quote hq, run_append, hafter, hrun]
    simp [run, step, copy]

/-- A quotation ends outside quotes and is copied. -/
theorem inert_quotation {q : Char} (hq : IsQuote q) (body : List Char) :
    Inert (quotation q body) := by
  obtain ⟨hend, hcopy⟩ := scan_quotation hq body
  constructor
  · unfold Closes
    rw [hend]
    exact outside_code
  · rw [pieces, scan, hend, hcopy, names_append, names_copy]
    rfl

/-! ## Names of columns -/

/-- The name of a column as SQL writes it: plain, or in double quotes. -/
inductive IsIdentifier : String → Prop
  | plain {s : String} : s ≠ "" → Plain s → IsIdentifier s
  | quoted (body : List Char) : IsIdentifier (quotation '"' body)

theorem IsIdentifier.inert {s : String} (h : IsIdentifier s) : Inert s := by
  cases h with
  | plain _ hs => exact hs.inert
  | quoted body => exact inert_quotation (.inr rfl) body

theorem IsIdentifier.ne_empty {s : String} (h : IsIdentifier s) : s ≠ "" := by
  cases h with
  | plain hs _ => exact hs
  | quoted body =>
      intro he
      have hlist : (quotation '"' body).toList = [] := by rw [he]; rfl
      rw [quotation, String.toList_ofList] at hlist
      exact nomatch hlist

/-! ## Behind an open quote -/

/-- The scanner stands inside quotes. -/
def InQuotes (m : Mode) : Prop := ∃ q, IsQuote q ∧ m = .quoted q

/-- Outside quotes, a quote opens them. -/
theorem step_isQuote {m : Mode} (hm : Outside m) {c : Char} (hc : IsQuote c) :
    (step m c).2 = .quoted c := by
  have hquote : c = '\'' ∨ c = '"' := hc
  have hcolon : c ≠ ':' := by rintro rfl; exact absurd hc (by decide)
  have hkey : isKeyChar c = false := by rcases hquote with rfl | rfl <;> decide
  cases m with
  | quoted q => exact absurd rfl (hm q)
  | _ => simp [step, enter, hquote, hcolon, hkey]

/-- Nothing else does. -/
theorem outside_step {m : Mode} (hm : Outside m) {c : Char} (hc : ¬ IsQuote c) :
    Outside (step m c).2 := by
  have hquote : ¬ (c = '\'' ∨ c = '"') := hc
  have henter : Outside (enter c).2 := by
    intro q
    simp only [enter, if_neg hquote]
    split <;> simp
  intro q
  cases m with
  | quoted q => exact absurd rfl (hm q)
  | code => exact henter q
  | colon =>
      simp only [step]
      split
      · simp
      · split
        · simp
        · exact henter q
  | name letters =>
      simp only [step]
      split
      · simp
      · exact henter q

/-- A mode is inside quotes or outside, if it is reached from outside. -/
theorem inQuotes_or_outside {m : Mode} (hm : InQuotes m ∨ Outside m) (cs : List Char) :
    InQuotes (after m cs) ∨ Outside (after m cs) := by
  induction cs generalizing m with
  | nil => exact hm
  | cons c cs ih =>
      refine ih ?_
      -- inside, only the quote that was opened leads out; outside, every quote leads in
      rcases hm with ⟨q, hq, rfl⟩ | hm
      · by_cases hc : c = q
        · exact .inr (by simpa [step, hc] using outside_code)
        · exact .inl ⟨q, hq, by simp [step, hc]⟩
      · by_cases hc : IsQuote c
        · exact .inl ⟨c, hc, step_isQuote hm hc⟩
        · exact .inr (outside_step hm hc)

theorem inQuotes_of_not_closes {s : String} (h : ¬ Closes s) : InQuotes (after .code s.toList) :=
  (inQuotes_or_outside (.inr outside_code) s.toList).resolve_right h

/-- A text without quotes stays inside them. -/
theorem inQuotes_after {m : Mode} (hm : InQuotes m) {cs : List Char}
    (h : ∀ c ∈ cs, ¬ IsQuote c) : InQuotes (after m cs) := by
  induction cs with
  | nil => exact hm
  | cons c cs ih =>
      obtain ⟨q, hq, rfl⟩ := hm
      have hc : c ≠ q := by
        rintro rfl
        exact h c List.mem_cons_self hq
      have hstep : (step (.quoted q) c).2 = .quoted q := by simp [step, hc]
      rw [after, hstep]
      exact ih fun d hd => h d (List.mem_cons_of_mem c hd)

theorem run_inQuotes {m : Mode} (hm : InQuotes m) {cs : List Char} (h : ∀ c ∈ cs, ¬ IsQuote c) :
    run m cs = copy cs := by
  induction cs with
  | nil => rfl
  | cons c cs ih =>
      obtain ⟨q, hq, rfl⟩ := hm
      have hc : c ≠ q := by
        rintro rfl
        exact h c List.mem_cons_self hq
      have hstep : step (.quoted q) c = ([.copied c], .quoted q) := by simp [step, hc]
      rw [run, hstep, ih fun d hd => h d (List.mem_cons_of_mem c hd)]
      rfl

/-- Outside double quotes: where the scanner stands in a quoted name that it took up wrongly. -/
def NotDouble (m : Mode) : Prop := Outside m ∨ m = .quoted '\''

theorem step_notDouble {m : Mode} (hm : NotDouble m) {c : Char} (hc : c ≠ '"') :
    NotDouble (step m c).2 := by
  rcases hm with hm | rfl
  · by_cases hquote : IsQuote c
    · exact .inr (by rw [step_isQuote hm hquote, hquote.resolve_right hc])
    · exact .inl (outside_step hm hquote)
  · by_cases hq : c = '\''
    · exact .inl (by simpa [step, hq] using outside_code)
    · exact .inr (by simp [step, hq])

theorem after_doubled_notDouble {m : Mode} (hm : NotDouble m) (body : List Char) :
    NotDouble (after m (doubled '"' body)) := by
  induction body generalizing m with
  | nil => exact hm
  | cons c body ih =>
      rw [doubled_cons, after_append]
      refine ih ?_
      by_cases hc : c = '"'
      · rw [if_pos hc]
        rcases hm with hm | rfl
        · refine .inl ?_
          rw [after, step_isQuote hm (.inr rfl)]
          exact outside_code
        · exact .inr (by decide)
      · rw [if_neg hc]
        exact step_notDouble hm hc

/-- Behind an open quote a name leaves a quote open as well, though not always the same. -/
theorem IsIdentifier.inQuotes {s : String} (h : IsIdentifier s) {m : Mode} (hm : InQuotes m) :
    InQuotes (after m s.toList) := by
  cases h with
  | plain _ hs => exact inQuotes_after hm fun c hc => (hs c hc).1
  | quoted body =>
      -- the name's first quote closes a double quote, or is text between single ones
      have hfirst : NotDouble (step m '"').2 := by
        obtain ⟨q, hq | hq, rfl⟩ := hm
        · subst q
          exact .inr (by decide)
        · subst q
          exact .inl outside_code
      have hbody := after_doubled_notDouble hfirst body
      -- so its last quote opens one, or is text again
      rw [quotation, String.toList_ofList, after, after_append]
      rcases hbody with hbody | hbody
      · exact ⟨'"', .inr rfl, step_isQuote hbody (.inr rfl)⟩
      · rw [hbody]
        exact ⟨'\'', .inl rfl, by decide⟩

/-! ## Placeholders inside quotes -/

/-- The text met since the last complete piece. -/
def pending : Mode → List Char
  | .code => []
  | .quoted _ => []
  | .colon => [':']
  | .name letters => ':' :: letters

theorem pending_enter (c : Char) :
    written (fun name => ':' :: name.toList) (enter c).1 ++ pending (enter c).2 = [c] := by
  unfold enter
  split
  · simp [pending]
  · split
    · next hc => simp [pending, hc]
    · simp [pending]

theorem pending_step (m : Mode) (c : Char) :
    written (fun name => ':' :: name.toList) (step m c).1 ++ pending (step m c).2
      = pending m ++ [c] := by
  cases m with
  | code => exact pending_enter c
  | quoted q =>
      simp only [step, written_copied, written_nil]
      split <;> simp [pending]
  | colon =>
      simp only [step]
      split
      · next hc => simp [pending, hc]
      · split
        · simp [pending]
        · simp only [written_copied, List.cons_append, pending_enter]
          simp [pending]
  | name letters =>
      simp only [step]
      split
      · simp [pending]
      · simp only [written_slot, List.append_assoc, pending_enter]
        simp [pending]

/-- Up to what is pending, the completed pieces are the text itself. -/
theorem written_run (m : Mode) (cs : List Char) :
    written (fun name => ':' :: name.toList) (run m cs) ++ pending (after m cs)
      = pending m ++ cs := by
  induction cs generalizing m with
  | nil => simp [run, after]
  | cons c cs ih =>
      rw [run, after, written_append, List.append_assoc, ih, ← List.append_assoc, pending_step,
        List.append_assoc]
      rfl

/-- The first placeholder, if there is any, is already different from what stands there. -/
theorem written_ne {f g : String → List Char} (hf : ∀ name, ∃ cs, f name = '$' :: cs)
    (hg : ∀ name, ∃ cs, g name = ':' :: cs) (ps : List Piece) (u v : List Char) :
    written f ps ++ ':' :: u ≠ written g ps ++ '$' :: v := by
  induction ps with
  | nil => simp [written]
  | cons p ps ih =>
      cases p with
      | copied c => simpa using ih
      | slot name =>
          obtain ⟨cs, hcs⟩ := hf name
          obtain ⟨ds, hds⟩ := hg name
          simp [hcs, hds]

/-- From one place inside quotes to another one, no colon that follows can become a parameter. -/
theorem written_scan_unclosed {f : String → List Char} (hf : ∀ name, ∃ cs, f name = '$' :: cs)
    {m : Mode} {cs : List Char} (hm : InQuotes m) (hcs : InQuotes (after m cs))
    (u v : List Char) : written f (scan m (cs ++ ':' :: u)) ≠ cs ++ '$' :: v := by
  obtain ⟨q, hq, hafter⟩ := hcs
  have hcolon : (':' : Char) ≠ q := by
    rintro rfl
    exact absurd hq (by decide)
  -- inside quotes nothing is pending, neither where `cs` begins nor where it ends
  have hsource := written_run m cs
  obtain ⟨q₀, -, rfl⟩ := hm
  rw [hafter, pending, pending, List.append_nil, List.nil_append] at hsource
  have hscan : scan (.quoted q₀) (cs ++ ':' :: u)
      = run (.quoted q₀) cs ++ .copied ':' :: scan (.quoted q) u := by
    rw [scan_append, hafter, scan_cons]
    simp [step, hcolon]
  rw [hscan, written_append, written_copied]
  intro h
  refine written_ne hf (fun name => ⟨name.toList, rfl⟩) (run (.quoted q₀) cs)
    (written f (scan (.quoted q) u)) v ?_
  rw [h, hsource]

end SqlBuilder.Placeholder
