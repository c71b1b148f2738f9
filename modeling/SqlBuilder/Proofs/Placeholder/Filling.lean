import SqlBuilder.Proofs.Placeholder.Quotation

/-!
# Filling in a template

A numbered statement is its template with the index of every placeholder in the placeholder's place
(`Numbers.sql_eq`).  The filled-in text of a concatenation is that of its parts where the scanner
may be cut, and an inert part stays as it is, so what is sent can be read off the parts of a template.

Indices in a list of parameters can be read back, since what follows a number is never a digit
(`parameterList_inj`).
-/

namespace SqlBuilder.Placeholder

variable {f : String → String}

/-! ## Filling in -/

/-- The text with `f` of its name in the place of every placeholder. -/
def fill (f : String → String) (s : String) : String :=
  .ofList (written (fun name => (f name).toList) (pieces s))

theorem toList_fill (s : String) :
    (fill f s).toList = written (fun name => (f name).toList) (pieces s) :=
  String.toList_ofList

theorem fill_append {a b : String} (ha : Closes a) (hb : Continues b) :
    fill f (a ++ b) = fill f a ++ fill f b := by
  rw [fill, pieces_append ha hb, written_append, String.ofList_append]
  rfl

theorem fill_plain_append {a : String} (ha : Plain a) (b : String) :
    fill f (a ++ b) = a ++ fill f b := by
  rw [fill, pieces_plain_append ha, written_append, written_copy, String.ofList_append,
    String.ofList_toList]
  rfl

theorem Inert.fill {s : String} (h : Inert s) : fill f s = s := by
  rw [Placeholder.fill, h.pieces, written_copy, String.ofList_toList]

theorem fill_slot {key : String} (h : IsKey key) : fill f (":" ++ key) = f key := by
  rw [fill, pieces_slot h, written_slot, written_nil, List.append_nil, String.ofList_toList]

theorem fill_intercalate {sep : String} (hsep : IsDivider sep) {l : List String}
    (h : ∀ s ∈ l, Closes s) :
    fill f (sep.intercalate l) = sep.intercalate (l.map (fill f)) := by
  induction l with
  | nil => exact inert_empty.fill
  | cons s l ih =>
      have hs : Closes s := h s List.mem_cons_self
      have hl := ih fun t ht => h t (List.mem_cons_of_mem s ht)
      cases l with
      | nil =>
          rw [List.map_singleton, String.intercalate_singleton, String.intercalate_singleton]
      | cons t l =>
          rw [List.map_cons, List.map_cons, String.intercalate_cons_cons,
            String.intercalate_cons_cons, String.append_assoc,
            fill_append hs (hsep.continues_append _), fill_plain_append hsep.plain, hl,
            List.map_cons, String.append_assoc]

/-- Behind an open quote the scanner goes on inside quotes. -/
theorem toList_fill_append_unclosed {a : String} (ha : InQuotes (after .code a.toList))
    (b : String) :
    (fill f (a ++ b)).toList = (fill f a).toList
      ++ written (fun name => (f name).toList) (scan (after .code a.toList) b.toList) := by
  obtain ⟨q, -, hafter⟩ := ha
  have hpieces : pieces a = run .code a.toList := by
    rw [pieces, scan, hafter, finish, List.append_nil]
  rw [toList_fill, toList_fill, hpieces, pieces, String.toList_append, scan_append,
    written_append]

/-! ## Names -/

theorem names_pieces_append {a b : String} (ha : Closes a) (hb : Continues b) :
    names (pieces (a ++ b)) = names (pieces a) ++ names (pieces b) := by
  rw [pieces_append ha hb, names_append]

theorem names_pieces_plain_append {a : String} (ha : Plain a) (b : String) :
    names (pieces (a ++ b)) = names (pieces b) := by
  rw [pieces_plain_append ha, names_append, names_copy, List.nil_append]

theorem names_pieces_intercalate {sep : String} (hsep : IsDivider sep) {l : List String}
    (h : ∀ s ∈ l, Closes s) :
    names (pieces (sep.intercalate l)) = l.flatMap fun s => names (pieces s) := by
  induction l with
  | nil => exact inert_empty.noNames
  | cons s l ih =>
      have hs : Closes s := h s List.mem_cons_self
      have hl := ih fun t ht => h t (List.mem_cons_of_mem s ht)
      cases l with
      | nil => rw [String.intercalate_singleton, List.flatMap_singleton]
      | cons t l =>
          rw [String.intercalate_cons_cons, String.append_assoc,
            names_pieces_append hs (hsep.continues_append _),
            names_pieces_plain_append hsep.plain, hl]
          rfl

/-! ## Numbered statements -/

/-- A parameter of a numbered statement. -/
def parameterText (k : Nat) : String := "$" ++ toString k

theorem toList_parameterText (k : Nat) : (parameterText k).toList = parameter k :=
  String.toList_append

/-- What stands for a name in the numbered form of a template. -/
def indexText (template name : String) : String :=
  parameterText (indexOf (pieces template) name)

theorem Numbers.sql_eq {params : Bindings} {template : String} {s : NumberedStatement}
    (h : Numbers params (pieces template) s) : s.sql = fill (indexText template) template := by
  rw [← String.toList_inj, h.text, toList_fill]
  congr 1
  funext name
  exact (toList_parameterText _).symm

/-! ## Reading indices back -/

/-- The text does not go on with a digit. -/
def EndsNumber (cs : List Char) : Prop := ∀ c ∈ cs.head?, c.isDigit = false

/-- A digit may stand in a name, so it separates nothing. -/
theorem isDigit_eq_false_of_isSeparator {c : Char} (h : IsSeparator c) : c.isDigit = false := by
  rw [Bool.eq_false_iff]
  intro hdigit
  have hrange : '0' ≤ c ∧ c ≤ '9' := by simpa [Char.isDigit, Char.le_def] using hdigit
  have hkey : isKeyChar c = true := by simp [isKeyChar, hrange]
  rw [h.2.2] at hkey
  exact absurd hkey (by decide)

theorem digits_append_inj {a b r s : List Char} (ha : ∀ c ∈ a, c.isDigit = true)
    (hb : ∀ c ∈ b, c.isDigit = true) (hr : EndsNumber r) (hs : EndsNumber s)
    (h : a ++ r = b ++ s) : a = b ∧ r = s := by
  -- if one number were shorter, a digit of the other would stand behind it
  induction a generalizing b with
  | nil =>
      cases b with
      | nil => exact ⟨rfl, h⟩
      | cons d b =>
          have hd : d.isDigit = true := hb d List.mem_cons_self
          rw [hr d (by rw [List.nil_append] at h; rw [h]; rfl)] at hd
          exact absurd hd (by decide)
  | cons c a ih =>
      have hc : c.isDigit = true := ha c List.mem_cons_self
      cases b with
      | nil =>
          rw [hs c (by rw [List.nil_append] at h; rw [← h]; rfl)] at hc
          exact absurd hc (by decide)
      | cons d b =>
          obtain ⟨rfl, htail⟩ := List.cons_eq_cons.mp h
          obtain ⟨rfl, hrest⟩ := ih (fun e he => ha e (List.mem_cons_of_mem c he))
            (fun e he => hb e (List.mem_cons_of_mem c he)) htail
          exact ⟨rfl, hrest⟩

theorem isDigit_of_mem_toString {n : Nat} {c : Char} (h : c ∈ (toString n).toList) :
    c.isDigit = true := by
  rw [Nat.toString_eq_repr, Nat.toList_repr] at h
  exact Nat.isDigit_of_mem_toDigits (by decide) (by decide) h

theorem toList_toString_inj {m n : Nat} (h : (toString m).toList = (toString n).toList) :
    m = n := by
  rw [Nat.toString_eq_repr, Nat.toString_eq_repr, Nat.toList_repr, Nat.toList_repr] at h
  rw [← Nat.ofDigitChars_ten_toDigits (n := m), h, Nat.ofDigitChars_ten_toDigits]

/-- A parameter ends where its digits end. -/
theorem parameter_append_inj {j k : Nat} {r s : List Char} (hr : EndsNumber r)
    (hs : EndsNumber s) (h : parameter j ++ r = parameter k ++ s) : j = k ∧ r = s := by
  obtain ⟨-, htail⟩ := List.cons_eq_cons.mp h
  obtain ⟨hdigits, hrest⟩ := digits_append_inj (fun _ => isDigit_of_mem_toString)
    (fun _ => isDigit_of_mem_toString) hr hs htail
  exact ⟨toList_toString_inj hdigits, hrest⟩

/-- The parameters of a list, separated by commas. -/
def parameterList (ks : List Nat) : String := ", ".intercalate (ks.map parameterText)

theorem parameterList_cons_cons (j k : Nat) (ks : List Nat) :
    (parameterList (j :: k :: ks)).toList
      = parameter j ++ ',' :: ' ' :: (parameterList (k :: ks)).toList := by
  rw [parameterList, List.map_cons, List.map_cons, String.intercalate_cons_cons,
    String.toList_append, String.toList_append, toList_parameterText, List.append_assoc]
  rfl

theorem parameterList_singleton (k : Nat) : (parameterList [k]).toList = parameter k := by
  rw [parameterList, List.map_singleton, String.intercalate_singleton, toList_parameterText]

/-- Lists of one length with one text in parentheses are the same list. -/
theorem parameterList_inj {js ks : List Nat} (hlength : js.length = ks.length) {r s : List Char}
    (h : (parameterList js).toList ++ ')' :: r = (parameterList ks).toList ++ ')' :: s) :
    js = ks := by
  have hparen : ∀ t, EndsNumber (')' :: t) := by
    rintro t c ⟨⟩
    decide
  have hcomma : ∀ t, EndsNumber (',' :: t) := by
    rintro t c ⟨⟩
    decide
  -- the lists are read side by side, and a comma or the parenthesis ends every number
  induction js generalizing ks with
  | nil => exact (List.length_eq_zero_iff.mp hlength.symm).symm
  | cons j js ih =>
      cases ks with
      | nil => exact nomatch hlength
      | cons k ks =>
          have hlength' : js.length = ks.length := Nat.succ.inj hlength
          cases js with
          | nil =>
              obtain rfl := List.length_eq_zero_iff.mp hlength'.symm
              rw [parameterList_singleton, parameterList_singleton] at h
              rw [(parameter_append_inj (hparen r) (hparen s) h).1]
          | cons j' js =>
              cases ks with
              | nil => exact nomatch hlength'
              | cons k' ks =>
                  rw [parameterList_cons_cons, parameterList_cons_cons, List.append_assoc,
                    List.append_assoc] at h
                  obtain ⟨rfl, hrest⟩ := parameter_append_inj (hcomma _) (hcomma _) h
                  have htail := (List.cons_eq_cons.mp (List.cons_eq_cons.mp hrest).2).2
                  rw [ih hlength' htail]

end SqlBuilder.Placeholder
