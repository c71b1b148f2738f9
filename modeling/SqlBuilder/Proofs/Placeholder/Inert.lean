import SqlBuilder.Proofs.Placeholder.Numbering

/-!
# Texts that may stand side by side

A statement is put together from texts that are scanned as one.  Where a text closes its quotes and
the next one begins with a separator, such as a blank, the scanner may be cut
(`pieces_append`): whatever the first text ends with, a colon or a name, is completed
there.  A text that is also free of placeholders is `Inert`, and is copied wherever it stands
between separators.
-/

namespace SqlBuilder.Placeholder

/-! ## Cutting the scanner -/

/-- The quote that the scanner waits for. -/
def quoteOf : Mode → Option Char
  | .quoted q => some q
  | _ => none

/-- The scanner does not stand inside quotes. -/
def Outside (m : Mode) : Prop := ∀ q, m ≠ .quoted q

theorem outside_iff {m : Mode} : Outside m ↔ quoteOf m = none := by
  cases m with
  | quoted q => exact ⟨fun h => absurd rfl (h q), fun h => nomatch h⟩
  | code => exact ⟨fun _ => rfl, fun _ _ h => nomatch h⟩
  | colon => exact ⟨fun _ => rfl, fun _ _ h => nomatch h⟩
  | name letters => exact ⟨fun _ => rfl, fun _ _ h => nomatch h⟩

instance (m : Mode) : Decidable (Outside m) := decidable_of_iff _ outside_iff.symm

/-- The text closes the quotes that it opens. -/
def Closes (s : String) : Prop := Outside (after .code s.toList)

instance (s : String) : Decidable (Closes s) := inferInstanceAs (Decidable (Outside _))

/-- A character that ends a name or a colon and begins nothing. -/
def IsSeparator (c : Char) : Prop := ¬ IsQuote c ∧ c ≠ ':' ∧ isKeyChar c = false

instance (c : Char) : Decidable (IsSeparator c) := inferInstanceAs (Decidable (_ ∧ _ ∧ _))

/-- The text is empty or begins with a separator. -/
def Continues (s : String) : Prop := ∀ c ∈ s.toList.head?, IsSeparator c

instance (s : String) : Decidable (Continues s) := Option.decidableForallMem s.toList.head?

theorem step_separator {m : Mode} {c : Char} (hm : Outside m) (hc : IsSeparator c) :
    step m c = (finish m ++ [.copied c], .code) := by
  obtain ⟨hquote, hcolon, hkey⟩ := hc
  have hq : ¬ (c = '\'' ∨ c = '"') := hquote
  have henter : enter c = ([.copied c], .code) := by simp [enter, hq, hcolon]
  cases m with
  | code => simp [step, henter, finish]
  | quoted q => exact absurd rfl (hm q)
  | colon => simp [step, henter, finish, hcolon, hkey]
  | name letters => simp [step, henter, finish, hkey]

theorem outside_code : Outside .code := fun _ h => nomatch h

/-- What the scanner has open in a mode does not go on in the text: no quote is open, a colon
becomes neither a cast nor a placeholder, and a name is at its end. -/
def BeginsAnew : Mode → List Char → Prop
  | .code, _ => True
  | .quoted _, _ => False
  | .colon, cs => EndsColons cs ∧ EndsName cs
  | .name _, cs => EndsName cs

/-- There the scanner completes what it has met, and may as well begin. -/
theorem scan_beginsAnew {m : Mode} {cs : List Char} (h : BeginsAnew m cs) :
    scan m cs = finish m ++ scan .code cs := by
  cases m with
  | code => rfl
  | quoted q => exact nomatch h
  | colon => exact scan_colon_alone h.1 h.2
  | name letters => exact scan_name_end letters h

/-- A separator goes on with nothing but quoted text. -/
theorem beginsAnew_of_continues {m : Mode} {s : String} (hm : Outside m) (hs : Continues s) :
    BeginsAnew m s.toList := by
  have hname : EndsName s.toList := fun c hc => (hs c hc).2.2
  cases m with
  | code => exact trivial
  | quoted q => exact absurd rfl (hm q)
  | colon => exact ⟨fun hcolon => (hs ':' hcolon).2.1 rfl, hname⟩
  | name letters => exact hname

/-- Before a separator nothing is left open, so the scanner may as well begin there. -/
theorem scan_continues {m : Mode} {s : String} (hm : Outside m) (hs : Continues s) :
    scan m s.toList = finish m ++ pieces s :=
  scan_beginsAnew (beginsAnew_of_continues hm hs)

/-- The pieces of two texts are those of the one and those of the other. -/
theorem pieces_append {a b : String} (ha : Closes a) (hb : Continues b) :
    pieces (a ++ b) = pieces a ++ pieces b := by
  rw [pieces, String.toList_append, scan_append, scan_continues ha hb, ← List.append_assoc]
  rfl

theorem Closes.append {a b : String} (ha : Closes a) (hb : Closes b) (hcont : Continues b) :
    Closes (a ++ b) := by
  unfold Closes at hb ⊢
  rw [String.toList_append, after_append]
  -- the first character of `b` ends the name or the colon that `a` may end with
  cases h : b.toList with
  | nil => exact ha
  | cons c cs =>
      have hc : IsSeparator c := hcont c (by rw [h]; rfl)
      rw [h, after, step_separator outside_code hc] at hb
      rwa [after, step_separator ha hc]

theorem Continues.append {a b : String} (ha : Continues a) (hb : Continues b) :
    Continues (a ++ b) := by
  intro c hc
  rw [String.toList_append] at hc
  cases h : a.toList with
  | nil => exact hb c (by simpa [h] using hc)
  | cons d ds => exact ha c (by simpa [h] using hc)

/-! ## Plain texts -/

/-- The text holds neither quotes nor colons. -/
def Plain (s : String) : Prop := ∀ c ∈ s.toList, ¬ IsQuote c ∧ c ≠ ':'

instance (s : String) : Decidable (Plain s) := List.decidableBAll _ s.toList

theorem Plain.append {a b : String} (ha : Plain a) (hb : Plain b) : Plain (a ++ b) := by
  intro c hc
  rw [String.toList_append, List.mem_append] at hc
  exact hc.elim (ha c) (hb c)

theorem step_plain {c : Char} (h : ¬ IsQuote c ∧ c ≠ ':') :
    step .code c = ([.copied c], .code) := by
  have hq : ¬ (c = '\'' ∨ c = '"') := h.1
  simp [step, enter, hq, h.2]

theorem after_plain {cs : List Char} (h : ∀ c ∈ cs, ¬ IsQuote c ∧ c ≠ ':') :
    after .code cs = .code := by
  induction cs with
  | nil => rfl
  | cons c cs ih =>
      rw [after, step_plain (h c List.mem_cons_self)]
      exact ih fun d hd => h d (List.mem_cons_of_mem c hd)

theorem run_plain {cs : List Char} (h : ∀ c ∈ cs, ¬ IsQuote c ∧ c ≠ ':') :
    run .code cs = copy cs := by
  induction cs with
  | nil => rfl
  | cons c cs ih =>
      rw [run, step_plain (h c List.mem_cons_self), ih fun d hd => h d (List.mem_cons_of_mem c hd)]
      rfl

/-- A plain text before another one is copied. -/
theorem pieces_plain_append {a : String} (ha : Plain a) (b : String) :
    pieces (a ++ b) = copy a.toList ++ pieces b := by
  rw [pieces, String.toList_append, scan_append, run_plain ha, after_plain ha, pieces]

theorem closes_plain_append {a : String} (ha : Plain a) {b : String} (hb : Closes b) :
    Closes (a ++ b) := by
  unfold Closes
  rw [String.toList_append, after_append, after_plain ha]
  exact hb

/-! ## Inert texts -/

/-- The text closes its quotes and holds no placeholder. -/
structure Inert (s : String) : Prop where
  closes : Closes s
  noNames : names (pieces s) = []

instance (s : String) : Decidable (Inert s) :=
  decidable_of_iff (Closes s ∧ names (pieces s) = [])
    ⟨fun h => ⟨h.1, h.2⟩, fun h => ⟨h.closes, h.noNames⟩⟩

theorem eq_copy_of_names_eq_nil {ps : List Piece} (h : names ps = []) (f : String → List Char) :
    ps = copy (written f ps) := by
  induction ps with
  | nil => rfl
  | cons p ps ih =>
      cases p with
      | copied c => exact congrArg (.copied c :: ·) (ih h)
      | slot name => exact nomatch h

theorem Inert.pieces {s : String} (h : Inert s) : pieces s = copy s.toList := by
  rw [← written_source (segmented_iff.mpr rfl)]
  exact eq_copy_of_names_eq_nil h.noNames _

theorem Plain.inert {s : String} (h : Plain s) : Inert s := by
  constructor
  · unfold Closes
    rw [after_plain h]
    exact outside_code
  · have := pieces_plain_append h ""
    rw [String.append_empty] at this
    rw [this, names_append, names_copy]
    rfl

theorem inert_empty : Inert "" := by decide +kernel

theorem Inert.append {a b : String} (ha : Inert a) (hb : Inert b) (hcont : Continues b) :
    Inert (a ++ b) := by
  refine ⟨ha.closes.append hb.closes hcont, ?_⟩
  rw [pieces_append ha.closes hcont, names_append, ha.noNames, hb.noNames]
  rfl

theorem inert_plain_append {a b : String} (ha : Plain a) (hb : Inert b) : Inert (a ++ b) := by
  refine ⟨closes_plain_append ha hb.closes, ?_⟩
  rw [pieces_plain_append ha, names_append, names_copy, hb.noNames]
  rfl

/-! ## Dividers -/

/-- A plain text that begins with a separator, such as a comma or a keyword behind a blank: whatever
stands before it ends there. -/
structure IsDivider (s : String) : Prop where
  plain : Plain s
  continues : Continues s
  ne_empty : s ≠ ""

instance (s : String) : Decidable (IsDivider s) :=
  decidable_of_iff (Plain s ∧ Continues s ∧ s ≠ "")
    ⟨fun h => ⟨h.1, h.2.1, h.2.2⟩, fun h => ⟨h.plain, h.continues, h.ne_empty⟩⟩

theorem isDivider_blank : IsDivider " " := by decide +kernel

theorem isDivider_comma : IsDivider ", " := by decide +kernel

theorem isDivider_open : IsDivider " (" := by decide +kernel

theorem isDivider_close : IsDivider ")" := by decide +kernel

/-- Whatever stands behind a divider, it begins with the divider's separator. -/
theorem IsDivider.continues_append {a : String} (h : IsDivider a) (b : String) :
    Continues (a ++ b) := by
  intro c hc
  rw [String.toList_append] at hc
  cases ha : a.toList with
  | nil => exact absurd (String.toList_eq_nil_iff.mp ha) h.ne_empty
  | cons d ds => exact h.continues c (by simpa [ha] using hc)

/-- Texts that close their quotes, with dividers between them. -/
theorem closes_intercalate {sep : String} (hsep : IsDivider sep) {l : List String}
    (h : ∀ s ∈ l, Closes s) : Closes (sep.intercalate l) := by
  induction l with
  | nil => exact inert_empty.closes
  | cons s l ih =>
      have hs : Closes s := h s List.mem_cons_self
      have hl : Closes (sep.intercalate l) := ih fun t ht => h t (List.mem_cons_of_mem s ht)
      cases l with
      | nil => rwa [String.intercalate_singleton]
      | cons t l =>
          rw [String.intercalate_cons_cons, String.append_assoc]
          exact hs.append (closes_plain_append hsep.plain hl) (hsep.continues_append _)

/-- Inert texts with dividers between them. -/
theorem inert_intercalate {sep : String} (hsep : IsDivider sep) {l : List String}
    (h : ∀ s ∈ l, Inert s) : Inert (sep.intercalate l) := by
  induction l with
  | nil => exact inert_empty
  | cons s l ih =>
      have hs : Inert s := h s List.mem_cons_self
      have hl : Inert (sep.intercalate l) := ih fun t ht => h t (List.mem_cons_of_mem s ht)
      cases l with
      | nil => rwa [String.intercalate_singleton]
      | cons t l =>
          rw [String.intercalate_cons_cons, String.append_assoc]
          exact hs.append (inert_plain_append hsep.plain hl) (hsep.continues_append _)

theorem inert_join {l : List String} (h : ∀ s ∈ l, Inert s ∧ Continues s) :
    Inert (String.join l) ∧ Continues (String.join l) := by
  induction l with
  | nil => exact ⟨inert_empty, fun c hc => by simp at hc⟩
  | cons s l ih =>
      have hs := h s List.mem_cons_self
      have hl := ih fun t ht => h t (List.mem_cons_of_mem s ht)
      rw [String.join_cons]
      exact ⟨hs.1.append hl.1 hl.2, hs.2.append hl.2⟩

/-! ## Placeholders -/

theorem after_name (letters : List Char) {name : List Char}
    (h : ∀ c ∈ name, isKeyChar c = true) :
    after (.name letters) name = .name (letters ++ name) := by
  induction name generalizing letters with
  | nil => simp [after]
  | cons c name ih =>
      have hc : isKeyChar c = true := h c List.mem_cons_self
      have htail := ih (letters ++ [c]) fun d hd => h d (List.mem_cons_of_mem c hd)
      simpa [after, step, hc] using htail

/-- What a placeholder's name has to be. -/
structure IsKey (key : String) : Prop where
  ne_empty : key ≠ ""
  isKeyChar : ∀ c ∈ key.toList, isKeyChar c = true

theorem pieces_slot {key : String} (h : IsKey key) : pieces (":" ++ key) = [.slot key] := by
  have hne : key.toList ≠ [] := fun e => h.ne_empty (String.toList_eq_nil_iff.mp e)
  have hend : EndsName [] := fun c hc => nomatch hc
  have hscan := scan_colon_name hne h.isKeyChar hend
  rw [List.append_nil, String.ofList_toList] at hscan
  rw [pieces, String.toList_append]
  exact hscan

theorem closes_slot {key : String} (h : IsKey key) : Closes (":" ++ key) := by
  unfold Closes
  rw [String.toList_append]
  -- the scanner ends in the middle of the name, which is outside quotes
  cases hkey : key.toList with
  | nil => exact absurd (String.toList_eq_nil_iff.mp hkey) h.ne_empty
  | cons c cs =>
      have hc : isKeyChar c = true := h.isKeyChar c (by rw [hkey]; exact List.mem_cons_self)
      have hcs : ∀ d ∈ cs, isKeyChar d = true := fun d hd =>
        h.isKeyChar d (by rw [hkey]; exact List.mem_cons_of_mem c hd)
      have hafter : after .code (':' :: c :: cs) = .name ([c] ++ cs) := by
        rw [← after_name [c] hcs]
        simp [after, step, enter, hc, ne_colon_of_isKeyChar hc]
      show Outside (after .code (':' :: c :: cs))
      rw [hafter]
      exact outside_iff.mpr rfl

/-- The placeholder of a column has a name unless the column has none. -/
theorem isKey_keyOf {column : String} (h : column ≠ "") : IsKey (keyOf column) := by
  constructor
  · intro e
    have := congrArg String.toList e
    simp [keyOf] at this
    exact h this
  · intro c hc
    simp only [keyOf, String.toList_ofList, List.mem_map] at hc
    obtain ⟨d, -, rfl⟩ := hc
    split
    · assumption
    · decide

end SqlBuilder.Placeholder
