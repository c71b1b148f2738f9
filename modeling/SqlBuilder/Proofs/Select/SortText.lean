import Mathlib.Data.List.Forall2
import SqlBuilder.Proofs.Select.Ordering

/-!
# What is left of a sort's text

The text of a sort may hold more than a column and a direction: arguments with blanks between them,
a quoted name of two words, a place for the nulls.  A query keeps the first word as it is and the
second in capitals, and nothing else (`mem_ordering_of_sort`).  So the clause shows all words of the
text iff there are two at most and the second does not change by capitals, or is one of the two
words for a direction (`sort_text_shown_iff`).
-/

namespace SqlBuilder

open SortedMap (lastValue?)
open Text (IsWord words)

variable {σ : Type}

/-! ## Texts that show words -/

/-- The words for a direction. -/
def directionWords : List String := ["ASC", "DESC"]

/-- How a word of a sort may be shown: as it is, or in capitals if it is a direction. -/
def ShownAs (word shown : String) : Prop :=
  shown = word ∨ (shown = word.toUpper ∧ shown ∈ directionWords)

instance (word shown : String) : Decidable (ShownAs word shown) :=
  inferInstanceAs (Decidable (_ ∨ _))

theorem shownAs_toUpper_iff {word : String} :
    ShownAs word word.toUpper ↔ word.toUpper = word ∨ word.toUpper ∈ directionWords :=
  or_congr Iff.rfl (and_iff_right rfl)

/-- The text shows the words in order. -/
def Shows (text : String) (ws : List String) : Prop := List.SublistForall₂ ShownAs ws (words text)

/-- A word that no word of the text shows. -/
theorem not_shows_of_mem {text w : String} {ws : List String} (hw : w ∈ ws)
    (hnone : ∀ shown ∈ words text, ¬ ShownAs w shown) : ¬ Shows text ws := by
  intro h
  obtain ⟨vs, hvs, hsub⟩ := List.sublistForall₂_iff.mp h
  obtain ⟨i, hi, rfl⟩ := List.getElem_of_mem hw
  have hlength : i < vs.length := hvs.length_eq ▸ hi
  exact hnone vs[i] (hsub.subset (List.getElem_mem hlength)) (hvs.get hi hlength)

namespace Select

/-- An entry of the ordering as it is written. -/
def entryText (e : String × String) : String := e.1 ++ " " ++ e.2

/-- The clause shows the text of a sort: the entry of its column has all its words. -/
def ShowsSort (q : Select) (column : String) : Prop :=
  ∀ name, (words column).head? = some name →
    ∃ e ∈ q.ordering, e.1 = name ∧ Shows (entryText e) (words column)

/-- An entry made of the first word and of the second in capitals shows these two. -/
theorem shows_entryText_iff {name : String} {rest : List String} (hname : IsWord name)
    (hrest : ∀ w ∈ rest, IsWord w) (direction : String) :
    Shows (entryText (name, (rest[0]?.getD direction).toUpper)) (name :: rest) ↔
      rest.length ≤ 1 ∧ ∀ own, rest[0]? = some own →
        own.toUpper = own ∨ own.toUpper ∈ directionWords := by
  have hself : ShownAs name name := .inl rfl
  cases rest with
  | nil =>
      refine iff_of_true ?_ ⟨Nat.zero_le _, fun own hown => nomatch hown⟩
      rw [Shows, entryText, hname.words_append_blank]
      exact .cons hself .nil
  | cons own more =>
      have hown : IsWord own.toUpper := (hrest own List.mem_cons_self).toUpper
      have hwords : words (entryText (name, own.toUpper)) = [name, own.toUpper] := by
        rw [entryText, hname.words_append_blank, hown.words_eq]
      rw [Shows, List.getElem?_cons_zero, Option.getD_some, hwords]
      constructor
      · intro h
        obtain ⟨vs, hvs, hsub⟩ := List.sublistForall₂_iff.mp h
        -- what is shown is as long as the text, and no longer than the entry
        have hlength := hvs.length_eq
        have hle := hsub.length_le
        simp only [List.length_cons, List.length_nil] at hlength hle
        obtain rfl := hsub.eq_of_length (by simp only [List.length_cons, List.length_nil]; omega)
        obtain ⟨-, hshown, -⟩ : _ ∧ ShownAs own own.toUpper ∧ _ := by
          simpa only [List.forall₂_cons] using hvs
        refine ⟨by rw [List.length_cons]; omega, ?_⟩
        rintro _ ⟨⟩
        exact shownAs_toUpper_iff.mp hshown
      · rintro ⟨hlength, hshown⟩
        obtain rfl : more = [] :=
          List.length_eq_zero_iff.mp (by rw [List.length_cons] at hlength; omega)
        exact .cons hself (.cons (shownAs_toUpper_iff.mpr (hshown own rfl)) .nil)

/-! ## The entry of a sort -/

variable {column direction name : String} {before after : List SelectStep}

/-- Where its column is not sorted by again, a sort leaves its first word with its second in
capitals. -/
theorem mem_ordering_of_sort (db : Database σ) (table : String)
    (hname : (words column).head? = some name) (hafter : ∀ sort ∈ sortsOf after, sort.1 ≠ name) :
    (name, ((words column)[1]?.getD direction).toUpper)
      ∈ (db.build table (before ++ .orderBy column direction :: after)).ordering := by
  have horders := orders_build db table (before ++ .orderBy column direction :: after)
  have hsort : (SelectStep.orderBy column direction).sort?
      = some (name, ((words column)[1]?.getD direction).toUpper) := by
    rw [SelectStep.sort?, hname]
    rfl
  have hsorts : sortsOf (before ++ .orderBy column direction :: after) = sortsOf before
      ++ (name, ((words column)[1]?.getD direction).toUpper) :: sortsOf after := by
    rw [sortsOf, List.filterMap_append, List.filterMap_cons_some hsort]
    rfl
  have hmem : name ∈ (sortsOf (before ++ .orderBy column direction :: after)).map Prod.fst := by
    rw [hsorts]
    simp
  rw [← List.mem_eraseDups, ← horders.names] at hmem
  obtain ⟨e, he, rfl⟩ := List.mem_map.mp hmem
  have hlast := horders.directions e he
  rw [hsorts, SortedMap.lastValue?_append_cons hafter] at hlast
  rwa [Option.some.inj hlast]

theorem orderByClause_of_ordering {q : Select} {front behind : List (String × String)}
    (h : q.ordering = front ++ (name, direction) :: behind) :
    q.orderByClause = " ORDER BY " ++ ", ".intercalate
      (front.map entryText ++ (name ++ " " ++ direction) :: behind.map entryText) := by
  have hne : q.ordering.isEmpty = false := by
    rw [h]
    simp
  have hentries : q.ordering.map (fun e => e.1 ++ " " ++ e.2)
      = front.map entryText ++ (name ++ " " ++ direction) :: behind.map entryText := by
    rw [h, List.map_append, List.map_cons]
    rfl
  rw [orderByClause, hne, hentries]
  rfl

/-- A column stands once in the ordering, so its sort is shown by the entry that it left. -/
theorem showsSort_iff_of_mem {q : Select} (hnodup : (q.ordering.map Prod.fst).Nodup)
    {e : String × String} (he : e ∈ q.ordering) (hname : (words column).head? = some e.1) :
    q.ShowsSort column ↔ Shows (entryText e) (words column) := by
  refine ⟨fun h => ?_, fun h name hname' => ?_⟩
  · obtain ⟨e', he', hfst, hshows⟩ := h e.1 hname
    rwa [← List.inj_on_of_nodup_map hnodup he' he hfst]
  · rw [hname] at hname'
    exact ⟨e, he, Option.some.inj hname', h⟩

/-- So a text of two words at most is shown, and a longer one is not. -/
theorem showsSort_iff {q : Select} (hnodup : (q.ordering.map Prod.fst).Nodup)
    (hentry : ∀ name, (words column).head? = some name →
      (name, ((words column)[1]?.getD direction).toUpper) ∈ q.ordering) :
    q.ShowsSort column ↔ (words column).length ≤ 2 ∧ ∀ own, (words column)[1]? = some own →
      own.toUpper = own ∨ own.toUpper ∈ directionWords := by
  have hwords : ∀ w ∈ words column, IsWord w := fun w hw => Text.isWord_of_mem_words hw
  cases hcolumn : words column with
  | nil =>
      refine iff_of_true (fun name hname => ?_) ⟨Nat.zero_le _, fun own hown => nomatch hown⟩
      rw [hcolumn] at hname
      exact nomatch hname
  | cons name rest =>
      have hhead : (words column).head? = some name := by rw [hcolumn, List.head?_cons]
      have hmem := hentry name hhead
      rw [hcolumn, List.getElem?_cons_succ] at hmem
      rw [hcolumn, List.forall_mem_cons] at hwords
      rw [showsSort_iff_of_mem hnodup hmem hhead, hcolumn,
        shows_entryText_iff hwords.1 hwords.2 direction, List.length_cons,
        List.getElem?_cons_succ]
      exact and_congr Nat.succ_le_succ_iff.symm Iff.rfl

end Select

/-! ## The theorem -/

/-- **A sort's text is shown iff it is a column, or a column and a direction.**  Where its column is
not sorted by again, the clause has an entry for the sort, made of the first word of its text and of
the second in capitals, or of the direction that is given apart.  So all words are shown iff there
are two at most and the second is in capitals already or is a direction. -/
theorem sort_text_shown_iff (db : Database σ) (table column direction : String)
    (before after : List SelectStep)
    (hafter : ∀ sort ∈ sortsOf after, (words column).head? ≠ some sort.1) :
    let q := db.build table (before ++ .orderBy column direction :: after)
    let own := (words column)[1]?
    (∀ name, (words column).head? = some name → ∃ front behind,
      q.ordering = front ++ (name, (own.getD direction).toUpper) :: behind ∧
        q.orderByClause = " ORDER BY " ++ ", ".intercalate (front.map Select.entryText
          ++ (name ++ " " ++ (own.getD direction).toUpper) :: behind.map Select.entryText)) ∧
      (q.ShowsSort column ↔ (words column).length ≤ 2 ∧
        ∀ word, own = some word → word.toUpper = word ∨ word.toUpper ∈ directionWords) := by
  intro q own
  have hentry : ∀ name, (words column).head? = some name →
      (name, (own.getD direction).toUpper) ∈ q.ordering := by
    intro name hname
    refine Select.mem_ordering_of_sort db table hname fun sort hsort heq => ?_
    exact hafter sort hsort (by rw [hname, heq])
  have hnodup := (Select.orders_build db table
    (before ++ .orderBy column direction :: after)).nodup
  refine ⟨fun name hname => ?_, Select.showsSort_iff hnodup hentry⟩
  obtain ⟨front, behind, hsplit⟩ := List.append_of_mem (hentry name hname)
  exact ⟨front, behind, hsplit, Select.orderByClause_of_ordering hsplit⟩

/-- A function call without blanks between two sorts of its query, one of them by the same
column. -/
theorem sort_text_of_two_words_shown :
    let db : Database Unit := ⟨.accepting, {}, fun _ => none⟩
    let before : List SelectStep := [.orderBy "LOWER(name)" "asc"]
    let after : List SelectStep := [.orderBy "id NULLS FIRST" "asc"]
    let column := " LOWER(name)\tDesc"
    let q := db.build "users" (before ++ .orderBy column "asc" :: after)
    (∀ sort ∈ sortsOf after, (words column).head? ≠ some sort.1) ∧
      q.orderByClause = " ORDER BY LOWER(name) DESC, id NULLS" ∧
      words column = ["LOWER(name)", "Desc"] ∧ q.ShowsSort column := by
  intro db before after column q
  have hafter : ∀ sort ∈ sortsOf after, (words column).head? ≠ some sort.1 := by decide +kernel
  have hwords : words column = ["LOWER(name)", "Desc"] := by decide +kernel
  obtain ⟨-, hshows⟩ := sort_text_shown_iff db "users" column "asc" before after hafter
  refine ⟨hafter, by decide +kernel, hwords, hshows.mpr ?_⟩
  rw [hwords]
  refine ⟨le_refl _, ?_⟩
  rintro _ ⟨⟩
  exact .inr (by decide +kernel)

/-- A place for the nulls is dropped, and so is the direction behind a call with two arguments, of
which the second is put in capitals. -/
theorem nulls_and_arguments_are_lost :
    let db : Database Unit := ⟨.accepting, {}, fun _ => none⟩
    let last := "name DESC NULLS LAST"
    let call := "COALESCE(a, b) DESC"
    let q := db.build "users" [.orderBy last "ASC"]
    let r := db.build "users" [.orderBy call "ASC"]
    q.orderByClause = " ORDER BY name DESC" ∧ r.orderByClause = " ORDER BY COALESCE(a, B)" ∧
      ¬ Shows q.orderByClause (words last) ∧ ¬ Shows r.orderByClause (words call) ∧
      ¬ q.ShowsSort last ∧ ¬ r.ShowsSort call := by
  intro db last call q r
  have hq : q.ordering = [("name", "DESC")] := by decide +kernel
  have hr : r.ordering = [("COALESCE(a,", "B)")] := by decide +kernel
  have hnulls : "NULLS" ∈ words last := by decide +kernel
  have hsecond : "b)" ∈ words call := by decide +kernel
  refine ⟨by decide +kernel, by decide +kernel, not_shows_of_mem hnulls (by decide +kernel),
    not_shows_of_mem hsecond (by decide +kernel), fun h => ?_, fun h => ?_⟩
  · obtain ⟨e, he, -, hshows⟩ := h "name" (by decide +kernel)
    rw [hq, List.mem_singleton] at he
    rw [he] at hshows
    exact not_shows_of_mem hnulls (by decide +kernel) hshows
  · obtain ⟨e, he, -, hshows⟩ := h "COALESCE(a," (by decide +kernel)
    rw [hr, List.mem_singleton] at he
    rw [he] at hshows
    exact not_shows_of_mem hsecond (by decide +kernel) hshows

end SqlBuilder
