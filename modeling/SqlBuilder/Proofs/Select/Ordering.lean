import SqlBuilder.Proofs.Placeholder.Numbering
import SqlBuilder.Proofs.Select.Clauses
import SqlBuilder.Proofs.SortedMap
import SqlBuilder.Proofs.Text.Blank

/-!
# Ordering

A query may be sorted again and again, by texts that hold a column and perhaps a direction.  What it
is ordered by in the end is told by the sorts alone (`Orders`): each column once, where it came
first, in the direction it was given last.  A sort keeps this whether it finds its column among the
entries or not (`Orders.concat`), so it holds after any steps (`orders_build`).

The columns are words, since a sort takes the first word of its text; a text of blanks has none and
sorts by nothing.
-/

namespace SqlBuilder

open SortedMap (lastValue?)
open Text (AllBlank IsWord)

variable {σ : Type}

/-- What a step sorts by, if it sorts: the first word of its text, and as direction in capitals the
second word, or else the one that is given apart. -/
def SelectStep.sort? : SelectStep → Option (String × String)
  | .orderBy column direction =>
    (Text.words column).head?.map fun name =>
      (name, ((Text.words column)[1]?.getD direction).toUpper)
  | _ => none

/-- What steps sort by, in order. -/
def sortsOf (steps : List SelectStep) : List (String × String) :=
  steps.filterMap SelectStep.sort?

namespace Select

/-! ## One entry -/

/-- A column that is sorted by already keeps its place, and another comes last. -/
theorem map_fst_orderEntries (name direction : String) (entries : List (String × String)) :
    (orderEntries name direction entries).map Prod.fst
      = if name ∈ entries.map Prod.fst then entries.map Prod.fst
        else entries.map Prod.fst ++ [name] := by
  induction entries with
  | nil => rfl
  | cons e rest ih =>
      obtain ⟨n, d⟩ := e
      rw [orderEntries]
      by_cases hn : n = name
      · subst hn
        simp
      · have hn' : name ≠ n := Ne.symm hn
        rw [if_neg hn, List.map_cons, ih]
        simp only [List.map_cons, List.mem_cons, hn', false_or]
        split <;> rfl

/-- Where no column is sorted by twice, the entries of other columns stay. -/
theorem mem_orderEntries {name direction : String} {entries : List (String × String)}
    (hnodup : (entries.map Prod.fst).Nodup) {e : String × String}
    (he : e ∈ orderEntries name direction entries) :
    e = (name, direction) ∨ (e ∈ entries ∧ e.1 ≠ name) := by
  induction entries with
  | nil => exact .inl (List.mem_singleton.mp he)
  | cons first rest ih =>
      obtain ⟨n, d⟩ := first
      obtain ⟨hfirst, hrest⟩ := List.nodup_cons.mp hnodup
      rw [orderEntries] at he
      split at he
      · next hn =>
        rcases List.mem_cons.mp he with rfl | he
        · exact .inl (by rw [hn])
        · refine .inr ⟨List.mem_cons_of_mem _ he, fun h => hfirst ?_⟩
          -- an entry behind the one of its column would have that column too
          rw [hn, ← h]
          exact List.mem_map.mpr ⟨e, he, rfl⟩
      · next hn =>
        rcases List.mem_cons.mp he with rfl | he
        · exact .inr ⟨List.mem_cons_self, hn⟩
        · exact (ih hrest he).imp id fun h => ⟨List.mem_cons_of_mem _ h.1, h.2⟩

/-! ## The invariant -/

/-- The entries are what sorts leave: each column once, where it came first, in the direction it was
given last. -/
structure Orders (entries sorts : List (String × String)) : Prop where
  names : entries.map Prod.fst = (sorts.map Prod.fst).eraseDups
  directions : ∀ e ∈ entries, lastValue? e.1 sorts = some e.2

theorem Orders.nodup {entries sorts : List (String × String)} (h : Orders entries sorts) :
    (entries.map Prod.fst).Nodup := by
  rw [h.names]
  exact Placeholder.nodup_eraseDups _

/-- **One more sort** leaves what all of them leave. -/
theorem Orders.concat {entries sorts : List (String × String)} (h : Orders entries sorts)
    (name direction : String) :
    Orders (orderEntries name direction entries) (sorts ++ [(name, direction)]) where
  names := by
    have hmem : name ∈ entries.map Prod.fst ↔ name ∈ sorts.map Prod.fst := by
      rw [h.names, List.mem_eraseDups]
    rw [map_fst_orderEntries, List.map_append, List.eraseDups_append, ← h.names]
    by_cases hname : name ∈ sorts.map Prod.fst
    · rw [if_pos (hmem.mpr hname)]
      simp [List.removeAll, hname]
    · rw [if_neg (hmem.not.mpr hname)]
      simp [List.removeAll, hname, List.eraseDups_cons]
  directions := by
    intro e he
    rw [SortedMap.lastValue?_concat]
    rcases mem_orderEntries h.nodup he with rfl | ⟨he, hne⟩
    · exact if_pos rfl
    · rw [if_neg (Ne.symm hne)]
      exact h.directions e he

/-! ## Any steps -/

/-- Only a step that sorts changes what the query is ordered by. -/
theorem ordering_apply (q : Select) (tablePrefix : String) (step : SelectStep) :
    (q.apply tablePrefix step).ordering
      = match step.sort? with
        | some (name, direction) => orderEntries name direction q.ordering
        | none => q.ordering := by
  have hpart : ((q.apply tablePrefix step).part .ordering).ordering = _ :=
    congrArg ordering (part_apply q step .ordering)
  cases step with
  | orderBy column direction =>
      simp only [apply, sortBy, SelectStep.sort?]
      rcases Text.words column with _ | ⟨name, _ | ⟨own, rest⟩⟩ <;> rfl
  | _ => exact hpart

theorem Orders.applyAll {q : Select} {sorts : List (String × String)}
    (h : Orders q.ordering sorts) (tablePrefix : String) (steps : List SelectStep) :
    Orders (q.applyAll tablePrefix steps).ordering (sorts ++ sortsOf steps) := by
  induction steps generalizing q sorts with
  | nil =>
      rw [sortsOf, List.filterMap_nil, List.append_nil]
      exact h
  | cons step steps ih =>
      have hstep := ordering_apply q tablePrefix step
      show Orders ((q.apply tablePrefix step).applyAll tablePrefix steps).ordering _
      cases hsort : step.sort? with
      | none =>
          rw [hsort] at hstep
          rw [sortsOf, List.filterMap_cons_none hsort]
          refine ih ?_
          rw [hstep]
          exact h
      | some sort =>
          rw [hsort] at hstep
          have hmore : Orders (q.apply tablePrefix step).ordering (sorts ++ [sort]) := by
            rw [hstep]
            exact h.concat sort.1 sort.2
          rw [sortsOf, List.filterMap_cons_some hsort, List.append_cons]
          exact ih hmore

/-- **After any steps** a query on a table is ordered by what the steps sorted by. -/
theorem orders_build (db : Database σ) (table : String) (steps : List SelectStep) :
    Orders (db.build table steps).ordering (sortsOf steps) := by
  have hnone : Orders (db.table table).ordering [] := ⟨rfl, fun _ he => nomatch he⟩
  exact hnone.applyAll _ steps

/-! ## Columns are words -/

theorem isWord_of_mem_sortsOf {steps : List SelectStep} {sort : String × String}
    (h : sort ∈ sortsOf steps) : IsWord sort.1 := by
  obtain ⟨step, -, hsort⟩ := List.mem_filterMap.mp h
  cases step with
  | orderBy column direction =>
      obtain ⟨name, hname, rfl⟩ := Option.map_eq_some_iff.mp hsort
      exact Text.isWord_of_mem_words (List.mem_of_mem_head? hname)
  | _ => exact nomatch hsort

theorem Orders.isWord {entries : List (String × String)} {steps : List SelectStep}
    (h : Orders entries (sortsOf steps)) {e : String × String} (he : e ∈ entries) :
    IsWord e.1 := by
  have hname : e.1 ∈ entries.map Prod.fst := List.mem_map_of_mem he
  rw [h.names, List.mem_eraseDups] at hname
  obtain ⟨sort, hsort, hfst⟩ := List.mem_map.mp hname
  rw [← hfst]
  exact isWord_of_mem_sortsOf hsort

theorem sortBy_of_blanks (q : Select) {column : String} (h : AllBlank column)
    (direction : String) : q.sortBy column direction = q := by
  rw [sortBy, h.words_eq]

/-- A direction behind the column counts as if it was given apart. -/
theorem sortBy_append (q : Select) {column own blanks : String} (hcolumn : IsWord column)
    (hown : IsWord own) (hne : blanks ≠ "") (hblanks : AllBlank blanks)
    (direction : String) :
    q.sortBy (column ++ blanks ++ own) direction = q.sortBy column own := by
  rw [sortBy, sortBy, hcolumn.words_append hown hne hblanks, hcolumn.words_eq]

end Select

/-! ## The theorem -/

/-- **The last direction counts, and the first place is kept.**  After any steps on a table a query
is ordered by each column that was sorted by, once, in the order in which the columns first came,
and in the direction that was given last with it.  The columns are distinct words.  A text of blanks
sorts by nothing, and a column with a direction behind it sorts as the two given apart. -/
theorem ordering_keeps_first_places_and_last_directions (db : Database σ) (table : String)
    (steps : List SelectStep) :
    let sorts := sortsOf steps
    let ordering := (db.build table steps).ordering
    ordering.map Prod.fst = (sorts.map Prod.fst).eraseDups ∧
      (∀ e ∈ ordering, lastValue? e.1 sorts = some e.2) ∧
      (ordering.map Prod.fst).Nodup ∧ (∀ e ∈ ordering, IsWord e.1) ∧
      (∀ (q : Select) (column direction : String), AllBlank column →
        q.sortBy column direction = q) ∧
      ∀ (q : Select) (column own blanks direction : String), IsWord column → IsWord own →
        blanks ≠ "" → AllBlank blanks →
        q.sortBy (column ++ blanks ++ own) direction = q.sortBy column own := by
  intro sorts ordering
  have horders : Select.Orders ordering sorts := Select.orders_build db table steps
  exact ⟨horders.names, horders.directions, horders.nodup, fun _ he => horders.isWord he,
    fun q _ direction hcolumn => q.sortBy_of_blanks hcolumn direction,
    fun q _ _ _ direction hcolumn hown hne hblanks =>
      q.sortBy_append hcolumn hown hne hblanks direction⟩

/-- Of four sorts one has no column, and one gives a column that was sorted by another direction. -/
theorem ordering_of_four_sorts :
    let db : Database Unit := ⟨.accepting, {}, fun _ => none⟩
    let q := db.table "posts"
    let steps : List SelectStep :=
      [.orderBy "author" "asc", .orderBy "\t\u3000" "asc", .orderByDescending "id",
        .orderBy "author\u2003Desc" "asc"]
    let ordering := (db.build "posts" steps).ordering
    sortsOf steps = [("author", "ASC"), ("id", "DESC"), ("author", "DESC")] ∧
      ordering = [("author", "DESC"), ("id", "DESC")] ∧
      ordering.map Prod.fst = ((sortsOf steps).map Prod.fst).eraseDups ∧
      q.sortBy "\t\u3000" "asc" = q ∧
      q.sortBy ("author" ++ "\u2003" ++ "Desc") "asc" = q.sortBy "author" "Desc" := by
  intro db q steps ordering
  obtain ⟨hnames, -, -, -, hblank, happend⟩ :=
    ordering_keeps_first_places_and_last_directions db "posts" steps
  exact ⟨by decide +kernel, by decide +kernel, hnames, hblank q _ "asc" (by decide +kernel),
    happend q "author" "Desc" "\u2003" "asc" (by decide +kernel) (by decide +kernel) (by decide)
      (by decide +kernel)⟩

end SqlBuilder
