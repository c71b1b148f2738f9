import Mathlib.Data.List.Perm.Subperm
import SqlBuilder.Proofs.Database.BoundValues

/-!
# Records that set the same columns

An insertion takes its columns from all of its records together and compares how many each record
sets with how many there are.  Since no record sets a column that is not among them, the numbers
agree exactly for a record that sets them all (`isComplete_iff_size_eq`).  So the records are
accepted iff they all set the same columns, and else the first one that lacks a column is named
(`insertion_accepts_uniform_records`).

The statement is made from the columns alone, in their own order.  Neither the order of the records
nor the order in which a record was filled is left in it.
-/

namespace SqlBuilder

open Placeholder

variable {σ : Type}

/-- The record sets every column that any of the records sets. -/
def IsComplete (rows : List Record) (row : Record) : Prop :=
  ∀ other ∈ rows, ∀ column ∈ other.keys, column ∈ row.keys

/-- All records set the same columns. -/
def Uniform (rows : List Record) : Prop :=
  ∀ row ∈ rows, ∀ other ∈ rows, ∀ column, column ∈ row.keys ↔ column ∈ other.keys

/-! ## Complete records -/

theorem uniform_iff {rows : List Record} : Uniform rows ↔ ∀ row ∈ rows, IsComplete rows row := by
  constructor
  · exact fun h row hrow other hother column => (h row hrow other hother column).mpr
  · intro h row hrow other hother column
    exact ⟨h other hother row hrow column, h row hrow other hother column⟩

theorem pairwise_columnsOf (rows : List Record) :
    (Select.columnsOf rows).Pairwise fun a b => compare a b = .lt :=
  SortedMap.pairwise_keys _

theorem nodup_columnsOf (rows : List Record) : (Select.columnsOf rows).Nodup :=
  SortedMap.nodup_keys _

theorem isComplete_iff_subset {rows : List Record} {row : Record} :
    IsComplete rows row ↔ Select.columnsOf rows ⊆ row.keys := by
  constructor
  · intro h column hcolumn
    obtain ⟨other, hother, hmem⟩ := mem_columnsOf.mp hcolumn
    exact h other hother column hmem
  · intro h other hother column hcolumn
    exact h (mem_columnsOf.mpr ⟨other, hother, hcolumn⟩)

theorem columnsOf_eq_nil_iff {rows : List Record} :
    Select.columnsOf rows = [] ↔ ∀ row ∈ rows, row.isEmpty = true := by
  simp only [isEmpty_eq_isEmpty_keys, List.isEmpty_iff, List.eq_nil_iff_forall_not_mem,
    mem_columnsOf, not_exists, not_and]
  exact forall_comm.trans (forall_congr' fun _ => forall_comm)

/-- A record is complete iff it sets as many columns as there are. -/
theorem isComplete_iff_size_eq {rows : List Record} {row : Record} (hrow : row ∈ rows) :
    IsComplete rows row ↔ row.size = (Select.columnsOf rows).length := by
  have hsubset : row.keys ⊆ Select.columnsOf rows := fun column hcolumn =>
    mem_columnsOf.mpr ⟨row, hrow, hcolumn⟩
  rw [isComplete_iff_subset, size_eq_length_keys]
  constructor
  · intro hback
    have hperm : row.keys.Perm (Select.columnsOf rows) :=
      (List.perm_ext_iff_of_nodup row.nodup_keys (nodup_columnsOf rows)).mpr fun column =>
        ⟨fun h => hsubset h, fun h => hback h⟩
    exact hperm.length_eq
  · intro hlength
    -- distinct columns are all of them as soon as there are as many
    have hperm : row.keys.Perm (Select.columnsOf rows) :=
      (List.Nodup.subperm row.nodup_keys hsubset).perm_of_length_le hlength.ge
    exact hperm.symm.subset

theorem keys_eq_of_uniform {rows : List Record} (h : Uniform rows) {row : Record}
    (hrow : row ∈ rows) : row.keys = Select.columnsOf rows := by
  refine SortedMap.keys_eq_of_mem_iff fun column => ?_
  constructor
  · exact fun hcolumn => mem_columnsOf.mpr ⟨row, hrow, hcolumn⟩
  · exact fun hcolumn => isComplete_iff_subset.mp (uniform_iff.mp h row hrow) hcolumn

/-! ## The check -/

section Check

variable {q : Select} {keyColumn : Option String} {rows : List Record}

theorem insertTemplate_of_uniform (hrows : rows ≠ []) (h : Uniform rows) :
    q.insertTemplate keyColumn rows
      = .ok (insertText q.table (Select.columnsOf rows) (slotTexts (Select.columnsOf rows))
        ++ returningClause keyColumn) :=
  insertTemplate_eq q keyColumn hrows fun _ hrow => keys_eq_of_uniform h hrow

/-- The error names the first record that lacks a column. -/
theorem insertTemplate_eq_error {e : DatabaseError}
    (h : q.insertTemplate keyColumn rows = .error e) :
    ∃ i, ∃ hi : i < rows.length,
      e = .validation (.incompleteRow i (Select.columnsOf rows)) ∧ ¬ IsComplete rows rows[i] ∧
      ∀ j, ∀ hj : j < i, IsComplete rows rows[j] := by
  unfold Select.insertTemplate at h
  dsimp only at h
  split at h
  · next i hfind =>
    obtain ⟨hi, hbad, hbefore⟩ := List.findIdx?_eq_some_iff_getElem.mp hfind
    refine ⟨i, hi, (Except.error.inj h).symm, ?_, fun j hj => ?_⟩
    · rw [isComplete_iff_size_eq (List.getElem_mem hi)]
      simpa using hbad
    · rw [isComplete_iff_size_eq (List.getElem_mem _)]
      simpa using hbefore j hj
  · exact nomatch h

/-- Records are accepted iff they set the same columns. -/
theorem insertTemplate_ok_iff (hrows : rows ≠ []) :
    (∃ sql, q.insertTemplate keyColumn rows = .ok sql) ↔ Uniform rows := by
  constructor
  · rintro ⟨sql, hsql⟩
    rw [uniform_iff]
    intro row hrow
    rw [isComplete_iff_size_eq hrow]
    unfold Select.insertTemplate at hsql
    dsimp only at hsql
    split at hsql
    · exact nomatch hsql
    · next hnone => simpa using List.findIdx?_eq_none_iff.mp hnone row hrow
  · exact fun h => ⟨_, insertTemplate_of_uniform hrows h⟩

end Check

/-! ## What the statement does not depend on -/

theorem Uniform.perm {rows rows' : List Record} (h : Uniform rows) (hperm : rows.Perm rows') :
    Uniform rows' := fun row hrow other hother =>
  h row (hperm.mem_iff.mpr hrow) other (hperm.mem_iff.mpr hother)

theorem columnsOf_eq_of_perm {rows rows' : List Record} (hperm : rows.Perm rows') :
    Select.columnsOf rows = Select.columnsOf rows' := by
  refine SortedMap.keys_eq_of_mem_iff fun column => ?_
  have hmem : column ∈ Select.columnsOf rows ↔ column ∈ Select.columnsOf rows' := by
    simp only [mem_columnsOf, hperm.mem_iff]
  exact hmem

/-- Columns in another order fill records that set the same ones. -/
theorem map_keys_ofList_eq {fillings fillings' : List (List (String × Value))}
    (h : List.Forall₂ List.Perm fillings fillings') :
    (fillings.map SortedMap.ofList).map SortedMap.keys
      = (fillings'.map SortedMap.ofList).map SortedMap.keys := by
  induction h with
  | nil => rfl
  | cons hperm _ ih =>
      rw [List.map_cons, List.map_cons, List.map_cons, List.map_cons, ih]
      congr 1
      refine SortedMap.keys_eq_of_mem_iff fun column => ?_
      rw [SortedMap.mem_keys_ofList, SortedMap.mem_keys_ofList, (hperm.map Prod.fst).mem_iff]

/-- An insertion gives defaults iff it has no columns. -/
theorem insertText_eq_defaults_iff {table : String} {columns values : List String} :
    insertText table columns values = "INSERT INTO " ++ table ++ " DEFAULT VALUES"
      ↔ columns = [] := by
  constructor
  · intro h
    by_contra hne
    rw [insertText_of_ne_nil hne, String.append_right_inj] at h
    -- a list of columns begins with a parenthesis
    have hlist := congrArg String.toList h
    simp [columnsText] at hlist
  · rintro rfl
    exact insertText_nil table values

/-! ## What comes of an insertion -/

section Outcome

variable (db : Database σ) (q : Select) (rows : List Record) (s : Session σ)

/-- The records are refused with an error that names the first of them that lacks a column, and the
session stays as it is. -/
structure RefusesFirst (e : DatabaseError) : Prop where
  named : ∃ i, ∃ hi : i < rows.length,
    e = .validation (.incompleteRow i (Select.columnsOf rows)) ∧ ¬ IsComplete rows rows[i] ∧
      ∀ j, ∀ hj : j < i, IsComplete rows rows[j]
  run_eq : (q.insertAll db rows).run s = (.error e, s)

/-- The statement that inserts any of the records.  It names their columns once each, in order, with
one placeholder for each, and asks for defaults iff every record is empty.  It is the same for the
records in any order. -/
structure InsertsEach (keyColumn : Option String) (sql : String) : Prop where
  columns_ascend : (Select.columnsOf rows).Pairwise fun a b => compare a b = .lt
  mem_columns : ∀ row ∈ rows, ∀ column, column ∈ Select.columnsOf rows ↔ column ∈ row.keys
  text : sql = insertText q.table (Select.columnsOf rows) (slotTexts (Select.columnsOf rows))
    ++ returningClause keyColumn
  slots_length : (slotTexts (Select.columnsOf rows)).length = (Select.columnsOf rows).length
  placeholders : Closes q.table → (∀ c ∈ Select.columnsOf rows, IsIdentifier c) →
    names (pieces sql) = names (pieces q.table)
      ++ ((Select.columnsOf rows).map keyOf ++ names (pieces (returningClause keyColumn)))
  defaults_iff : sql = "INSERT INTO " ++ q.table ++ " DEFAULT VALUES" ++ returningClause keyColumn
    ↔ ∀ row ∈ rows, row.isEmpty = true
  any_order : ∀ rows', rows.Perm rows' → q.insertTemplate keyColumn rows' = .ok sql

/-- Records are accepted iff they set the same columns, and only then anything is sent. -/
structure AcceptsUniform : Prop where
  accepted_iff :
    (∃ sql, q.insertTemplate db.settings.keyColumn rows = .ok sql) ↔ Uniform rows
  sent_iff : callsOf (q.insertAll db.recorded rows) s ≠ [] ↔ Uniform rows
  refused : ∀ e, q.insertTemplate db.settings.keyColumn rows = .error e →
    RefusesFirst db q rows s e
  inserted : ∀ sql, q.insertTemplate db.settings.keyColumn rows = .ok sql →
    InsertsEach q rows db.settings.keyColumn sql

variable {db q rows s}

theorem refusesFirst_of_error (hrows : rows ≠ []) {e : DatabaseError}
    (h : q.insertTemplate db.settings.keyColumn rows = .error e) : RefusesFirst db q rows s e where
  named := insertTemplate_eq_error h
  run_eq := Select.run_insertAll_of_error db q hrows h s

/-- Something is sent iff there is a statement to send. -/
theorem calls_insertAll_ne_nil_iff (hrows : rows ≠ []) :
    callsOf (q.insertAll db.recorded rows) s ≠ []
      ↔ ∃ sql, q.insertTemplate db.settings.keyColumn rows = .ok sql := by
  cases hsql : q.insertTemplate db.settings.keyColumn rows with
  | error e =>
      have hrun := Select.run_insertAll_of_error db.recorded q hrows hsql s.recorded
      have hcalls : callsOf (q.insertAll db.recorded rows) s = [] := congrArg (·.2.client.2) hrun
      exact iff_of_false (fun h => h hcalls) fun ⟨_, h⟩ => nomatch h
  | ok sql =>
      obtain ⟨result, -, hunit⟩ := (Action.Traces.insertAll db q hrows hsql).calls s
      exact iff_of_true hunit.calls_ne_nil ⟨sql, rfl⟩

theorem Uniform.insertsEach (h : Uniform rows) (hrows : rows ≠ []) {keyColumn : Option String}
    {sql : String} (hsql : q.insertTemplate keyColumn rows = .ok sql) :
    InsertsEach q rows keyColumn sql := by
  have htext := Except.ok.inj (hsql.symm.trans (insertTemplate_of_uniform hrows h))
  exact {
    columns_ascend := pairwise_columnsOf rows
    mem_columns := fun row hrow column => by rw [keys_eq_of_uniform h hrow]
    text := htext
    slots_length := List.length_map _
    placeholders := fun htable hidentifiers => by rw [htext, names_insertText htable hidentifiers]
    defaults_iff := by
      rw [htext, String.append_left_inj, insertText_eq_defaults_iff, columnsOf_eq_nil_iff]
    any_order := by
      intro rows' hperm
      have hrows' : rows' ≠ [] := fun hnil => hrows (by rwa [hnil, List.perm_nil] at hperm)
      rw [insertTemplate_of_uniform hrows' (h.perm hperm), ← columnsOf_eq_of_perm hperm, htext] }

theorem acceptsUniform (hrows : rows ≠ []) : AcceptsUniform db q rows s where
  accepted_iff := insertTemplate_ok_iff hrows
  sent_iff := (calls_insertAll_ne_nil_iff hrows).trans (insertTemplate_ok_iff hrows)
  refused _ he := refusesFirst_of_error hrows he
  inserted sql hsql := ((insertTemplate_ok_iff hrows).mp ⟨sql, hsql⟩).insertsEach hrows hsql

end Outcome

/-! ## The theorem -/

/-- **An insertion accepts exactly the records that set the same columns.**  Otherwise the error
names the first record that lacks a column, and nothing is sent.  The statement of records that are
accepted is made from their columns alone: it is the same for the records in any order, and for
records that were filled in any order. -/
theorem insertion_accepts_uniform_records (db : Database σ) (q : Select) (rows : List Record)
    (s : Session σ) (hrows : rows ≠ []) :
    AcceptsUniform db q rows s ∧
      ∀ fillings fillings' : List (List (String × Value)),
        List.Forall₂ List.Perm fillings fillings' →
        q.insertTemplate db.settings.keyColumn (fillings.map .ofList)
          = q.insertTemplate db.settings.keyColumn (fillings'.map .ofList) := by
  constructor
  · exact acceptsUniform hrows
  · intro fillings fillings' hperm
    exact (Select.Alike.refl q).insertTemplate _ (map_keys_ofList_eq hperm)

/-- Two records that were filled in different orders are accepted, in either order.  A third one
between them that lacks a column is named. -/
theorem insertion_of_uniform_and_mixed_records :
    let db : Database Unit := ⟨.accepting, {}, fun _ => none⟩
    let q : Select := { table := "posts" }
    let s : Session Unit := .new {} ()
    let first : Record := .ofList [("title", .text "a"), ("author", .int 1)]
    let second : Record := .ofList [("author", .int 2), ("title", .text "b")]
    let third : Record := .ofList [("title", .text "c")]
    let sql := "INSERT INTO posts (author, title) VALUES (:author, :title) RETURNING id"
    Uniform [first, second] ∧
      q.insertTemplate db.settings.keyColumn [second, first] = .ok sql ∧
      names (pieces sql) = ["author", "title"] ∧
      ¬ Uniform [first, third, second] ∧
      (q.insertAll db [first, third, second]).run s
        = (.error (.validation (.incompleteRow 1 ["author", "title"])), s) := by
  intro db q s first second third sql
  have hidentifier : ∀ c ∈ ["author", "title"], IsIdentifier c := by
    simp only [List.forall_mem_cons]
    exact ⟨.plain (by decide) (by decide +kernel), .plain (by decide) (by decide +kernel),
      fun _ h => nomatch h⟩
  have htemplate : q.insertTemplate db.settings.keyColumn [first, second] = .ok sql := by
    decide +kernel
  obtain ⟨hpair, -⟩ :=
    insertion_accepts_uniform_records db q [first, second] s (List.cons_ne_nil _ _)
  have heach := hpair.inserted sql htemplate
  obtain ⟨hmixed, -⟩ :=
    insertion_accepts_uniform_records db q [first, third, second] s (List.cons_ne_nil _ _)
  have herror : q.insertTemplate db.settings.keyColumn [first, third, second]
      = .error (.validation (.incompleteRow 1 ["author", "title"])) := by decide +kernel
  refine ⟨hpair.accepted_iff.mp ⟨sql, htemplate⟩, heach.any_order _ (.swap _ _ _), ?_, ?_,
    (hmixed.refused _ herror).run_eq⟩
  · exact (heach.placeholders (by decide +kernel) hidentifier).trans (by decide +kernel)
  · rw [← hmixed.accepted_iff, herror]
    exact fun ⟨_, h⟩ => nomatch h

end SqlBuilder
