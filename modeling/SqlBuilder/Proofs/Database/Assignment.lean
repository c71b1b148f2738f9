import SqlBuilder.Proofs.Database.Trace
import SqlBuilder.Proofs.SortedMap

/-!
# New values beside the values of a condition

An update has one map for two kinds of names: those of its condition and, with `set_` before them,
those of the columns it sets.  Both come from column names that may meet, so every name for a new
value is looked up before it is bound.  What comes through is what was meant: the condition's names
keep their values, and every column has its own (`assignments_keep_apart`).
-/

namespace SqlBuilder

variable {σ : Type}

namespace Select

variable {params : Bindings}

/-! ## Names for new values -/

/-- New values of the columns can stand beside what is bound: no two columns have one name, and none
of the names is taken. -/
structure Separate (params : Bindings) (columns : List String) : Prop where
  own : ∀ c ∈ columns, ∀ d ∈ columns, assignmentKey c = assignmentKey d → c = d
  free : ∀ c ∈ columns, params.contains (assignmentKey c) = false

/-- To bind one value keeps the others apart exactly if their names differ from its name. -/
theorem separate_cons {column : String} {columns : List String} (hnew : column ∉ columns)
    (v : Value) : Separate params (column :: columns) ↔
      params.contains (assignmentKey column) = false ∧
        Separate (params.insert (assignmentKey column) v) columns := by
  have hfree : ∀ c, (params.insert (assignmentKey column) v).contains (assignmentKey c) = false ↔
      assignmentKey c ≠ assignmentKey column ∧ params.contains (assignmentKey c) = false := by
    intro c
    rw [← Bool.not_eq_true, SortedMap.contains_insert, not_or, Bool.not_eq_true]
  constructor
  · intro h
    refine ⟨h.free column List.mem_cons_self, ?_, ?_⟩
    · intro c hc d hd
      exact h.own c (List.mem_cons_of_mem _ hc) d (List.mem_cons_of_mem _ hd)
    · intro c hc
      have hmem := List.mem_cons_of_mem column hc
      refine (hfree c).mpr ⟨fun hkey => hnew ?_, h.free c hmem⟩
      exact h.own c hmem column List.mem_cons_self hkey ▸ hc
  · rintro ⟨hcolumn, h⟩
    have hother : ∀ c ∈ columns, assignmentKey c ≠ assignmentKey column := fun c hc =>
      ((hfree c).mp (h.free c hc)).1
    constructor
    · intro c hc d hd hkey
      rcases List.mem_cons.mp hc with hc | hc <;> rcases List.mem_cons.mp hd with hd | hd
      · exact hc.trans hd.symm
      · exact absurd (hc ▸ hkey.symm) (hother d hd)
      · exact absurd (hd ▸ hkey) (hother c hc)
      · exact h.own c hc d hd hkey
    · intro c hc
      rcases List.mem_cons.mp hc with rfl | hc
      · exact hcolumn
      · exact ((hfree c).mp (h.free c hc)).2

/-! ## Binding new values -/

/-- The new values with their names. -/
def namedValues (values : List (String × Value)) : List (String × Value) :=
  values.map fun e => (assignmentKey e.1, e.2)

/-- The assignments as they are written. -/
def assignmentTexts (columns : List String) : List String :=
  columns.map fun column => column ++ " = :" ++ assignmentKey column

/-- All new values are bound if they can stand beside the others. -/
theorem assignments_of_separate {values : List (String × Value)}
    (hnodup : (values.map Prod.fst).Nodup) (h : Separate params (values.map Prod.fst)) :
    assignments params values
      = .ok (params.insertAll (namedValues values), assignmentTexts (values.map Prod.fst)) := by
  induction values generalizing params with
  | nil => rfl
  | cons e values ih =>
      obtain ⟨column, v⟩ := e
      obtain ⟨hnew, hrest⟩ := List.nodup_cons.mp hnodup
      obtain ⟨hfree, hsep⟩ := (separate_cons hnew v).mp h
      rw [assignments]
      simp only [hfree, Bool.false_eq_true, if_false, ih hrest hsep]
      rfl

/-- Otherwise the binding stops at a column whose name is taken. -/
theorem assignments_of_not_separate {values : List (String × Value)}
    (hnodup : (values.map Prod.fst).Nodup) (h : ¬ Separate params (values.map Prod.fst)) :
    ∃ column ∈ values.map Prod.fst, assignments params values
      = .error (.validation (.assignmentTaken (assignmentKey column) column)) := by
  induction values generalizing params with
  | nil => exact absurd ⟨fun _ hc => (nomatch hc), fun _ hc => nomatch hc⟩ h
  | cons e values ih =>
      obtain ⟨column, v⟩ := e
      obtain ⟨hnew, hrest⟩ := List.nodup_cons.mp hnodup
      rw [List.map_cons, separate_cons hnew v] at h
      rw [assignments]
      cases htaken : params.contains (assignmentKey column) with
      | true => exact ⟨column, List.mem_cons_self, rfl⟩
      | false =>
          obtain ⟨other, hother, herror⟩ := ih hrest fun hsep => h ⟨htaken, hsep⟩
          refine ⟨other, List.mem_cons_of_mem _ hother, ?_⟩
          simp only [Bool.false_eq_true, if_false, herror]
          rfl

/-! ## The statement -/

/-- The update of the query's rows that sets the columns of a record behind what is written already:
it binds the names of the query with their values there, the names of the columns with the record's
values, and no others. -/
structure Sets (q : Select) (written : List String) (values : Record) (tag : String)
    (stmt : Statement) : Prop where
  sql : stmt.sql = "UPDATE " ++ q.table ++ " SET "
    ++ ", ".intercalate (written ++ assignmentTexts values.keys) ++ q.whereClause
  kept : ∀ name v, q.params.get? name = some v → stmt.params.get? name = some v
  assigned : ∀ column v, values.get? column = some v →
    stmt.params.get? (assignmentKey column) = some v
  nothingElse : ∀ name, stmt.params.contains name = true →
    q.params.contains name = true ∨ ∃ column ∈ values.keys, name = assignmentKey column
  origin : stmt.tag = tag ∧ stmt.table = some q.table

variable {q : Select} {written : List String} {values : Record} {tag : String}

theorem mem_namedValues {name : String} :
    name ∈ (namedValues values.entries).map Prod.fst
      ↔ ∃ column ∈ values.keys, name = assignmentKey column := by
  simp only [namedValues, SortedMap.keys, List.map_map, List.mem_map]
  constructor
  · rintro ⟨e, he, rfl⟩
    exact ⟨e.1, ⟨e, he, rfl⟩, rfl⟩
  · rintro ⟨_, ⟨e, he, rfl⟩, rfl⟩
    exact ⟨e, he, rfl⟩

/-- A name of the query is no name for a new value, so it is not written to. -/
theorem get?_insertAll_of_get? (h : Separate q.params values.keys) {name : String} {v : Value}
    (hv : q.params.get? name = some v) :
    (q.params.insertAll (namedValues values.entries)).get? name = some v := by
  have hother : name ∉ (namedValues values.entries).map Prod.fst := by
    rw [mem_namedValues]
    rintro ⟨column, hcolumn, rfl⟩
    have hfree := h.free column hcolumn
    rw [SortedMap.contains, hv] at hfree
    exact Bool.false_ne_true hfree.symm
  rw [SortedMap.get?_insertAll_of_not_mem _ hother, hv]

/-- A column's value stands under its name, since no other column has that name. -/
theorem get?_insertAll_assignmentKey (h : Separate q.params values.keys) {column : String}
    {v : Value} (hv : values.get? column = some v) :
    (q.params.insertAll (namedValues values.entries)).get? (assignmentKey column) = some v := by
  have hcolumn : column ∈ values.keys := List.mem_map_of_mem (SortedMap.mem_entries_iff.mpr hv)
  refine SortedMap.get?_insertAll_eq_some _ (mem_namedValues.mpr ⟨column, hcolumn, rfl⟩) ?_
  intro p hp hkey
  obtain ⟨e, he, rfl⟩ := List.mem_map.mp hp
  have heq : e.1 = column := h.own e.1 (List.mem_map_of_mem he) column hcolumn hkey
  have hvalue : values.get? e.1 = some e.2 := SortedMap.mem_entries_iff.mp he
  rw [heq, hv] at hvalue
  exact (Option.some.inj hvalue).symm

theorem updateStatement_of_separate (written : List String) (tag : String)
    (h : Separate q.params values.keys) :
    ∃ stmt, q.updateStatement written values tag = .ok stmt ∧ q.Sets written values tag stmt := by
  let sql := "UPDATE " ++ q.table ++ " SET "
    ++ ", ".intercalate (written ++ assignmentTexts values.keys) ++ q.whereClause
  refine ⟨q.statement sql (q.params.insertAll (namedValues values.entries)) tag, ?_, ?_⟩
  · rw [updateStatement, assignments_of_separate values.nodup_keys h]
    rfl
  · refine ⟨rfl, fun _ _ => get?_insertAll_of_get? h, fun _ _ => get?_insertAll_assignmentKey h, ?_,
      rfl, rfl⟩
    intro name hname
    exact (SortedMap.contains_insertAll.mp hname).symm.imp_right mem_namedValues.mp

theorem updateStatement_of_not_separate (written : List String) (tag : String)
    (h : ¬ Separate q.params values.keys) :
    ∃ column ∈ values.keys, q.updateStatement written values tag
      = .error (.validation (.assignmentTaken (assignmentKey column) column)) := by
  obtain ⟨column, hcolumn, herror⟩ := assignments_of_not_separate values.nodup_keys h
  exact ⟨column, hcolumn, by rw [updateStatement, herror]; rfl⟩

theorem sets_of_updateStatement {stmt : Statement}
    (h : q.updateStatement written values tag = .ok stmt) :
    Separate q.params values.keys ∧ q.Sets written values tag stmt := by
  by_cases hseparate : Separate q.params values.keys
  · obtain ⟨stmt', hstmt, hsets⟩ := updateStatement_of_separate written tag hseparate
    rw [h] at hstmt
    cases hstmt
    exact ⟨hseparate, hsets⟩
  · obtain ⟨column, -, herror⟩ := updateStatement_of_not_separate written tag hseparate
    rw [h] at herror
    exact nomatch herror

/-! ## Updates and increments -/

/-- The action hands in the update for execution if the new values can stand beside those of the
query.  If not it fails for one of the columns, and the session is as it was: the client was asked
for nothing. -/
def SetsApart (q : Select) (db : Database σ) (written : List String) (values : Record)
    (tag : String) (a : Action σ Nat) : Prop :=
  (Separate q.params values.keys → ∃ stmt, q.Sets written values tag stmt ∧ a = db.execute stmt) ∧
  (¬ Separate q.params values.keys → ∃ column ∈ values.keys, ∀ s,
    a.run s = (.error (.validation (.assignmentTaken (assignmentKey column) column)), s))

theorem setsApart_execute (db : Database σ) :
    q.SetsApart db written values tag
      (settle (q.updateStatement written values tag) >>= db.execute) := by
  constructor
  · intro h
    obtain ⟨stmt, hstmt, hsets⟩ := updateStatement_of_separate written tag h
    exact ⟨stmt, hsets, by rw [hstmt]; rfl⟩
  · intro h
    obtain ⟨column, hcolumn, herror⟩ := updateStatement_of_not_separate written tag h
    exact ⟨column, hcolumn, fun s => by rw [herror]; rfl⟩

/-- **New values and those of the condition are kept apart.**  An update and an increment, whatever
the columns, bind their values exactly if no two of the columns have one name and none of the names
is a name of the query's; otherwise they fail as invalid and nothing is sent.  In what is handed in
every name of the query has its value, the name of every column set has that column's value, there
are no other names, and the columns are set in ascending order, each once, behind the increment. -/
theorem assignments_keep_apart (db : Database σ) (q : Select) (values : Record) :
    (values.isEmpty = false → q.SetsApart db [] values "update" (q.update db values)) ∧
    ∀ column amount,
      q.SetsApart db [incrementText column amount] values "increment"
        (q.increment db column amount values) ∧
      q.SetsApart db [incrementText column (saturatingNeg amount)] values "increment"
        (q.decrement db column amount values) := by
  refine ⟨fun hvalues => ?_, fun column amount => ⟨setsApart_execute db, setsApart_execute db⟩⟩
  have hupdate : q.update db values
      = (settle (q.updateStatement [] values "update") >>= db.execute) := by
    rw [update, hvalues]
    rfl
  rw [hupdate]
  exact setsApart_execute db

/-- A condition on the column that is set does not meet its new value, but one on a column that is
named like the placeholder for it does, and so do two columns that differ in a point only. -/
theorem assignments_beside_conditions :
    let db : Database Unit := ⟨.accepting, {}, fun _ => none⟩
    let q := db.build "t" [.condition (.equality .and "a" (.int 1))]
    let taken := db.build "t" [.condition (.equality .and "set_a" (.int 1))]
    let values : Record := .ofList [("b.c", .text "x"), ("a", .int 2)]
    let meeting : Record := .ofList [("b.c", .int 2), ("b_c", .int 3)]
    (∃ stmt, stmt.sql = "UPDATE t SET a = :set_a, b.c = :set_b_c WHERE a = :a" ∧
      stmt.params.get? "a" = some (.int 1) ∧ stmt.params.get? "set_a" = some (.int 2) ∧
      q.update db values = db.execute stmt) ∧
    (∃ column ∈ values.keys, ∀ s, (taken.update db values).run s
      = (.error (.validation (.assignmentTaken (assignmentKey column) column)), s)) ∧
    ∃ column ∈ meeting.keys, ∀ s, (q.increment db "n" 1 meeting).run s
      = (.error (.validation (.assignmentTaken (assignmentKey column) column)), s) := by
  intro db q taken values meeting
  have hseparate : Separate q.params values.keys :=
    ⟨by decide +kernel, by decide +kernel⟩
  have htaken : ¬ Separate taken.params values.keys := by
    intro h
    have hfree := h.free "a" (by decide +kernel)
    exact absurd hfree (by decide +kernel)
  have hmeeting : ¬ Separate q.params meeting.keys := by
    intro h
    have hsame := h.own "b.c" (by decide +kernel) "b_c" (by decide +kernel) (by decide +kernel)
    exact absurd hsame (by decide)
  refine ⟨?_, ?_, ?_⟩
  · obtain ⟨stmt, hsets, hupdate⟩ :=
      ((assignments_keep_apart db q values).1 (by decide +kernel)).1 hseparate
    refine ⟨stmt, ?_, hsets.kept "a" (.int 1) rfl, hsets.assigned "a" (.int 2) rfl, hupdate⟩
    rw [hsets.sql]
    decide +kernel
  · exact ((assignments_keep_apart db taken values).1 (by decide +kernel)).2 htaken
  · exact ((assignments_keep_apart db q meeting).2 "n" 1).1.2 hmeeting

end Select

end SqlBuilder
