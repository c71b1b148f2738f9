import SqlBuilder.Proofs.Database.InsertStatement
import SqlBuilder.Proofs.Database.UnitOfWork

/-!
# Which value an insertion writes to which column

An insertion sends the statements of its records in order, as far as it comes
(`sentStatements_of_unitOfWork`).  Each of them writes the record's own values to its columns unless
two columns share a placeholder, in which case they share a parameter too and one of the two values
is lost without an error (`colliding_columns_share_a_parameter`).
-/

namespace SqlBuilder

open Placeholder

variable {σ : Type}

/-! ## The statements among calls -/

/-- The statements that were sent, in order. -/
def sentStatements (calls : List Exchange) : List NumberedStatement :=
  calls.filterMap fun x =>
    match x.request with
    | .query sql values => some ⟨sql, values⟩
    | .execute sql values => some ⟨sql, values⟩
    | _ => none

theorem sentStatements_append (calls more : List Exchange) :
    sentStatements (calls ++ more) = sentStatements calls ++ sentStatements more :=
  List.filterMap_append

section StatementsOfItems

variable {ι α : Type} {request : ι → Except DatabaseError Request}
  {read : Answer → Except DatabaseError α} {P : ι → NumberedStatement → Prop}

/-- What is asked for an item is one statement, and it is the item's as `P` says. -/
def AsksStatement (request : ι → Except DatabaseError Request)
    (P : ι → NumberedStatement → Prop) : Prop :=
  ∀ item r answer, request item = .ok r → ∃ sent, sentStatements [⟨r, answer⟩] = [sent] ∧ P item sent

/-- An item has at most one statement, and the one it has is its own. -/
theorem sentStatements_of_oneCall (hrequest : AsksStatement request P) {item : ι}
    {result : Except DatabaseError α} {calls : List Exchange}
    (h : OneCall request read item result calls) :
    (sentStatements calls = [] ∧ ∃ e, result = .error e) ∨
      ∃ sent, sentStatements calls = [sent] ∧ P item sent := by
  cases h with
  | refused h => exact .inl ⟨rfl, _, rfl⟩
  | failed h => exact .inr (hrequest _ _ _ h)
  | answered h _ => exact .inr (hrequest _ _ _ h)

theorem sentStatements_of_completed (hrequest : AsksStatement request P) {items : List ι}
    {results : List α} {calls : List Exchange}
    (h : Completed (OneCall request read) items results calls) :
    List.Forall₂ P items (sentStatements calls) := by
  induction h with
  | nil => exact .nil
  | cons hone _ ih =>
      rw [sentStatements_append]
      rcases sentStatements_of_oneCall hrequest hone with ⟨-, e, he⟩ | ⟨sent, hsent, hP⟩
      · exact nomatch he
      · rw [hsent]
        exact .cons hP ih

/-- The statements of a unit of work are those of the first items, in order. -/
theorem sentStatements_of_unitOfWork (hrequest : AsksStatement request P) {items : List ι}
    {result : Except DatabaseError (List α)} {calls : List Exchange}
    (h : UnitOfWork (OneCall request read) items result calls) :
    ∃ first rest, items = first ++ rest ∧ List.Forall₂ P first (sentStatements calls) := by
  cases h with
  | unopened => exact ⟨[], items, rfl, .nil⟩
  | @stopped k e calls undone hstopped =>
      have hitems : sentStatements (⟨.begin, .ok .done⟩ :: (calls ++ [⟨.rollback, undone⟩]))
          = sentStatements calls := by
        rw [← List.singleton_append, sentStatements_append, sentStatements_append]
        exact List.append_nil _
      rw [hitems]
      cases hstopped with
      | @intro before rest item results done last e hdone hlast =>
          have hfirst := sentStatements_of_completed hrequest hdone
          rw [sentStatements_append]
          -- the item that failed has a statement too, unless it was refused before
          rcases sentStatements_of_oneCall hrequest hlast with ⟨hnone, -⟩ | ⟨sent, hsent, hP⟩
          · refine ⟨before, item :: rest, rfl, ?_⟩
            rwa [hnone, List.append_nil]
          · refine ⟨before ++ [item], rest, (List.append_cons before item rest), ?_⟩
            rw [hsent]
            exact List.rel_append hfirst (.cons hP .nil)
  | @kept results calls hdone =>
      refine ⟨items, [], (List.append_nil items).symm, ?_⟩
      rw [← List.singleton_append, sentStatements_append, sentStatements_append]
      exact (List.append_nil (sentStatements calls)).symm ▸ sentStatements_of_completed hrequest hdone
  | @unkept results calls e undone hdone =>
      refine ⟨items, [], (List.append_nil items).symm, ?_⟩
      rw [← List.singleton_append, sentStatements_append, sentStatements_append]
      exact (List.append_nil (sentStatements calls)).symm ▸ sentStatements_of_completed hrequest hdone

end StatementsOfItems

/-- What is asked for a record is the statement that inserts its values. -/
theorem asksStatement_insertRequest (keyColumn : Option String) (sql : String) :
    AsksStatement (insertRequest keyColumn sql) fun row sent =>
      numberParameters sql (Select.insertBindings row) = .ok sent := by
  intro row r answer hr
  cases hnumber : numberParameters sql (Select.insertBindings row) with
  | error e =>
      rw [insertRequest_of_error hnumber] at hr
      exact nomatch hr
  | ok sent =>
      refine ⟨sent, ?_, hnumber⟩
      by_cases hkey : keyColumn.isSome = true
      · rw [insertRequest_query hkey hnumber] at hr
        cases hr
        rfl
      · rw [insertRequest_execute hkey hnumber] at hr
        cases hr
        rfl

/-- An insertion sends the statements of the first records, in order. -/
theorem statements_of_insertion (db : Database σ) (q : Select) {rows : List Record} {sql : String}
    (s : Session σ) (hrows : rows ≠ [])
    (hsql : q.insertTemplate db.settings.keyColumn rows = .ok sql) :
    ∃ first rest, rows = first ++ rest ∧
      List.Forall₂ (fun row sent => numberParameters sql (Select.insertBindings row) = .ok sent)
        first (sentStatements ((q.insertAll db.recorded rows).run s.recorded).2.client.2) := by
  obtain ⟨-, -, calls, hcalls, result, -, hunit⟩ :=
    Action.Traces.insertAll db q hrows hsql s.recorded
  have hrecord : ((q.insertAll db.recorded rows).run s.recorded).2.client.2 = calls := hcalls
  rw [hrecord]
  exact sentStatements_of_unitOfWork (asksStatement_insertRequest _ sql) hunit

/-! ## The theorem -/

/-- **An insertion writes own values iff no two columns share a placeholder.**  Records that set the
same columns are accepted, the statements sent are those of the first records, in order, and each of
them writes its record's value to every column under a parameter of the column's own exactly when
the placeholders of the columns are distinct and the table's text closes its quotes. -/
theorem insertion_writes_own_values_iff (db : Database σ) (q : Select) (rows : List Record)
    (columns : List String) (s : Session σ) (hrows : rows ≠ [])
    (hkeys : ∀ row ∈ rows, row.keys = columns) (hcolumns : ∀ c ∈ columns, IsIdentifier c) :
    ∃ sql first rest, q.insertTemplate db.settings.keyColumn rows = .ok sql ∧
      rows = first ++ rest ∧
      List.Forall₂ (fun row sent =>
        numberParameters sql (Select.insertBindings row) = .ok sent ∧
          (WritesOwnValues (fill (indexText sql) q.table) columns row sent ↔
            (columns = [] ∨ Closes q.table) ∧ DistinctKeys columns)) first
        (sentStatements ((q.insertAll db.recorded rows).run s.recorded).2.client.2) := by
  have htemplate := insertTemplate_eq q db.settings.keyColumn hrows hkeys
  obtain ⟨first, rest, hsplit, hsent⟩ := statements_of_insertion db q s hrows htemplate
  refine ⟨_, first, rest, htemplate, hsplit, ?_⟩
  have hfirst : ∀ row ∈ first, row.keys = columns := by
    intro row hrow
    refine hkeys row ?_
    rw [hsplit]
    exact List.mem_append_left rest hrow
  refine ((List.forall₂_and_left _ _).mpr ⟨hfirst, hsent⟩).imp ?_
  rintro row sent ⟨hrow, hnumber⟩
  exact ⟨hnumber, writesOwnValues_iff rfl hcolumns hrow hnumber⟩

/-- A record whose columns have placeholders of their own. -/
theorem insertion_of_distinct_columns :
    let db : Database Unit := ⟨.accepting, {}, fun _ => none⟩
    let q : Select := { table := "users" }
    let row : Record := .ofList [("id", .int 1), ("name", .text "Ann")]
    ∃ sent, sentStatements ((q.insertAll db.recorded [row]).run
        (Session.recorded (.new {} ()))).2.client.2 = [sent] ∧
      sent.sql = "INSERT INTO users (id, name) VALUES ($1, $2) RETURNING id" ∧
      WritesOwnValues "users" ["id", "name"] row sent := by
  intro db q row
  have hid : IsIdentifier "id" := .plain (by decide) (by decide +kernel)
  have hname : IsIdentifier "name" := .plain (by decide) (by decide +kernel)
  have htable : Inert "users" := by decide +kernel
  have hdistinct : DistinctKeys ["id", "name"] := by
    unfold DistinctKeys
    decide +kernel
  have hsql : (sentStatements ((q.insertAll db.recorded [row]).run
      (Session.recorded (.new {} ()))).2.client.2).map (·.sql)
      = ["INSERT INTO users (id, name) VALUES ($1, $2) RETURNING id"] := by decide +kernel
  obtain ⟨sent, hcalls, hsent⟩ := List.map_eq_singleton_iff.mp hsql
  obtain ⟨sql, first, rest, -, hrows, hwrites⟩ := insertion_writes_own_values_iff db q [row]
    ["id", "name"] (.new {} ()) (List.cons_ne_nil row [])
    (fun r hr => by rw [List.mem_singleton.mp hr]; rfl) (by simp [hid, hname])
  rw [hcalls] at hwrites
  obtain ⟨r, first', ⟨-, hiff⟩, -, rfl⟩ := List.forall₂_cons_right_iff.mp hwrites
  obtain rfl : row = r := (List.cons_eq_cons.mp hrows).1
  rw [htable.fill] at hiff
  exact ⟨sent, hcalls, hsent, hiff.mpr ⟨.inr htable.closes, hdistinct⟩⟩

/-- Two columns that differ share the placeholder `_a_b_`.  Both are written the value of the one
that is bound last, and no error says so. -/
theorem colliding_columns_share_a_parameter :
    let db : Database Unit := ⟨.accepting, {}, fun _ => none⟩
    let q : Select := { table := "t" }
    let row : Record := .ofList [("\"a b\"", .int 1), ("\"a_b\"", .int 2)]
    (∀ c ∈ row.keys, IsIdentifier c) ∧
      ∃ sent, sentStatements ((q.insertAll db.recorded [row]).run
          (Session.recorded (.new {} ()))).2.client.2 = [sent] ∧
        sent.sql = "INSERT INTO t (\"a b\", \"a_b\") VALUES ($1, $1) RETURNING id" ∧
        sent.values.map Value.literal = ["2"] ∧ ¬ WritesOwnValues "t" row.keys row sent := by
  intro db q row
  have hblank : IsIdentifier "\"a b\"" := .quoted ['a', ' ', 'b']
  have hunderscore : IsIdentifier "\"a_b\"" := .quoted ['a', '_', 'b']
  have htable : Inert "t" := by decide +kernel
  have hkeys : row.keys = ["\"a b\"", "\"a_b\""] := rfl
  have hcolumns : ∀ c ∈ row.keys, IsIdentifier c := by
    rw [hkeys]
    simp [hblank, hunderscore]
  have hsame : ∀ r ∈ [row], r.keys = row.keys := fun r hr => by rw [List.mem_singleton.mp hr]
  have hsql : (sentStatements ((q.insertAll db.recorded [row]).run
      (Session.recorded (.new {} ()))).2.client.2).map
        (fun sent => (sent.sql, sent.values.map Value.literal))
      = [("INSERT INTO t (\"a b\", \"a_b\") VALUES ($1, $1) RETURNING id", ["2"])] := by
    decide +kernel
  obtain ⟨sent, hcalls, hsent⟩ := List.map_eq_singleton_iff.mp hsql
  obtain ⟨htext, hvalues⟩ := Prod.ext_iff.mp hsent
  refine ⟨hcolumns, sent, hcalls, htext, hvalues, fun howns => ?_⟩
  obtain ⟨first, rest, hrows, hnumbers⟩ := statements_of_insertion db q (.new {} ())
    (List.cons_ne_nil row []) (insertTemplate_eq q _ (List.cons_ne_nil row []) hsame)
  rw [hcalls] at hnumbers
  obtain ⟨r, first', hnumber, -, rfl⟩ := List.forall₂_cons_right_iff.mp hnumbers
  obtain rfl : row = r := (List.cons_eq_cons.mp hrows).1
  have hiff := writesOwnValues_iff rfl hcolumns rfl hnumber
  rw [htable.fill] at hiff
  have hdistinct := (hiff.mp howns).2 "\"a b\"" (by rw [hkeys]; simp) "\"a_b\""
    (by rw [hkeys]; simp) (by decide +kernel)
  exact absurd hdistinct (by decide)

end SqlBuilder
