import SqlBuilder.Proofs.Database.Assignment
import SqlBuilder.Proofs.Database.Insertion
import SqlBuilder.Proofs.Database.Refusal
import SqlBuilder.Proofs.Select.Rendering

/-!
# Whose values a clause is sent with

Reading and deleting rows, updating them and incrementing a column put one clause into different
statements.  A placeholder of the clause stands for what the query has bound to its name, and if it
has bound nothing the operation is meant to be refused.  An update has names of its own in the same
map, so they may happen to be the ones that the clause lacks: it is sent with the new values in the
place of the missing ones exactly if they complete the clause (`clause_resolved_alone_iff`), and a
condition that nothing can be read or deleted by selects rows to be changed
(`assignment_completes_clause`).
-/

namespace SqlBuilder

open Placeholder

variable {σ α : Type}

/-! ## A clause between two texts -/

/-- Names that end a text are still met if the text goes on behind them. -/
theorem mem_names_scan_of_mem_finish {m : Mode} {tail : String} (htail : Continues tail)
    {name : String} (h : name ∈ names (finish m)) : name ∈ names (scan m tail.toList) := by
  cases m with
  | code | quoted | colon => exact nomatch h
  | name letters =>
      rw [scan_continues (outside_iff.mpr rfl) htail, names_append]
      exact List.mem_append_left _ h

/-- The names of a clause are met between two texts, of which the first closes its quotes. -/
theorem mem_names_between {head clause tail : String} (hhead : Closes head)
    (hclause : Continues clause) (htail : Continues tail) {name : String}
    (h : name ∈ names (pieces clause)) : name ∈ names (pieces (head ++ clause ++ tail)) := by
  rw [String.append_assoc, pieces_append hhead (hclause.append htail), names_append]
  refine List.mem_append_right _ ?_
  -- the clause may leave a quote open or end in a name, but it is scanned from the start
  rw [pieces, scan, names_append] at h
  rw [pieces, String.toList_append, scan_append, names_append]
  rcases List.mem_append.mp h with h | h
  · exact List.mem_append_left _ h
  · exact List.mem_append_right _ (mem_names_scan_of_mem_finish htail h)

namespace Select

/-- The names of the placeholders in the query's clause. -/
def clauseNames (q : Select) : List String := names (pieces q.whereClause)

/-- What stands before the clause where rows are read. -/
def readHead (q : Select) : String :=
  "SELECT " ++ q.distinctClause ++ q.columnsClause ++ " FROM " ++ q.table ++ q.joinsClause

/-- What stands behind the clause where rows are read. -/
def readTail (q : Select) : String :=
  q.havingClause ++ q.groupByClause ++ q.orderByClause ++ q.limitClause ++ q.offsetClause

/-- What stands before the clause where columns are set. -/
def updateHead (q : Select) (written columns : List String) : String :=
  "UPDATE " ++ q.table ++ " SET " ++ ", ".intercalate (written ++ assignmentTexts columns)

theorem render_eq_around (q : Select) : q.render = q.readHead ++ q.whereClause ++ q.readTail := by
  unfold render readHead readTail
  simp only [String.append_assoc]

/-- A clause that may be missing. -/
theorem continues_ite {p : Prop} [Decidable p] {keyword : String} (hkeyword : IsDivider keyword)
    (s : String) : Continues (if p then "" else keyword ++ s) := by
  split
  · exact isClause_empty.continues
  · exact hkeyword.continues_append s

theorem continues_whereClause (q : Select) : Continues q.whereClause :=
  continues_ite (by decide +kernel) _

theorem continues_readTail (q : Select) : Continues q.readTail := by
  have hhaving : Continues q.havingClause := continues_ite (by decide +kernel) _
  have hgroup : Continues q.groupByClause := continues_ite (by decide +kernel) _
  have horder : Continues q.orderByClause := continues_ite (by decide +kernel) _
  have hlimit := (isClause_limitClause q).continues
  have hoffset := (isClause_offsetClause q).continues
  exact (((hhaving.append hgroup).append horder).append hlimit).append hoffset

end Select

namespace Ending

/-- The texts before and behind the query's clause, where an operation writes it as it is. -/
def around (q : Select) : Ending → Option (String × String)
  | @get _ _ => some (q.readHead, q.readTail)
  | @getFirst _ _ => some (q.readHead, q.readTail)
  | @first _ _ => some (q.readHead, (q.setLimit 1).readTail)
  | @value _ _ column => some ({ q with columns := [column] }.readHead, (q.setLimit 1).readTail)
  | .update values => some (q.updateHead [] values.keys, "")
  | .increment column amount values =>
    some (q.updateHead [Select.incrementText column amount] values.keys, "")
  | .decrement column amount values =>
    some (q.updateHead [Select.incrementText column (Select.saturatingNeg amount)] values.keys, "")
  | .delete => some ("DELETE FROM " ++ q.table, "")
  | _ => none

/-- The columns that an operation on the query's rows sets. -/
def assigned : Ending → List String
  | .update values => values.keys
  | .increment _ _ values => values.keys
  | .decrement _ _ values => values.keys
  | _ => []

theorem continues_of_around {q : Select} {e : Ending} {head tail : String}
    (h : e.around q = some (head, tail)) : Continues tail := by
  cases e with
  | get | getFirst => cases h; exact q.continues_readTail
  | first | value => cases h; exact (q.setLimit 1).continues_readTail
  | update | increment | decrement | delete => cases h; exact Select.isClause_empty.continues
  | find | findBy | insertAll | upsert => exact nomatch h

end Ending

/-! ## Statements with the clause -/

namespace Select

/-- The statement is the template, and it binds the query's names with their values there, those of
the columns that are set, and no others. -/
structure Fills (q : Select) (template : String) (columns : List String) (stmt : Statement) :
    Prop where
  sql : stmt.sql = template
  kept : ∀ name v, q.params.get? name = some v → stmt.params.get? name = some v
  contains_iff : ∀ name, stmt.params.contains name = true ↔
    q.params.contains name = true ∨ ∃ column ∈ columns, name = assignmentKey column

variable {q : Select} {template : String} {columns : List String} {stmt : Statement}

theorem fills_of_params_eq (hsql : stmt.sql = template) (hparams : stmt.params = q.params) :
    q.Fills template [] stmt where
  sql := hsql
  kept name v hv := hparams ▸ hv
  contains_iff name := by simp [hparams]

theorem Sets.fills {written : List String} {values : Record} {tag : String}
    (h : q.Sets written values tag stmt) :
    q.Fills (q.updateHead written values.keys ++ q.whereClause ++ "") values.keys stmt where
  sql := h.sql.trans String.append_empty.symm
  kept := h.kept
  contains_iff name := by
    refine ⟨h.nothingElse name, ?_⟩
    rintro (hname | ⟨column, hcolumn, rfl⟩)
    · obtain ⟨v, hv⟩ := Option.isSome_iff_exists.mp hname
      exact Option.isSome_iff_exists.mpr ⟨v, h.kept name v hv⟩
    · obtain ⟨v, hv⟩ :=
        Option.isSome_iff_exists.mp (SortedMap.contains_iff_mem_keys.mpr hcolumn)
      exact Option.isSome_iff_exists.mpr ⟨v, h.assigned column v hv⟩

theorem separate_nil (params : Bindings) : Separate params [] :=
  ⟨fun _ hc => (nomatch hc), fun _ hc => nomatch hc⟩

/-- A plan for one statement that fills the template.  It is invalid if it sets columns that cannot
stand beside the query's values, or if it should set some and there are none. -/
inductive FillsPlan (q : Select) (template : String) (columns : List String) : Plan → Prop
  | written {stmt : Statement} : Separate q.params columns → q.Fills template columns stmt →
    FillsPlan q template columns (.single (.ok stmt))
  | invalid {issue : ValidationIssue} : (Separate q.params columns → columns = []) →
    FillsPlan q template columns (.single (.error (.validation issue)))

theorem fillsPlan_of_params_eq (hsql : stmt.sql = template) (hparams : stmt.params = q.params) :
    q.FillsPlan template [] (.single (.ok stmt)) :=
  .written (separate_nil _) (fills_of_params_eq hsql hparams)

theorem fillsPlan_updateStatement (q : Select) (written : List String) (values : Record)
    (tag : String) :
    q.FillsPlan (q.updateHead written values.keys ++ q.whereClause ++ "") values.keys
      (.single (q.updateStatement written values tag)) := by
  by_cases hseparate : Separate q.params values.keys
  · obtain ⟨stmt, hstmt, hsets⟩ := updateStatement_of_separate written tag hseparate
    rw [hstmt]
    exact .written hseparate hsets.fills
  · obtain ⟨column, -, herror⟩ := updateStatement_of_not_separate written tag hseparate
    rw [herror]
    exact .invalid fun h => absurd h hseparate

theorem fillsPlan_recordUpdate (q : Select) (values : Record) :
    q.FillsPlan (q.updateHead [] values.keys ++ q.whereClause ++ "") values.keys
      (.single (q.recordUpdate values)) := by
  unfold recordUpdate
  split
  · next hvalues =>
    refine .invalid fun _ => ?_
    rw [SortedMap.keys, List.isEmpty_iff.mp hvalues]
    rfl
  · exact q.fillsPlan_updateStatement [] values "update"

end Select

/-- An operation that writes the query's clause is about one statement, in which the clause stands
between its texts. -/
theorem Ending.fillsPlan_of_around {q : Select} {e : Ending} {head tail : String}
    (h : e.around q = some (head, tail)) (keyColumn : Option String) :
    q.FillsPlan (head ++ q.whereClause ++ tail) e.assigned (e.plan q keyColumn) := by
  cases e with
  | get => cases h; exact Select.fillsPlan_of_params_eq q.render_eq_around rfl
  | getFirst => cases h; exact Select.fillsPlan_of_params_eq q.render_eq_around rfl
  | first => cases h; exact Select.fillsPlan_of_params_eq (q.setLimit 1).render_eq_around rfl
  | value α column =>
      cases h
      let one : Select := { q with columns := [column] }.setLimit 1
      exact Select.fillsPlan_of_params_eq one.render_eq_around rfl
  | update values => cases h; exact q.fillsPlan_recordUpdate values
  | increment => cases h; exact q.fillsPlan_updateStatement _ _ _
  | decrement => cases h; exact q.fillsPlan_updateStatement _ _ _
  | delete => cases h; exact Select.fillsPlan_of_params_eq String.append_empty.symm rfl
  | find | findBy | insertAll | upsert => exact nomatch h

/-! ## Placeholders and their values -/

theorem OneAttempt.eq_of_unwritten {e : DatabaseError} {Misread : DatabaseError → Prop}
    {y : Except DatabaseError α} {calls : List Exchange} {attempts : List Attempt}
    (h : OneAttempt (.error e) Misread y calls attempts) : y = .error e ∧ calls = [] := by
  cases h with
  | unwritten he =>
      cases he
      exact ⟨rfl, rfl⟩
  | failed hstmt => exact nomatch hstmt
  | answered hstmt => exact nomatch hstmt

/-- A statement that was handed in is refused for a placeholder without value, or it is sent. -/
theorem OneAttempt.refused_or_sent {stmt : Statement} {Misread : DatabaseError → Prop}
    {y : Except DatabaseError α} {calls : List Exchange} {attempts : List Attempt}
    (h : OneAttempt (.ok stmt) Misread y calls attempts) :
    (∃ e, numberParameters stmt.sql stmt.params = .error e ∧ y = .error e ∧ calls = []) ∨
      ∃ p, numberParameters stmt.sql stmt.params = .ok p ∧ calls ≠ [] ∧
        sentStatements calls = [p] := by
  have hsent : ∀ (p : NumberedStatement) fetch answer,
      sentStatements [⟨p.request fetch, answer⟩] = [p] := by
    intro p fetch answer
    cases fetch <;> rfl
  cases h with
  | unwritten he => exact nomatch he
  | @failed a e hstmt herror =>
      cases hstmt
      cases a with
      | refused stmt e' hnumber =>
          cases herror
          exact .inl ⟨_, hnumber, rfl, rfl⟩
      | sent stmt p hnumber fetch answer =>
          exact .inr ⟨p, hnumber, List.cons_ne_nil _ _, hsent p fetch answer⟩
  | @answered a _ hstmt hnone _ =>
      cases hstmt
      cases a with
      | refused stmt e' hnumber => exact nomatch hnone
      | sent stmt p hnumber fetch answer =>
          exact .inr ⟨p, hnumber, List.cons_ne_nil _ _, hsent p fetch answer⟩

namespace Select

/-- The query's clause is resolved by the query's values alone: the operation fails as invalid without
any call if one of the clause's placeholders has no value there, and in everything that it sends each
of them has the index of the value that it has there. -/
structure ResolvesAlone (q : Select) (template : String) (y : Except DatabaseError α)
    (calls : List Exchange) : Prop where
  refused : (∃ name ∈ q.clauseNames, q.params.contains name = false) →
    calls = [] ∧ ∃ issue, y = .error (.validation issue)
  carried : ∀ sent ∈ sentStatements calls, sent.sql = fill (indexText template) template ∧
    ∀ name ∈ q.clauseNames,
      sent.values[indexOf (pieces template) name - 1]? = q.params.get? name

/-- New values for the columns stand in for values that the query's clause lacks. -/
structure Completes (q : Select) (template : String) (columns : List String) : Prop where
  lacking : ∃ name ∈ q.clauseNames, q.params.contains name = false
  separate : Separate q.params columns
  complete : ∀ name ∈ names (pieces template),
    q.params.contains name = true ∨ ∃ column ∈ columns, name = assignmentKey column

variable {q : Select} {template : String} {columns : List String}

/-- They are values for columns that the clause has a placeholder for. -/
theorem Completes.exists_mem (h : q.Completes template columns)
    (hnames : ∀ name ∈ q.clauseNames, name ∈ names (pieces template)) :
    ∃ column ∈ columns, assignmentKey column ∈ q.clauseNames := by
  obtain ⟨name, hname, hlacking⟩ := h.lacking
  rcases h.complete name (hnames name hname) with hbound | ⟨column, hcolumn, rfl⟩
  · rw [hlacking] at hbound
    exact absurd hbound Bool.false_ne_true
  · exact ⟨column, hcolumn, hname⟩

theorem resolvesAlone_of_error {issue : ValidationIssue} :
    q.ResolvesAlone template (.error (.validation issue) : Except DatabaseError α) [] :=
  ⟨fun _ => ⟨rfl, issue, rfl⟩, fun _ h => nomatch h⟩

/-- One statement that is handed in with new values beside the query's. -/
theorem Fills.resolvesAlone_iff {stmt : Statement} {Misread : DatabaseError → Prop}
    {y : Except DatabaseError α} {calls : List Exchange} {attempts : List Attempt}
    (hfills : q.Fills template columns stmt) (hseparate : Separate q.params columns)
    (hnames : ∀ name ∈ q.clauseNames, name ∈ names (pieces template))
    (h : OneAttempt (.ok stmt) Misread y calls attempts) :
    q.ResolvesAlone template y calls ↔ ¬ q.Completes template columns := by
  have hsql := hfills.sql
  rcases h.refused_or_sent with ⟨e, hnumber, rfl, rfl⟩ | ⟨p, hnumber, hcalls, hsent⟩
  · -- a name is without value in the statement, so the new values do not complete the clause
    rw [hsql] at hnumber
    obtain ⟨name, hfind, rfl⟩ := numberParameters_eq_error_iff.mp hnumber
    refine iff_of_true resolvesAlone_of_error fun hcompletes => ?_
    have hbound := (hfills.contains_iff name).mpr
      (hcompletes.complete name (List.mem_of_find?_eq_some hfind))
    have hfound := List.find?_some hfind
    rw [hbound] at hfound
    exact Bool.false_ne_true hfound
  · rw [hsql] at hnumber
    have hnumbers := numberParameters_eq_ok_iff.mp hnumber
    have hall := exists_numberParameters_eq_ok_iff.mp ⟨p, hnumber⟩
    constructor
    · intro hresolves hcompletes
      exact hcalls (hresolves.refused hcompletes.lacking).1
    · intro hcompletes
      -- everything in the statement has a value, so nothing of the clause lacks one in the query
      have hbound : ∀ name ∈ q.clauseNames, q.params.contains name = true := by
        intro name hname
        by_contra hlacking
        exact hcompletes ⟨⟨name, hname, Bool.not_eq_true _ ▸ hlacking⟩, hseparate,
          fun other hother => (hfills.contains_iff other).mp (hall other hother)⟩
      constructor
      · rintro ⟨name, hname, hlacking⟩
        rw [hbound name hname] at hlacking
        exact absurd hlacking.symm Bool.false_ne_true
      · intro sent hmem
        rw [hsent, List.mem_singleton] at hmem
        subst hmem
        refine ⟨hnumbers.sql_eq, fun name hname => ?_⟩
        obtain ⟨v, hv⟩ := Option.isSome_iff_exists.mp (hbound name hname)
        rw [getElem?_values hnumbers (hnames name hname), hfills.kept name v hv, hv]

/-- The outcome of a plan for one such statement. -/
theorem FillsPlan.resolvesAlone_iff {plan : Plan} {Misread : DatabaseError → Prop}
    {y : Except DatabaseError α} {calls : List Exchange} {attempts : List Attempt}
    (hplan : q.FillsPlan template columns plan)
    (hnames : ∀ name ∈ q.clauseNames, name ∈ names (pieces template))
    (h : plan.Fits Misread y calls attempts) :
    q.ResolvesAlone template y calls ↔ ¬ q.Completes template columns := by
  cases hplan with
  | written hseparate hfills => exact hfills.resolvesAlone_iff hseparate hnames h
  | invalid hnone =>
      obtain ⟨rfl, rfl⟩ := OneAttempt.eq_of_unwritten h
      refine iff_of_true resolvesAlone_of_error fun hcompletes => ?_
      obtain ⟨column, hcolumn, -⟩ := hcompletes.exists_mem hnames
      rw [hnone hcompletes.separate] at hcolumn
      exact absurd hcolumn List.not_mem_nil

end Select

/-! ## The theorem -/

/-- **A clause is resolved by the query's values alone unless new values complete it.**  Take any
operation that writes the query's clause as it is, behind a text that closes its quotes.  A
placeholder of the clause without value in the query makes it fail as invalid, without a call, and
whatever it sends has the query's value for each of them, exactly if the operation does not set
columns whose names for new values can be bound and are all that is missing.  It never does where
none of these names is used in the clause, so reading and deleting rows resolve it that way, whatever
it is. -/
theorem clause_resolved_alone_iff (db : Database σ) (q : Select) (e : Ending) (head tail : String)
    (s : Session σ) (haround : e.around q = some (head, tail)) (hhead : Closes head) :
    let template := head ++ q.whereClause ++ tail
    let result := ((e.run q db.recorded).run s.recorded).1
    let calls := callsOf (e.run q db.recorded) s
    (q.ResolvesAlone template result calls ↔ ¬ q.Completes template e.assigned) ∧
      ((∀ column ∈ e.assigned, Select.assignmentKey column ∉ q.clauseNames) →
        q.ResolvesAlone template result calls) := by
  intro template result calls
  have hnames : ∀ name ∈ q.clauseNames, name ∈ names (pieces template) := fun name hname =>
    mem_names_between hhead q.continues_whereClause (Ending.continues_of_around haround) hname
  have hiff : q.ResolvesAlone template result calls ↔ ¬ q.Completes template e.assigned := by
    obtain ⟨own, attempts, haccount, hfits⟩ := e.goes db.recorded q s.recorded
    have hcalls : calls = own := haccount.client.of_recorded.2
    rw [hcalls]
    exact (Ending.fillsPlan_of_around haround _).resolvesAlone_iff hnames hfits
  refine ⟨hiff, fun hunused => hiff.mpr fun hcompletes => ?_⟩
  obtain ⟨column, hcolumn, hname⟩ := hcompletes.exists_mem hnames
  exact hunused column hcolumn hname

/-- A condition that lacks a value.  New values under other names leave it lacking, so the update and
the increment are refused just as the deletion is. -/
theorem clause_lacking_a_value_is_refused :
    let db : Database Unit := ⟨.accepting, {}, fun _ => none⟩
    let q := db.build "t"
      [.condition (.equality .and "a" (.int 1)), .condition (.raw .and "b = :set_c" [])]
    let values : Record := .ofList [("b", .int 2), ("d.c", .int 3)]
    let s : Session Unit := .new {} ()
    (∃ name ∈ q.clauseNames, q.params.contains name = false) ∧
      ∀ e ∈ [Ending.delete, .update values, .increment "n" 1 values],
        callsOf (e.run q db.recorded) s = [] ∧
          ∃ issue, ((e.run q db.recorded).run s.recorded).1 = .error (.validation issue) := by
  intro db q values s
  have hlacking : ∃ name ∈ q.clauseNames, q.params.contains name = false :=
    ⟨"set_c", by decide +kernel, by decide +kernel⟩
  have hdelete := (clause_resolved_alone_iff db q .delete _ _ s rfl (by decide +kernel)).2
    (by decide +kernel)
  have hupdate := (clause_resolved_alone_iff db q (.update values) _ _ s rfl (by decide +kernel)).2
    (by decide +kernel)
  have hincrement := (clause_resolved_alone_iff db q (.increment "n" 1 values) _ _ s rfl
    (by decide +kernel)).2 (by decide +kernel)
  refine ⟨hlacking, ?_⟩
  simp only [List.forall_mem_cons]
  exact ⟨hdelete.refused hlacking, hupdate.refused hlacking, hincrement.refused hlacking,
    fun _ h => nomatch h⟩

/-- The condition `a = :set_b` lacks a value, so its rows cannot be read or deleted.  Setting `b`
binds one by accident, and the rows with `a = 1` are changed. -/
theorem assignment_completes_clause :
    let db : Database Unit := ⟨.accepting, {}, fun _ => none⟩
    let q := db.build "t" [.condition (.raw .and "a = :set_b" [])]
    let values : Record := .ofList [("b", .int 1)]
    let s : Session Unit := .new {} ()
    let texts : Ending → List (String × List String) := fun e =>
      (sentStatements (callsOf (e.run q db.recorded) s)).map fun sent =>
        (sent.sql, sent.values.map Value.literal)
    q.clauseNames = ["set_b"] ∧ q.params.contains "set_b" = false ∧
      callsOf (Ending.delete.run q db.recorded) s = [] ∧
      ((Ending.delete.run q db.recorded).run s.recorded).1
        = .error (.validation (.unboundPlaceholder "set_b")) ∧
      texts (.update values) = [("UPDATE t SET b = $1 WHERE a = $1", ["1"])] ∧
      texts (.increment "n" 1 values)
        = [("UPDATE t SET n = CASE WHEN n >= 0 THEN n + 1 ELSE 0 END, b = $1 WHERE a = $1",
          ["1"])] ∧
      ¬ q.ResolvesAlone "UPDATE t SET b = :set_b WHERE a = :set_b"
        (((Ending.update values).run q db.recorded).run s.recorded).1
        (callsOf ((Ending.update values).run q db.recorded) s) := by
  intro db q values s texts
  have hnames : q.clauseNames = ["set_b"] := by decide +kernel
  have hlacking : q.params.contains "set_b" = false := by decide +kernel
  have hsent : texts (.update values) = [("UPDATE t SET b = $1 WHERE a = $1", ["1"])] := by
    decide +kernel
  have hdelete : (callsOf (Ending.delete.run q db.recorded) s).length = 0 := by decide +kernel
  refine ⟨hnames, hlacking, List.length_eq_zero_iff.mp hdelete, by decide +kernel, hsent,
    by decide +kernel, fun hresolves => ?_⟩
  have hnone := (hresolves.refused ⟨"set_b", hnames ▸ List.mem_cons_self, hlacking⟩).1
  have hempty : texts (.update values) = [] := by
    show (sentStatements (callsOf ((Ending.update values).run q db.recorded) s)).map _ = []
    rw [hnone]
    rfl
  rw [hsent] at hempty
  exact absurd hempty (List.cons_ne_nil _ _)

end SqlBuilder
