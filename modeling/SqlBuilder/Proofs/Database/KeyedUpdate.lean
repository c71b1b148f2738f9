import SqlBuilder.Proofs.Database.KeyLookup
import SqlBuilder.Proofs.Database.Resolution

/-!
# Updating records within a condition

Records are updated one after the other, each within the condition that was accumulated before: the
equalities of its key columns go behind it, into the same set of names.  So a key column that has the
name of a condition's placeholder takes that placeholder's value away, and the update reaches rows
that the condition excludes.

What is sent for a record is made from the query and that record alone.  The condition keeps its
values and the key columns have those of the record exactly if their names stay apart
(`updates_keep_condition_iff`).
-/

namespace SqlBuilder

open Placeholder

variable {σ α β γ : Type}

namespace Select

/-! ## The values of a record's update -/

/-- The condition's placeholders have the values that they have in the query, and those of the key
columns the values that the record has there. -/
structure KeepsValues (q : Select) (keys : List String) (record : Record) (stmt : Statement) :
    Prop where
  clause : ∀ name ∈ q.clauseNames, stmt.params.get? name = q.params.get? name
  key : ∀ column ∈ keys, stmt.params.get? (keyOf column) = record.get? column

/-- The names stay apart: key columns with one name have one value, one that has the name of a
condition's placeholder has the value that stands there already, and no column that is set has the
name of such a placeholder. -/
structure KeepsApart (q : Select) (keys : List String) (only : Option (List String))
    (record : Record) : Prop where
  key : ∀ c ∈ keys, ∀ d ∈ keys, keyOf c = keyOf d → record.get? c = record.get? d
  clause : ∀ c ∈ keys, keyOf c ∈ q.clauseNames → q.params.get? (keyOf c) = record.get? c
  assignment : ∀ column, SetsColumn keys only record column → assignmentKey column ∉ q.clauseNames

variable {q : Select} {keys : List String} {only : Option (List String)} {record : Record}
  {plan : KeyedUpdate} {stmt : Statement}

/-- The values of the key columns are the record's. -/
theorem Splits.get?_keys (h : Splits keys only record plan) {column : String} {v : Value} :
    plan.keys.get? column = some v ↔ column ∈ keys ∧ record.get? column = some v := by
  rw [h.keys_eq, SortedMap.get?_filterKeys_eq_some_iff, List.contains_iff_mem, and_comm]

/-- The names and values that the equalities of key columns bind. -/
def keyBindings (values : Record) : List (String × Value) :=
  values.entries.map fun e => (keyOf e.1, e.2)

theorem params_addKeys (q : Select) (values : Record) :
    (q.addCondition (.all values.entries)).params = q.params.insertAll (keyBindings values) :=
  Condition.params_addEqualities q.condition values.entries

theorem Splits.mem_keyBindings (h : Splits keys only record plan) {name : String} {v : Value} :
    (name, v) ∈ keyBindings plan.keys ↔
      ∃ column ∈ keys, record.get? column = some v ∧ keyOf column = name := by
  unfold keyBindings
  rw [List.mem_map]
  constructor
  · rintro ⟨⟨column, w⟩, hmem, heq⟩
    obtain ⟨rfl, rfl⟩ := Prod.mk.inj heq
    obtain ⟨hcolumn, hw⟩ := h.get?_keys.mp (SortedMap.mem_entries_iff.mp hmem)
    exact ⟨column, hcolumn, hw, rfl⟩
  · rintro ⟨column, hcolumn, hv, rfl⟩
    exact ⟨(column, v), SortedMap.mem_entries_iff.mpr (h.get?_keys.mpr ⟨hcolumn, hv⟩), rfl⟩

/-- A name that no key column has is bound as it is in the query. -/
theorem Splits.get?_addKeys_of_other (h : Splits keys only record plan) {name : String}
    (hname : ∀ column ∈ keys, keyOf column ≠ name) :
    (q.addCondition (.all plan.keys.entries)).params.get? name = q.params.get? name := by
  rw [q.params_addKeys]
  refine SortedMap.get?_insertAll_of_not_mem _ fun hmem => ?_
  obtain ⟨⟨_, v⟩, hp, rfl⟩ := List.mem_map.mp hmem
  obtain ⟨column, hcolumn, -, heq⟩ := h.mem_keyBindings.mp hp
  exact hname column hcolumn heq

/-- A key column's name has the value of the record there, if others of that name agree. -/
theorem Splits.get?_addKeys_of_key (h : Splits keys only record plan) {column : String}
    (hcolumn : column ∈ keys)
    (hsame : ∀ d ∈ keys, keyOf d = keyOf column → record.get? d = record.get? column) :
    (q.addCondition (.all plan.keys.entries)).params.get? (keyOf column)
      = record.get? column := by
  obtain ⟨v, hv⟩ := Option.isSome_iff_exists.mp (h.contains column hcolumn)
  rw [q.params_addKeys, hv]
  refine SortedMap.get?_insertAll_eq_some _ ?_ ?_
  · exact List.mem_map_of_mem (h.mem_keyBindings.mpr ⟨column, hcolumn, hv, rfl⟩)
  · rintro ⟨_, w⟩ hp rfl
    obtain ⟨d, hd, hw, heq⟩ := h.mem_keyBindings.mp hp
    have hvalue := hsame d hd heq
    rw [hw, hv] at hvalue
    exact Option.some.inj hvalue

/-- The update of a record sets its columns within the condition and the key equalities. -/
theorem sets_of_keyedUpdate (h : q.keyedUpdate plan = .ok stmt) :
    Separate (q.addCondition (.all plan.keys.entries)).params plan.fields.keys ∧
      (q.addCondition (.all plan.keys.entries)).Sets [] plan.fields "update" stmt := by
  unfold keyedUpdate recordUpdate at h
  split at h
  · exact nomatch h
  · exact sets_of_updateStatement h

/-- Names that stay apart keep their values. -/
theorem KeepsApart.keepsValues (hapart : q.KeepsApart keys only record)
    (hsplits : Splits keys only record plan) (hstmt : q.keyedUpdate plan = .ok stmt) :
    q.KeepsValues keys record stmt := by
  obtain ⟨-, hsets⟩ := sets_of_keyedUpdate hstmt
  have hkey : ∀ column ∈ keys, stmt.params.get? (keyOf column) = record.get? column := by
    intro column hcolumn
    obtain ⟨v, hv⟩ := Option.isSome_iff_exists.mp (hsplits.contains column hcolumn)
    have hbound := hsplits.get?_addKeys_of_key (q := q) hcolumn fun d hd =>
      hapart.key d hd column hcolumn
    rw [hv] at hbound ⊢
    exact hsets.kept _ v hbound
  refine ⟨fun name hname => ?_, hkey⟩
  by_cases hother : ∀ column ∈ keys, keyOf column ≠ name
  · have hbefore := hsplits.get?_addKeys_of_other (q := q) hother
    cases hv : q.params.get? name with
    | some v => exact hsets.kept name v (hbefore.trans hv)
    | none =>
        -- a value that appeared here would be one for a column that is set
        by_contra hbound
        rcases hsets.nothingElse name (Option.isSome_iff_ne_none.mpr hbound) with
          htaken | ⟨column, hcolumn, rfl⟩
        · rw [SortedMap.contains, hbefore, hv] at htaken
          exact Bool.false_ne_true htaken
        · exact hapart.assignment column ((hsplits.mem_fields column).mp hcolumn) hname
  · push Not at hother
    obtain ⟨column, hcolumn, rfl⟩ := hother
    rw [hkey column hcolumn, hapart.clause column hcolumn hname]

/-- Values that are kept show that the names stay apart. -/
theorem KeepsValues.keepsApart (hkeeps : q.KeepsValues keys record stmt)
    (hsplits : Splits keys only record plan) (hstmt : q.keyedUpdate plan = .ok stmt) :
    q.KeepsApart keys only record := by
  obtain ⟨hseparate, hsets⟩ := sets_of_keyedUpdate hstmt
  refine ⟨fun c hc d hd hname => ?_, fun c hc hname => ?_, fun column hcolumn hname => ?_⟩
  · rw [← hkeeps.key c hc, ← hkeeps.key d hd, hname]
  · rw [← hkeeps.clause _ hname, hkeeps.key c hc]
  · -- the new value stands under a name that was free, so the query has none there
    rw [← hsplits.mem_fields] at hcolumn
    have hfree := hseparate.free column hcolumn
    rw [q.params_addKeys, ← Bool.not_eq_true, SortedMap.contains_insertAll, not_or] at hfree
    obtain ⟨v, hv⟩ := Option.isSome_iff_exists.mp (SortedMap.contains_iff_mem_keys.mpr hcolumn)
    refine hfree.2 (Option.isSome_iff_exists.mpr ⟨v, ?_⟩)
    rw [← hkeeps.clause _ hname, hsets.assigned column v hv]

/-! ## What is sent -/

/-- The statement is sent as it was written, each of its placeholders with the index of the value
that it binds to it. -/
structure SentAs (stmt : Statement) (sent : NumberedStatement) : Prop where
  sql : sent.sql = fill (indexText stmt.sql) stmt.sql
  values : ∀ name ∈ names (pieces stmt.sql),
    sent.values[indexOf (pieces stmt.sql) name - 1]? = stmt.params.get? name

theorem sentAs_of_numberParameters {stmt : Statement} {sent : NumberedStatement}
    (h : numberParameters stmt.sql stmt.params = .ok sent) : SentAs stmt sent := by
  have hnumbers := numberParameters_eq_ok_iff.mp h
  exact ⟨hnumbers.sql_eq, fun name => getElem?_values hnumbers⟩

/-- What is asked for a record that was split is its update. -/
theorem asksStatement_updateRequest (q : Select) :
    AsksStatement (updateRequest q) fun plan sent =>
      ∃ stmt, q.keyedUpdate plan = .ok stmt ∧
        numberParameters stmt.sql stmt.params = .ok sent := by
  intro plan r answer hr
  obtain ⟨hfields, stmt, sent, hstmt, hsent, rfl⟩ := updateRequest_eq_ok hr
  have hupdate : q.keyedUpdate plan = .ok stmt := (if_neg hfields).trans hstmt
  exact ⟨sent, rfl, stmt, hupdate, hsent⟩

theorem forall₂_comp {R : α → β → Prop} {S : β → γ → Prop} {as : List α} {bs : List β} {cs : List γ}
    (h : List.Forall₂ R as bs) (h' : List.Forall₂ S bs cs) :
    List.Forall₂ (fun a c => ∃ b, R a b ∧ S b c) as cs := by
  induction h generalizing cs with
  | nil =>
      cases h'
      exact .nil
  | cons hab _ ih =>
      cases h' with
      | cons hbc h' => exact .cons ⟨_, hab, hbc⟩ (ih h')

/-- The statements of a batch of updates are those of the first records, in order. -/
theorem statements_of_upsert (db : Database σ) (q : Select) (records : List Record)
    (keys : List String) {only : Option (List String)} (s : Session σ) (honly : only ≠ some []) :
    ∃ first rest, records = first ++ rest ∧
      List.Forall₂ (fun record sent => ∃ plan, splitRecord keys only 0 record = .ok plan ∧
        ∃ stmt, q.keyedUpdate plan = .ok stmt ∧ numberParameters stmt.sql stmt.params = .ok sent)
        first (sentStatements (callsOf (q.upsert db.recorded records keys only) s)) := by
  rcases (Action.Traces.upsert_or_nothing db q records keys honly).calls s with
    hnone | ⟨plans, result, hplans, hunit⟩
  · refine ⟨[], records, rfl, ?_⟩
    rw [hnone]
    exact .nil
  · obtain ⟨first, rest, rfl, hsent⟩ :=
      sentStatements_of_unitOfWork q.asksStatement_updateRequest hunit
    have hsplit := List.forall₂_take_append _ _ _ (forall₂_splitRecords hplans)
    exact ⟨_, _, (List.take_append_drop first.length records).symm, forall₂_comp hsplit hsent⟩

/-! ## The theorem -/

/-- **Updates of records keep the condition's values iff the names stay apart.**  The updates that are
sent are those of the first records, in order.  Each is made from the query and its own record: it
sets columns of the record, within the query's predicates and the equalities of the key columns
behind them, and all placeholders are sent with the values bound in it.  Those of the query's clause
have the values that the query has bound, and those of the key equalities the record's, exactly if
key columns of one name agree, no key column has the name of a placeholder in the clause unless its
value stands there already, and no column that is set has the name of one. -/
theorem updates_keep_condition_iff (db : Database σ) (q : Select) (records : List Record)
    (keys : List String) (only : Option (List String)) (s : Session σ) (honly : only ≠ some []) :
    ∃ first rest, records = first ++ rest ∧
      List.Forall₂ (fun record sent =>
        ∃ plan, splitRecord keys only 0 record = .ok plan ∧
          ∃ stmt, q.keyedUpdate plan = .ok stmt ∧
            stmt.sql = q.updateHead [] plan.fields.keys
              ++ (q.condition.addEqualities plan.keys.entries).whereClause ∧
            SentAs stmt sent ∧
            (q.KeepsValues keys record stmt ↔ q.KeepsApart keys only record))
        first (sentStatements (callsOf (q.upsert db.recorded records keys only) s)) := by
  obtain ⟨first, rest, hrecords, hsent⟩ := statements_of_upsert db q records keys s honly
  refine ⟨first, rest, hrecords, hsent.imp ?_⟩
  rintro record sent ⟨plan, hplan, stmt, hstmt, hnumber⟩
  obtain ⟨-, hsets⟩ := sets_of_keyedUpdate hstmt
  have hsplits := splits_of_splitRecord hplan
  exact ⟨plan, hplan, stmt, hstmt, hsets.sql, sentAs_of_numberParameters hnumber,
    fun hkeeps => hkeeps.keepsApart hsplits hstmt, fun hapart => hapart.keepsValues hsplits hstmt⟩

/-- Two records within a condition on another column: both updates have the condition's value, and
each the key of its own record. -/
theorem updates_within_a_condition :
    let db : Database Unit := ⟨.accepting, {}, fun _ => none⟩
    let q := db.build "users" [.condition (.equality .and "tenant" (.int 7))]
    let ann : Record := .ofList [("id", .int 1), ("name", .text "Ann")]
    let bob : Record := .ofList [("id", .int 2), ("name", .text "Bob")]
    let calls := callsOf (q.upsert db.recorded [ann, bob] ["id"] none) (.new {} ())
    (sentStatements calls).map (fun sent => (sent.sql, sent.values.map Value.literal))
      = [("UPDATE users SET name = $1 WHERE tenant = $2 AND id = $3", ["'Ann'", "7", "1"]),
        ("UPDATE users SET name = $1 WHERE tenant = $2 AND id = $3", ["'Bob'", "7", "2"])] ∧
    (∀ record ∈ [ann, bob], q.KeepsApart ["id"] none record) ∧
    List.Forall₂ (fun record sent => ∃ stmt, SentAs stmt sent ∧ q.KeepsValues ["id"] record stmt)
      [ann, bob] (sentStatements calls) := by
  intro db q ann bob calls
  have hsent : (sentStatements calls).map (fun sent => (sent.sql, sent.values.map Value.literal))
      = [("UPDATE users SET name = $1 WHERE tenant = $2 AND id = $3", ["'Ann'", "7", "1"]),
        ("UPDATE users SET name = $1 WHERE tenant = $2 AND id = $3", ["'Bob'", "7", "2"])] := by
    decide +kernel
  have hnames : q.clauseNames = ["tenant"] := by decide +kernel
  have hassignment : ∀ column, assignmentKey column ∉ q.clauseNames := by
    intro column hmem
    rw [hnames, List.mem_singleton] at hmem
    have hfirst := congrArg (fun s => s.toList.head?) hmem
    simp [assignmentKey] at hfirst
  have hapart : ∀ record ∈ [ann, bob], q.KeepsApart ["id"] none record := by
    intro record hrecord
    refine ⟨fun c hc d hd _ => ?_, fun c hc hname => ?_, fun column _ => hassignment column⟩
    · rw [List.mem_singleton.mp hc, List.mem_singleton.mp hd]
    · rw [List.mem_singleton.mp hc, hnames] at hname
      exact absurd hname (by decide +kernel)
  refine ⟨hsent, hapart, ?_⟩
  obtain ⟨first, rest, hrecords, hupdates⟩ :=
    updates_keep_condition_iff db q [ann, bob] ["id"] none (.new {} ()) (by decide)
  have hlength : first.length = [ann, bob].length := by
    rw [hupdates.length_eq, ← List.length_map (f := fun sent : NumberedStatement =>
      (sent.sql, sent.values.map Value.literal)), hsent]
    rfl
  obtain rfl : [ann, bob] = first := by
    have hfront := List.prefix_append first rest
    rw [← hrecords] at hfront
    exact (hfront.eq_of_length hlength).symm
  refine ((List.forall₂_and_left _ _).mpr ⟨hapart, hupdates⟩).imp ?_
  rintro record sent ⟨hrecord, plan, -, stmt, -, -, hsentAs, hiff⟩
  exact ⟨stmt, hsentAs, hiff.mpr hrecord⟩

/-- A condition on the key column itself: the record's key takes the place of the condition's value,
and the row of owner `2` is updated although the condition asks for owner `1`. -/
theorem key_replaces_condition_value :
    let db : Database Unit := ⟨.accepting, {}, fun _ => none⟩
    let q := db.build "users" [.condition (.equality .and "owner" (.int 1))]
    let record : Record := .ofList [("owner", .int 2), ("name", .text "x")]
    let calls := callsOf (q.upsert db.recorded [record] ["owner"] none) (.new {} ())
    (sentStatements calls).map (fun sent => (sent.sql, sent.values.map Value.literal))
      = [("UPDATE users SET name = $1 WHERE owner = $2 AND owner = $2", ["'x'", "2"])] ∧
    q.params.get? "owner" = some (.int 1) ∧ ¬ q.KeepsApart ["owner"] none record ∧
    ∀ plan stmt, splitRecord ["owner"] none 0 record = .ok plan → q.keyedUpdate plan = .ok stmt →
      ¬ q.KeepsValues ["owner"] record stmt := by
  intro db q record calls
  have howner : "owner" ∈ q.clauseNames := by decide +kernel
  have hbound : q.params.get? "owner" = some (.int 1) := rfl
  have hmeet : ¬ q.KeepsApart ["owner"] none record := by
    intro hapart
    have hvalue : some (Value.int 1) = some (Value.int 2) :=
      hapart.clause "owner" List.mem_cons_self howner
    injection hvalue with hvalue
    injection hvalue with hvalue
    exact absurd hvalue (by decide)
  refine ⟨by decide +kernel, hbound, hmeet, fun plan stmt hplan hstmt hkeeps => ?_⟩
  exact hmeet (hkeeps.keepsApart (splits_of_splitRecord hplan) hstmt)

end Select

end SqlBuilder
