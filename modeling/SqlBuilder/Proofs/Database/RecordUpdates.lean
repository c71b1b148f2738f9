import SqlBuilder.Proofs.Database.KeyedUpdate
import SqlBuilder.Proofs.Database.Refusal
import SqlBuilder.Proofs.Database.ReturnedKeys

/-!
# One update for every record

Updating records by key splits each of them in two: its key columns say which row is meant, and the
others are set.  Before anything is sent every record is checked (`splitRecords_ok_iff`), and then
there is one statement for each, in order.  No column is lost on the way, and none is on both sides
(`fallsApart`).

Such an update succeeds iff all its statements can be sent and no call fails, and then it returns
how many rows the server changed in all (`updates_split_records`).
-/

namespace SqlBuilder

open Placeholder

variable {σ : Type}

/-! ## Counts -/

/-- A client answers the execution of a statement with a count. -/
theorem Client.Follows.affected_of_execute {c : Client σ} {s t : σ} {calls : List Exchange}
    (h : c.Follows s calls t) {sql : String} {values : List Value} {answer : Answer}
    (hx : ⟨.execute sql values, .ok answer⟩ ∈ calls) : ∃ count, answer = .affected count := by
  obtain ⟨state, hstate⟩ := h.answer_of_mem hx
  have hexecute : (c.execute sql values state).1.map Answer.affected = .ok answer := hstate
  obtain ⟨count, -, hcount⟩ := map_eq_ok_iff.mp hexecute
  exact ⟨count, hcount.symm⟩

namespace Select

/-! ## The columns of a record -/

/-- The record can be updated: it has every key column, and some other column is set. -/
structure Splittable (keys : List String) (only : Option (List String)) (record : Record) :
    Prop where
  keyed : ∀ key ∈ keys, record.contains key = true
  assigned : ∃ column, SetsColumn keys only record column

/-- The columns of a record that are set. -/
def assignedColumns (keys : List String) (only : Option (List String)) (record : Record) :
    List String :=
  record.keys.filter fun column => column ∉ keys ∧ ∀ columns ∈ only, column ∈ columns

/-- The columns of a record that say which row is meant. -/
def keyColumns (keys : List String) (record : Record) : List String :=
  record.keys.filter (· ∈ keys)

/-- The columns of a record are divided: each side is in order and without repetitions, no column is
on both, and none is left out unless the update is narrowed to others. -/
structure FallsApart (keys : List String) (only : Option (List String)) (record : Record)
    (assigned keyed : List String) : Prop where
  assigned_ascends : assigned.Pairwise fun a b => compare a b = .lt
  mem_assigned : ∀ column, column ∈ assigned ↔ SetsColumn keys only record column
  keyed_ascends : keyed.Pairwise fun a b => compare a b = .lt
  mem_keyed : ∀ column, column ∈ keyed ↔ column ∈ keys
  disjoint : ∀ column ∈ assigned, column ∉ keyed
  whole : only = none → ∀ column, record.contains column = true →
    column ∈ assigned ∨ column ∈ keyed

variable {q : Select} {keys : List String} {only : Option (List String)} {record : Record}
  {plan : KeyedUpdate} {i : Nat}

theorem mem_assignedColumns {column : String} :
    column ∈ assignedColumns keys only record ↔ SetsColumn keys only record column := by
  rw [assignedColumns, List.mem_filter, ← SortedMap.contains_iff_mem_keys, decide_eq_true_eq]
  rfl

theorem Splittable.mem_keyColumns (h : Splittable keys only record) {column : String} :
    column ∈ keyColumns keys record ↔ column ∈ keys := by
  rw [keyColumns, List.mem_filter, ← SortedMap.contains_iff_mem_keys, decide_eq_true_eq]
  exact and_iff_right_of_imp (h.keyed column)

theorem Splittable.fallsApart (h : Splittable keys only record) :
    FallsApart keys only record (assignedColumns keys only record) (keyColumns keys record) where
  assigned_ascends := record.pairwise_keys.filter _
  mem_assigned _ := mem_assignedColumns
  keyed_ascends := record.pairwise_keys.filter _
  mem_keyed _ := h.mem_keyColumns
  disjoint := by
    intro column hassigned hkeyed
    exact (mem_assignedColumns.mp hassigned).2.1 (h.mem_keyColumns.mp hkeyed)
  whole := by
    rintro rfl column hcolumn
    by_cases hkey : column ∈ keys
    · exact .inr (h.mem_keyColumns.mpr hkey)
    · exact .inl (mem_assignedColumns.mpr ⟨hcolumn, hkey, fun _ h => nomatch h⟩)

/-! ## The check -/

/-- The two parts of a record. -/
def planOf (keys : List String) (only : Option (List String)) (record : Record) : KeyedUpdate where
  keys := record.filterKeys keys.contains
  fields := record.filterKeys fun column =>
    !keys.contains column && (only.map fun cs => cs.contains column).getD true

/-- A record that can be updated passes the check as its two parts, and no other passes. -/
theorem splitRecord_eq_ok_iff :
    splitRecord keys only i record = .ok plan
      ↔ Splittable keys only record ∧ plan = planOf keys only record := by
  have hfields : (planOf keys only record).fields.isEmpty = true
      ↔ ¬ ∃ column, SetsColumn keys only record column := by
    rw [isEmpty_eq_isEmpty_keys, List.isEmpty_iff, List.eq_nil_iff_forall_not_mem, not_exists]
    exact forall_congr' fun column => not_congr mem_keys_fields
  unfold splitRecord
  split
  · next missing hmissing =>
    refine iff_of_false (fun h => nomatch h) fun ⟨h, _⟩ => ?_
    have hlacks := List.find?_some hmissing
    rw [h.keyed missing (List.mem_of_find?_eq_some hmissing)] at hlacks
    exact nomatch hlacks
  · next hall =>
    dsimp only
    split
    · next hempty =>
      exact iff_of_false (fun h => nomatch h) fun ⟨h, _⟩ => hfields.mp hempty h.assigned
    · next hsome =>
      constructor
      · rintro ⟨⟩
        exact ⟨⟨by simpa using hall, not_not.mp (hfields.not.mp hsome)⟩, rfl⟩
      · rintro ⟨-, rfl⟩
        rfl

theorem splitRecord_ok_iff :
    (∃ plan, splitRecord keys only i record = .ok plan) ↔ Splittable keys only record := by
  constructor
  · rintro ⟨plan, h⟩
    exact (splitRecord_eq_ok_iff.mp h).1
  · exact fun h => ⟨_, splitRecord_eq_ok_iff.mpr ⟨h, rfl⟩⟩

/-- All records pass the check iff each of them can be updated. -/
theorem splitRecords_ok_iff {records : List Record} :
    (∃ plans, splitRecords keys only i records = .ok plans)
      ↔ ∀ record ∈ records, Splittable keys only record := by
  constructor
  · rintro ⟨plans, h⟩ record hrecord
    obtain ⟨n, hn, rfl⟩ := List.getElem_of_mem hrecord
    have hsplit := forall₂_splitRecords h
    exact splitRecord_ok_iff.mp ⟨_, hsplit.get hn (hsplit.length_eq ▸ hn)⟩
  · intro h
    induction records generalizing i with
    | nil => exact ⟨[], rfl⟩
    | cons record records ih =>
        obtain ⟨hfirst, hrest⟩ := List.forall_mem_cons.mp h
        obtain ⟨plan, hplan⟩ := splitRecord_ok_iff.mpr hfirst
        obtain ⟨plans, hplans⟩ := ih hrest
        refine ⟨plan :: plans, ?_⟩
        rw [splitRecords, hplan]
        show (splitRecords keys only (i + 1) records >>= _) = _
        rw [hplans]
        rfl

/-! ## The statement for a record -/

/-- The update of one row: within the query's condition and one equality for every key column behind
it. -/
def rowUpdateText (q : Select) (assigned keyed : List String) : String :=
  q.updateHead [] assigned ++ Condition.whereClause
    ⟨q.condition.members ++ keyed.map fun column => (.and, (keyTest column).predicate), .empty⟩

/-- The names for new values do not clash: no two columns that are set have one name, and none has a
name that the query or a key column binds. -/
structure NoClash (q : Select) (keys : List String) (only : Option (List String))
    (record : Record) : Prop where
  own : ∀ c, SetsColumn keys only record c → ∀ d, SetsColumn keys only record d →
    assignmentKey c = assignmentKey d → c = d
  free : ∀ c, SetsColumn keys only record c → q.params.contains (assignmentKey c) = false ∧
    ∀ key ∈ keys, keyOf key ≠ assignmentKey c

/-- The update of a record can be sent: no names clash, and every placeholder has a value. -/
structure Sendable (q : Select) (keys : List String) (only : Option (List String))
    (record : Record) : Prop extends q.NoClash keys only record where
  bound : ∀ name ∈ names (pieces (q.rowUpdateText (assignedColumns keys only record)
      (keyColumns keys record))),
    q.params.contains name = true ∨ (∃ key ∈ keys, keyOf key = name) ∨
      ∃ c, SetsColumn keys only record c ∧ assignmentKey c = name

theorem Splits.fields_eq (h : Splits keys only record plan) :
    plan.fields.keys = assignedColumns keys only record := by
  rw [assignedColumns, ← SortedMap.keys_filterKeys]
  refine SortedMap.keys_eq_of_mem_iff fun column => ?_
  rw [h.mem_fields, SortedMap.keys_filterKeys]
  exact mem_assignedColumns.symm

theorem Splits.keyed_eq (h : Splits keys only record plan) :
    plan.keys.keys = keyColumns keys record := by
  rw [h.keys_eq, SortedMap.keys_filterKeys, keyColumns]
  exact List.filter_congr fun column _ => by simp

theorem Splits.sql_eq (h : Splits keys only record plan) {stmt : Statement} {tag : String}
    (hsets : (q.addCondition (.all plan.keys.entries)).Sets [] plan.fields tag stmt) :
    stmt.sql = q.rowUpdateText (assignedColumns keys only record) (keyColumns keys record) := by
  have hmembers : (q.addCondition (.all plan.keys.entries)).condition.members
      = q.condition.members
        ++ (keyColumns keys record).map fun column => (.and, (keyTest column).predicate) := by
    rw [← h.keyed_eq, SortedMap.keys, List.map_map]
    exact Condition.members_addEqualities q.condition plan.keys.entries
  rw [hsets.sql, h.fields_eq, rowUpdateText, ← hmembers]
  rfl

theorem Splits.contains_addKeys (h : Splits keys only record plan) {name : String} :
    (q.addCondition (.all plan.keys.entries)).params.contains name = true
      ↔ (∃ key ∈ keys, keyOf key = name) ∨ q.params.contains name = true := by
  rw [q.params_addKeys, SortedMap.contains_insertAll]
  refine or_congr_left ?_
  constructor
  · intro hmem
    obtain ⟨⟨_, v⟩, hp, rfl⟩ := List.mem_map.mp hmem
    obtain ⟨key, hkey, -, hname⟩ := h.mem_keyBindings.mp hp
    exact ⟨key, hkey, hname⟩
  · rintro ⟨key, hkey, rfl⟩
    obtain ⟨v, hv⟩ := Option.isSome_iff_exists.mp (h.contains key hkey)
    exact List.mem_map_of_mem (h.mem_keyBindings.mpr ⟨key, hkey, hv, rfl⟩)

theorem Splits.separate_iff (h : Splits keys only record plan) :
    Separate (q.addCondition (.all plan.keys.entries)).params plan.fields.keys
      ↔ q.NoClash keys only record := by
  have hfree : ∀ name, (q.addCondition (.all plan.keys.entries)).params.contains name = false ↔
      q.params.contains name = false ∧ ∀ key ∈ keys, keyOf key ≠ name := by
    intro name
    rw [← Bool.not_eq_true, h.contains_addKeys, not_or, Bool.not_eq_true, and_comm]
    simp
  constructor
  · intro hseparate
    exact ⟨fun c hc d hd => hseparate.own c ((h.mem_fields c).mpr hc) d ((h.mem_fields d).mpr hd),
      fun c hc => (hfree _).mp (hseparate.free c ((h.mem_fields c).mpr hc))⟩
  · rintro ⟨hown, hbound⟩
    exact ⟨fun c hc d hd => hown c ((h.mem_fields c).mp hc) d ((h.mem_fields d).mp hd),
      fun c hc => (hfree _).mpr (hbound c ((h.mem_fields c).mp hc))⟩

/-- The values that are set are the record's. -/
theorem get?_of_get?_fields (h : splitRecord keys only i record = .ok plan) {column : String}
    {v : Value} (hv : plan.fields.get? column = some v) : record.get? column = some v := by
  obtain ⟨-, rfl⟩ := splitRecord_eq_ok_iff.mp h
  exact (SortedMap.get?_filterKeys_eq_some_iff.mp hv).1

/-- A record is asked for iff its update can be sent. -/
theorem updateRequest_ok_iff (h : splitRecord keys only i record = .ok plan) :
    (∃ request, updateRequest q plan = .ok request) ↔ q.Sendable keys only record := by
  have hsplits := splits_of_splitRecord h
  constructor
  · rintro ⟨request, hrequest⟩
    obtain ⟨-, stmt, p, hstmt, hnumber, -⟩ := updateRequest_eq_ok hrequest
    obtain ⟨hseparate, hsets⟩ := sets_of_updateStatement hstmt
    refine ⟨hsplits.separate_iff.mp hseparate, fun name hname => ?_⟩
    rw [← hsplits.sql_eq hsets] at hname
    rcases hsets.nothingElse name (exists_numberParameters_eq_ok_iff.mp ⟨p, hnumber⟩ name hname)
      with hquery | ⟨c, hc, rfl⟩
    · rcases hsplits.contains_addKeys.mp hquery with hkey | hquery
      · exact .inr (.inl hkey)
      · exact .inl hquery
    · exact .inr (.inr ⟨c, (hsplits.mem_fields c).mp hc, rfl⟩)
  · intro hsendable
    obtain ⟨stmt, hstmt, hsets⟩ := updateStatement_of_separate [] "update"
      (hsplits.separate_iff.mpr hsendable.toNoClash)
    have hnumbered : ∃ p, numberParameters stmt.sql stmt.params = .ok p := by
      rw [exists_numberParameters_eq_ok_iff, hsplits.sql_eq hsets]
      intro name hname
      have hkept : (q.addCondition (.all plan.keys.entries)).params.contains name = true →
          stmt.params.contains name = true := by
        intro hcontains
        obtain ⟨v, hv⟩ := Option.isSome_iff_exists.mp hcontains
        exact Option.isSome_iff_exists.mpr ⟨v, hsets.kept name v hv⟩
      rcases hsendable.bound name hname with hquery | hkey | ⟨c, hc, rfl⟩
      · exact hkept (hsplits.contains_addKeys.mpr (.inr hquery))
      · exact hkept (hsplits.contains_addKeys.mpr (.inl hkey))
      · rw [← hsplits.mem_fields, ← SortedMap.contains_iff_mem_keys] at hc
        obtain ⟨v, hv⟩ := Option.isSome_iff_exists.mp hc
        exact Option.isSome_iff_exists.mpr ⟨v, hsets.assigned c v hv⟩
    obtain ⟨p, hp⟩ := hnumbered
    have hfields : ¬ plan.fields.isEmpty = true := by
      obtain ⟨c, hc⟩ := (splitRecord_ok_iff.mp ⟨plan, h⟩).assigned
      rw [← hsplits.mem_fields] at hc
      rw [isEmpty_eq_isEmpty_keys, List.isEmpty_iff]
      exact List.ne_nil_of_mem hc
    refine ⟨.execute p.sql p.values, ?_⟩
    rw [updateRequest, if_neg hfields, hstmt]
    show (numberParameters stmt.sql stmt.params >>= _) = _
    rw [hp]
    rfl

end Select

/-! ## The updates of records -/

/-- The update of one row: the values bound for it, the statement as it is sent, and how many rows
the server changed. -/
structure RowUpdate where
  params : Bindings
  statement : NumberedStatement
  affected : Nat

namespace RowUpdate

def exchange (u : RowUpdate) : Exchange :=
  ⟨.execute u.statement.sql u.statement.values, .ok (.affected u.affected)⟩

/-- The update is that of the record: its columns are set to their values there, within the query's
condition and the equalities of its key columns, which are compared with their values unless key
columns with other values have the same placeholder. -/
structure IsOf (q : Select) (keys : List String) (only : Option (List String)) (record : Record)
    (u : RowUpdate) : Prop where
  sent : numberParameters (q.rowUpdateText (Select.assignedColumns keys only record)
    (Select.keyColumns keys record)) u.params = .ok u.statement
  assigned : ∀ column, Select.SetsColumn keys only record column →
    u.params.get? (Select.assignmentKey column) = record.get? column
  keyed : ∀ key ∈ keys, (∀ d ∈ keys, keyOf d = keyOf key → record.get? d = record.get? key) →
    u.params.get? (keyOf key) = record.get? key

/-- The update is that of a record which was split. -/
def IsOfPlan (q : Select) (plan : Select.KeyedUpdate) (u : RowUpdate) : Prop :=
  ∃ stmt, q.keyedUpdate plan = .ok stmt ∧ u.params = stmt.params ∧
    numberParameters stmt.sql stmt.params = .ok u.statement

variable {q : Select} {keys : List String} {only : Option (List String)} {record : Record}
  {plan : Select.KeyedUpdate} {u : RowUpdate}

theorem IsOfPlan.isOf (h : u.IsOfPlan q plan) {i : Nat}
    (hplan : Select.splitRecord keys only i record = .ok plan) : u.IsOf q keys only record := by
  obtain ⟨stmt, hstmt, hparams, hnumber⟩ := h
  obtain ⟨-, hsets⟩ := Select.sets_of_keyedUpdate hstmt
  have hsplits := Select.splits_of_splitRecord hplan
  refine ⟨?_, fun column hcolumn => ?_, fun key hkey hsame => ?_⟩
  · rw [← hsplits.sql_eq hsets, hparams]
    exact hnumber
  · rw [← hsplits.mem_fields, ← SortedMap.contains_iff_mem_keys] at hcolumn
    obtain ⟨v, hv⟩ := Option.isSome_iff_exists.mp hcolumn
    rw [hparams, hsets.assigned column v hv, Select.get?_of_get?_fields hplan hv]
  · obtain ⟨v, hv⟩ := Option.isSome_iff_exists.mp (hsplits.contains key hkey)
    have hbound := hsplits.get?_addKeys_of_key (q := q) hkey hsame
    rw [hv] at hbound ⊢
    rw [hparams]
    exact hsets.kept _ v hbound

/-- What was asked for a record that was split, and how many rows it changed. -/
theorem exists_of_oneCall {count : Nat} {calls : List Exchange}
    (haffected : ∀ sql values answer, ⟨.execute sql values, .ok answer⟩ ∈ calls →
      ∃ n, answer = .affected n)
    (h : OneCall (updateRequest q) affectedRows plan (.ok count) calls) :
    ∃ u : RowUpdate, u.IsOfPlan q plan ∧ calls = [u.exchange] ∧ u.affected = count := by
  cases h with
  | @answered request answer _ hrequest hread =>
      obtain ⟨hfields, stmt, p, hstmt, hnumber, rfl⟩ := updateRequest_eq_ok hrequest
      obtain ⟨n, rfl⟩ := haffected _ _ _ List.mem_cons_self
      have hupdate : q.keyedUpdate plan = .ok stmt := (if_neg hfields).trans hstmt
      exact ⟨⟨stmt.params, p, n⟩, ⟨stmt, hupdate, rfl, hnumber⟩, rfl, Except.ok.inj hread⟩

end RowUpdate

/-! ## What comes of an update of records -/

theorem forall_mem_iff_of_forall₂ {α β : Type} {R : α → β → Prop} {P : α → Prop} {Q : β → Prop}
    {as : List α} {bs : List β} (h : List.Forall₂ R as bs) (hiff : ∀ a b, R a b → (P a ↔ Q b)) :
    (∀ a ∈ as, P a) ↔ ∀ b ∈ bs, Q b := by
  induction h with
  | nil => exact iff_of_true (fun _ h => nomatch h) fun _ h => nomatch h
  | cons hab _ ih => rw [List.forall_mem_cons, List.forall_mem_cons, hiff _ _ hab, ih]

section Outcome

variable (db : Database σ) (q : Select) {records : List Record} {keys : List String}
  {only : Option (List String)} (s : Session σ)

/-- Records that do not pass the check are refused, and the session stays as it is. -/
theorem Select.run_upsert_of_error {e : DatabaseError} (hrecords : records ≠ [])
    (hkeys : keys ≠ []) (honly : only ≠ some []) (h : splitRecords keys only 0 records = .error e) :
    (q.upsert db records keys only).run s = (.error e, s) := by
  have hnonempty : ¬ records.isEmpty = true := fun hnil => hrecords (List.isEmpty_iff.mp hnil)
  have hkeyed : ¬ keys.isEmpty = true := fun hnil => hkeys (List.isEmpty_iff.mp hnil)
  unfold Select.upsert
  rw [if_neg hnonempty, if_neg honly, if_neg hkeyed, h]
  rfl

/-- An update of no columns is an insertion, and tells how many records there were. -/
theorem Select.run_upsert_nothing (records : List Record) (keys : List String) :
    (q.upsert db records keys (some [])).run s
      = (((q.insertAll db records).run s).1.map fun _ => records.length,
        ((q.insertAll db records).run s).2) := by
  by_cases hrecords : records = []
  · subst hrecords
    rfl
  · have hnonempty : ¬ records.isEmpty = true := fun hnil => hrecords (List.isEmpty_iff.mp hnil)
    unfold Select.upsert
    rw [if_neg hnonempty, if_pos rfl]
    exact Action.run_map _ _ s

theorem upsert_refused_iff (hkeys : keys ≠ []) (honly : only ≠ some []) :
    ((∃ issue, ((q.upsert db records keys only).run s).1 = .error (.validation issue)) ∧
      callsOf (q.upsert db.recorded records keys only) s = [])
      ↔ ∃ record ∈ records, ¬ Select.Splittable keys only record := by
  by_cases hrecords : records = []
  · subst hrecords
    exact iff_of_false (fun ⟨⟨_, h⟩, _⟩ => nomatch h) fun ⟨_, h, _⟩ => nomatch h
  cases hplans : Select.splitRecords keys only 0 records with
  | error e =>
      refine iff_of_true ⟨?_, ?_⟩ ?_
      · rw [Select.run_upsert_of_error db q s hrecords hkeys honly hplans]
        obtain ⟨issue, rfl⟩ := Select.isValidation_of_splitRecords hplans
        exact ⟨issue, rfl⟩
      · exact congrArg (·.2.client.2)
          (Select.run_upsert_of_error db.recorded q s.recorded hrecords hkeys honly hplans)
      · by_contra hall
        push Not at hall
        obtain ⟨plans, hok⟩ := Select.splitRecords_ok_iff.mpr hall
        rw [hplans] at hok
        exact nomatch hok
  | ok plans =>
      obtain ⟨result, -, hunit⟩ := (Action.Traces.upsert db q hrecords honly hkeys hplans).calls s
      refine iff_of_false (fun h => hunit.calls_ne_nil h.2) ?_
      rintro ⟨record, hrecord, hbad⟩
      exact hbad (Select.splitRecords_ok_iff.mp ⟨plans, hplans⟩ record hrecord)

theorem upsert_succeeds_iff (hkeys : keys ≠ []) (honly : only ≠ some [])
    (hsplit : ∀ record ∈ records, Select.Splittable keys only record) :
    (∃ n, ((q.upsert db records keys only).run s).1 = .ok n)
      ↔ (∀ record ∈ records, q.Sendable keys only record) ∧
        Answered (callsOf (q.upsert db.recorded records keys only) s) := by
  by_cases hrecords : records = []
  · subst hrecords
    exact iff_of_true ⟨0, rfl⟩ ⟨fun _ h => (nomatch h), fun _ h => nomatch h⟩
  obtain ⟨plans, hplans⟩ := Select.splitRecords_ok_iff.mpr hsplit
  have htraces := Action.Traces.upsert db q hrecords honly hkeys hplans
  obtain ⟨result, hresult, hunit⟩ := htraces.calls s
  have hok : (∃ n, ((q.upsert db records keys only).run s).1 = .ok n)
      ↔ ∃ counts, result = .ok counts := by
    have hsame : ((q.upsert db.recorded records keys only).run s.recorded).1
        = ((q.upsert db records keys only).run s).1 := (htraces s.recorded).1
    rw [← hsame, hresult]
    cases result <;> simp [Except.map]
  have hsendable : (∀ record ∈ records, q.Sendable keys only record)
      ↔ ∀ plan ∈ plans, ∃ request, updateRequest q plan = .ok request :=
    forall_mem_iff_of_forall₂ (forall₂_splitRecords hplans) fun record plan hplan =>
      (Select.updateRequest_ok_iff hplan).symm
  have hread : ∀ answer, ∃ count, affectedRows answer = .ok count := by
    intro answer
    cases answer <;> exact ⟨_, rfl⟩
  have hone : (∀ plan ∈ plans, ∃ request, updateRequest q plan = .ok request) →
      ((∃ counts, result = .ok counts)
        ↔ Answered (callsOf (q.upsert db.recorded records keys only) s)) := fun hrequests =>
    hunit.ok_iff_answered fun plan hplan =>
      OneCall.succeedsIfAnswered (hrequests plan hplan) hread
  rw [hok, hsendable]
  constructor
  · rintro ⟨counts, rfl⟩
    obtain ⟨between, hdone, -⟩ := hunit.completed_of_ok
    exact ⟨hdone.request_ok, (hone hdone.request_ok).mp ⟨counts, rfl⟩⟩
  · rintro ⟨hrequests, hanswered⟩
    exact (hone hrequests).mpr hanswered

theorem exists_rowUpdates (hkeys : keys ≠ []) (honly : only ≠ some []) {n : Nat}
    (h : ((q.upsert db records keys only).run s).1 = .ok n) :
    ∃ updates : List RowUpdate, List.Forall₂ (RowUpdate.IsOf q keys only) records updates ∧
      (callsOf (q.upsert db.recorded records keys only) s).filter (·.request.isStatement)
        = updates.map RowUpdate.exchange ∧
      n = (updates.map RowUpdate.affected).foldl (· + ·) 0 := by
  by_cases hrecords : records = []
  · subst hrecords
    cases h
    exact ⟨[], .nil, rfl, rfl⟩
  cases hplans : Select.splitRecords keys only 0 records with
  | error e =>
      rw [Select.run_upsert_of_error db q s hrecords hkeys honly hplans] at h
      exact nomatch h
  | ok plans =>
      have htraces := Action.Traces.upsert db q hrecords honly hkeys hplans
      obtain ⟨result, hresult, hunit⟩ := htraces.calls s
      rw [(htraces s.recorded).1.trans h] at hresult
      obtain ⟨counts, rfl, hn⟩ := map_eq_ok_iff.mp hresult.symm
      obtain ⟨between, hdone, hcalls⟩ := hunit.completed_of_ok
      obtain ⟨t, hfollows⟩ := (Action.Goes.upsert db.recorded q records keys only).follows_callsOf s
      rw [hcalls] at hfollows ⊢
      obtain ⟨updates, hupdates, rfl, hcounts⟩ := hdone.exists_forall₂ fun _ _ own hown hone =>
        RowUpdate.exists_of_oneCall (fun sql values answer hx => hfollows.affected_of_execute
          (List.mem_cons_of_mem _ (List.mem_append_left _ (hown hx)))) hone
      refine ⟨updates, ?_, ?_, ?_⟩
      · refine (Select.forall₂_comp (forall₂_splitRecords hplans) hupdates).imp ?_
        rintro record u ⟨plan, hplan, hu⟩
        exact hu.isOf hplan
      · refine statements_between_commands fun x hx => ?_
        obtain ⟨u, -, rfl⟩ := List.mem_map.mp hx
        rfl
      · have heq : updates.map RowUpdate.affected = counts := by
          rwa [← List.forall₂_map_left_iff, List.forall₂_eq_eq_eq] at hcounts
        rw [heq]
        exact hn.symm

end Outcome

/-! ## The theorem -/

/-- **Every record is updated, and no column of it is lost.**  Records are refused before anything
is sent iff one of them lacks a key column or has nothing to set.  Otherwise the columns of each
fall apart into those that are set and those of its key, and the update succeeds iff the statements
of all records can be sent and no call fails.  Then the statements sent are those of the records, one
for each, in order, and what is returned is the sum of the rows that they changed.

If no columns are to be set the records are inserted instead, and their number is returned.

The counts and their sum are natural numbers, so nothing is said about a sum beyond 64 bits. -/
theorem updates_split_records (db : Database σ) (q : Select) (records : List Record)
    (keys : List String) (s : Session σ) (hkeys : keys ≠ []) :
    (∀ only, only ≠ some [] →
      let result := ((q.upsert db records keys only).run s).1
      let calls := callsOf (q.upsert db.recorded records keys only) s
      ((∃ issue, result = .error (.validation issue)) ∧ calls = []
        ↔ ∃ record ∈ records, ¬ Select.Splittable keys only record) ∧
      ((∀ record ∈ records, Select.Splittable keys only record) →
        (∀ record ∈ records, Select.FallsApart keys only record
          (Select.assignedColumns keys only record) (Select.keyColumns keys record)) ∧
        ((∃ n, result = .ok n)
          ↔ (∀ record ∈ records, q.Sendable keys only record) ∧ Answered calls)) ∧
      ∀ n, result = .ok n → ∃ updates : List RowUpdate,
        List.Forall₂ (RowUpdate.IsOf q keys only) records updates ∧
        calls.filter (·.request.isStatement) = updates.map RowUpdate.exchange ∧
        n = (updates.map RowUpdate.affected).foldl (· + ·) 0) ∧
    (q.upsert db records keys (some [])).run s
      = (((q.insertAll db records).run s).1.map fun _ => records.length,
        ((q.insertAll db records).run s).2) ∧
    callsOf (q.upsert db.recorded records keys (some [])) s
      = callsOf (q.insertAll db.recorded records) s := by
  refine ⟨fun only honly => ⟨?_, fun hsplit => ⟨?_, ?_⟩, ?_⟩, ?_, ?_⟩
  · exact upsert_refused_iff db q s hkeys honly
  · exact fun record hrecord => (hsplit record hrecord).fallsApart
  · exact upsert_succeeds_iff db q s hkeys honly hsplit
  · exact fun n hn => exists_rowUpdates db q s hkeys honly hn
  · exact Select.run_upsert_nothing db q s records keys
  · exact congrArg (·.2.client.2) (Select.run_upsert_nothing db.recorded q s.recorded records keys)

/-- Two records are updated, with a key column that is given twice.  A record without other columns
is refused, and so is one that has none of those to set. -/
theorem updates_of_two_records :
    let db : Database Unit := ⟨.accepting, {}, fun _ => none⟩
    let q := db.build "users" [.condition (.equality .and "tenant" (.int 7))]
    let s : Session Unit := .new {} ()
    let keys := ["id", "id"]
    let ann : Record := .ofList [("name", .text "Ann"), ("id", .int 1), ("age", .int 30)]
    let bob : Record := .ofList [("id", .int 2), ("name", .text "Bob")]
    let nameless : Record := .ofList [("id", .int 3)]
    Select.FallsApart keys none ann ["age", "name"] ["id"] ∧
      q.rowUpdateText ["age", "name"] ["id"]
        = "UPDATE users SET age = :set_age, name = :set_name WHERE tenant = :tenant AND id = :id" ∧
      (∀ record ∈ [ann, bob], q.Sendable keys none record) ∧
      (∃ updates : List RowUpdate,
        List.Forall₂ (RowUpdate.IsOf q keys none) [ann, bob] updates ∧
        2 = (updates.map RowUpdate.affected).foldl (· + ·) 0) ∧
      (∃ issue, ((q.upsert db [ann, nameless] keys none).run s).1 = .error (.validation issue)) ∧
      ¬ Select.Splittable keys (some ["age"]) bob ∧
      ((q.upsert db [ann, ann] keys (some [])).run s).1 = .ok 2 := by
  intro db q s keys ann bob nameless
  have hann : Select.Splittable keys none ann :=
    ⟨by decide +kernel, "name", by decide +kernel, by decide, fun _ h => nomatch h⟩
  have hbob : Select.Splittable keys none bob :=
    ⟨by decide +kernel, "name", by decide +kernel, by decide, fun _ h => nomatch h⟩
  have hsplit : ∀ record ∈ [ann, bob], Select.Splittable keys none record := by
    simp only [List.forall_mem_cons]
    exact ⟨hann, hbob, fun _ h => nomatch h⟩
  have hdone : ((q.upsert db [ann, bob] keys none).run s).1 = .ok 2 := by decide +kernel
  obtain ⟨-, haccepted, hupdates⟩ :=
    (updates_split_records db q [ann, bob] keys s (List.cons_ne_nil _ _)).1 none (by decide)
  obtain ⟨hparts, hsucceeds⟩ := haccepted hsplit
  obtain ⟨updates, hrecords, -, hsum⟩ := hupdates 2 hdone
  obtain ⟨hrefused, -⟩ :=
    (updates_split_records db q [ann, nameless] keys s (List.cons_ne_nil _ _)).1 none (by decide)
  have hinserted := (updates_split_records db q [ann, ann] keys s (List.cons_ne_nil _ _)).2.1
  refine ⟨hparts ann List.mem_cons_self, by decide +kernel, (hsucceeds.mp ⟨2, hdone⟩).1,
    ⟨updates, hrecords, hsum⟩, (hrefused.mpr ⟨nameless, by simp, ?_⟩).1, ?_, ?_⟩
  · rintro ⟨-, column, hcolumn, hkey, -⟩
    have hid : column ∈ ["id"] := SortedMap.contains_iff_mem_keys.mp hcolumn
    exact hkey (List.mem_cons_of_mem _ hid)
  · rintro ⟨-, column, hcolumn, -, honly⟩
    rw [List.mem_singleton.mp (honly ["age"] rfl)] at hcolumn
    exact absurd hcolumn (by decide +kernel)
  · rw [hinserted]
    decide +kernel

end SqlBuilder
