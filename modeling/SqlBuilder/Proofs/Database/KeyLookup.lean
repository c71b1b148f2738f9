import SqlBuilder.Proofs.Condition.Scope
import SqlBuilder.Proofs.Database.Assignment
import SqlBuilder.Proofs.Database.Insertion

/-!
# Looking rows up by key

Finding a row by key and updating rows by their keys append the key's equality to the condition that
the query holds already, and send what is written for both.  The rows found are those of the key
exactly if the condition before is one conjunction (`key_lookup_enforced_iff`); with an `OR` in it,
all but its last conjunction find rows whatever their key (`lookup_escapes_key`).
-/

namespace SqlBuilder

open Placeholder

variable {σ ι α : Type}

/-! ## What is asked for items -/

/-- A command around a unit of work. -/
def Request.IsCommand : Request → Prop
  | .begin | .commit | .rollback => True
  | _ => False

theorem Completed.exists_of_mem {work : ι → Except DatabaseError α → List Exchange → Prop}
    {items : List ι} {results : List α} {calls : List Exchange} {call : Exchange}
    (h : Completed work items results calls) (hcall : call ∈ calls) :
    ∃ item ∈ items, ∃ result own, work item result own ∧ call ∈ own := by
  induction h with
  | nil => exact nomatch hcall
  | cons hwork _ ih =>
      rcases List.mem_append.mp hcall with hown | hrest
      · exact ⟨_, List.mem_cons_self, _, _, hwork, hown⟩
      · obtain ⟨item, hitem, hexists⟩ := ih hrest
        exact ⟨item, List.mem_cons_of_mem _ hitem, hexists⟩

theorem Stopped.exists_of_mem {work : ι → Except DatabaseError α → List Exchange → Prop}
    {items : List ι} {k : Nat} {e : DatabaseError} {calls : List Exchange} {call : Exchange}
    (h : Stopped work items k e calls) (hcall : call ∈ calls) :
    ∃ item ∈ items, ∃ result own, work item result own ∧ call ∈ own := by
  cases h with
  | intro hdone hlast =>
      rcases List.mem_append.mp hcall with hbefore | hown
      · obtain ⟨item, hitem, hexists⟩ := hdone.exists_of_mem hbefore
        exact ⟨item, List.mem_append_left _ hitem, hexists⟩
      · exact ⟨_, List.mem_append_right _ List.mem_cons_self, _, _, hlast, hown⟩

theorem isCommand_or_mem {opening call : Exchange} {own ends : List Exchange}
    (hcall : call ∈ opening :: (own ++ ends)) (hopening : opening.request.IsCommand)
    (hends : ∀ c ∈ ends, c.request.IsCommand) : call.request.IsCommand ∨ call ∈ own := by
  rcases List.mem_cons.mp hcall with rfl | hcall
  · exact .inl hopening
  rcases List.mem_append.mp hcall with hown | hend
  · exact .inr hown
  · exact .inl (hends call hend)

/-- Between the commands of a unit of work there is only the work on its items. -/
theorem UnitOfWork.exists_of_mem {work : ι → Except DatabaseError α → List Exchange → Prop}
    {items : List ι} {result : Except DatabaseError (List α)} {calls : List Exchange}
    {call : Exchange} (h : UnitOfWork work items result calls) (hcall : call ∈ calls) :
    call.request.IsCommand ∨
      ∃ item ∈ items, ∃ result own, work item result own ∧ call ∈ own := by
  cases h with
  | unopened =>
      rw [List.mem_singleton.mp hcall]
      exact .inl trivial
  | stopped hstopped =>
      exact (isCommand_or_mem hcall trivial (by simp [Request.IsCommand])).imp_right
        hstopped.exists_of_mem
  | kept hdone =>
      exact (isCommand_or_mem hcall trivial (by simp [Request.IsCommand])).imp_right
        hdone.exists_of_mem
  | unkept hdone =>
      exact (isCommand_or_mem hcall trivial (by simp [Request.IsCommand])).imp_right
        hdone.exists_of_mem

theorem OneCall.request_of_mem {request : ι → Except DatabaseError Request}
    {read : Answer → Except DatabaseError α} {item : ι} {result : Except DatabaseError α}
    {calls : List Exchange} {call : Exchange} (h : OneCall request read item result calls)
    (hcall : call ∈ calls) : request item = .ok call.request := by
  cases h with
  | refused => exact nomatch hcall
  | failed hr | answered hr =>
      rw [List.mem_singleton.mp hcall]
      exact hr

/-! ## The statement for a record -/

/-- A column with a placeholder of its own is compared with its value. -/
theorem get?_addEqualities (g : Condition) {keys : Record} {column : String} {v : Value}
    (hv : keys.get? column = some v) (hown : ∀ d ∈ keys.keys, keyOf d = keyOf column → d = column) :
    (g.addEqualities keys.entries).params.get? (keyOf column) = some v := by
  have hkeys := get?_insertBindings hv hown
  rw [Select.insertBindings, SortedMap.get?_ofList] at hkeys
  rw [Condition.params_addEqualities, SortedMap.get?_insertAll, hkeys, Option.some_or]

/-- The call updates rows of the query that meet the equalities with the record's values; a column
with a placeholder of its own is compared with its value. -/
def Select.UpdatesByKey (q : Select) (keys : Record) (request : Request) : Prop :=
  ∃ assigned params p,
    numberParameters ("UPDATE " ++ q.table ++ " SET " ++ assigned
      ++ (q.condition.addEqualities keys.entries).whereClause) params = .ok p ∧
    request = .execute p.sql p.values ∧
    ∀ column v, keys.get? column = some v →
      (∀ d ∈ keys.keys, keyOf d = keyOf column → d = column) →
        params.get? (keyOf column) = some v

theorem updatesByKey_of_updateRequest {q : Select} {plan : Select.KeyedUpdate} {request : Request}
    (h : updateRequest q plan = .ok request) : q.UpdatesByKey plan.keys request := by
  obtain ⟨-, stmt, p, hstmt, hnumber, rfl⟩ := updateRequest_eq_ok h
  obtain ⟨-, hsets⟩ := Select.sets_of_updateStatement hstmt
  let assigned := ", ".intercalate ([] ++ Select.assignmentTexts plan.fields.keys)
  refine ⟨assigned, stmt.params, p, ?_, rfl, fun column v hv hown => ?_⟩
  · rw [← hnumber, hsets.sql]
    rfl
  · exact hsets.kept _ _ (get?_addEqualities q.condition hv hown)

namespace Select

/-- The columns of a record that are set: they are no keys, and the update is not narrowed to others. -/
def SetsColumn (keys : List String) (only : Option (List String)) (record : Record)
    (column : String) : Prop :=
  record.contains column = true ∧ column ∉ keys ∧ ∀ columns, only = some columns → column ∈ columns

/-- The record has all key columns, and it falls into those and the columns that are set. -/
structure Splits (keys : List String) (only : Option (List String)) (record : Record)
    (plan : KeyedUpdate) : Prop where
  contains : ∀ key ∈ keys, record.contains key = true
  keys_eq : plan.keys = record.filterKeys keys.contains
  mem_fields : ∀ column, column ∈ plan.fields.keys ↔ SetsColumn keys only record column

theorem mem_keys_fields {keys : List String} {only : Option (List String)} {record : Record}
    {column : String} :
    column ∈ (record.filterKeys fun column =>
        !keys.contains column && (only.map fun cs => cs.contains column).getD true).keys
      ↔ SetsColumn keys only record column := by
  rw [SortedMap.keys_filterKeys, List.mem_filter, ← SortedMap.contains_iff_mem_keys]
  cases only <;> simp [SetsColumn]

theorem splits_of_splitRecord {keys : List String} {only : Option (List String)} {i : Nat}
    {record : Record} {plan : KeyedUpdate} (h : splitRecord keys only i record = .ok plan) :
    Splits keys only record plan := by
  unfold splitRecord at h
  split at h
  · exact nomatch h
  · next hall =>
    dsimp only at h
    split at h
    · exact nomatch h
    · cases h
      exact ⟨by simpa using hall, rfl, fun column => mem_keys_fields⟩

end Select

theorem keys_of_mem_splitRecords {keys : List String} {only : Option (List String)} {i : Nat}
    {records : List Record} {plans : List Select.KeyedUpdate} {plan : Select.KeyedUpdate}
    (h : Select.splitRecords keys only i records = .ok plans) (hplan : plan ∈ plans) :
    ∃ record ∈ records, plan.keys = record.filterKeys keys.contains := by
  have hsplit := forall₂_splitRecords h
  obtain ⟨n, hn, rfl⟩ := List.getElem_of_mem hplan
  have hrecord : n < records.length := hsplit.length_eq ▸ hn
  have hsplits := Select.splits_of_splitRecord (hsplit.get hrecord hn)
  exact ⟨records[n], List.getElem_mem hrecord, hsplits.keys_eq⟩

/-! ## What is sent -/

theorem Select.condition_byColumn (q : Select) (column : String) (v : Value) :
    (q.byColumn column v).condition = q.condition.addEqualities [(column, v)] := rfl

/-- The call sends the query. -/
def Select.IsSentBy (q : Select) (request : Request) : Prop :=
  ∃ p, numberParameters q.render q.params = .ok p ∧ request = .query p.sql p.values

namespace Action.Traces

/-- Reading the first row sends the query, or nothing. -/
theorem rowOf [RowReader α] (db : Database σ) (q : Select) (tag : String) :
    Traces (q.rowOf db tag : Action σ (Option α)) (q.rowOf db.recorded tag) fun _ calls =>
      ∀ call ∈ calls, q.IsSentBy call.request := by
  have hfirst := firstRow db (q.toStatement tag)
  refine hfirst.bind (Q := fun _ _ calls => calls = []) ?_ ?_ ?_
  · intro first
    cases first with
    | none => exact (pure none).mono fun _ _ h => h.2
    | some row =>
        refine (settle (RowReader.readRow row)).bind (fun a => pure (some a)) ?_ ?_
        · rintro e calls ⟨-, rfl⟩
          rfl
        · rintro a y before after ⟨-, rfl⟩ ⟨-, rfl⟩
          rfl
  · rintro e calls (⟨e', -, -, rfl⟩ | ⟨p, hnumber, rows, -, rfl⟩) call hcall
    · exact nomatch hcall
    · rw [List.mem_singleton.mp hcall]
      exact ⟨p, hnumber, rfl⟩
  · rintro first y before after (⟨e', -, -, rfl⟩ | ⟨p, hnumber, rows, -, rfl⟩) rfl call hcall
    · exact nomatch hcall
    · rw [List.append_nil] at hcall
      rw [List.mem_singleton.mp hcall]
      exact ⟨p, hnumber, rfl⟩

/-- Updating records by key sends updates by their keys, or nothing. -/
theorem updatesByKey (db : Database σ) (q : Select) (records : List Record) (keys : List String)
    {only : Option (List String)} (honly : only ≠ some []) :
    Traces (q.upsert db records keys only) (q.upsert db.recorded records keys only) fun _ calls =>
      ∀ call ∈ calls, call.request.IsCommand ∨
        ∃ record ∈ records, q.UpdatesByKey (record.filterKeys keys.contains) call.request := by
  refine (upsert_or_nothing db q records keys honly).mono ?_
  rintro y calls (rfl | ⟨plans, result, hplans, hunit⟩) call hcall
  · exact nomatch hcall
  rcases hunit.exists_of_mem hcall with hcommand | ⟨plan, hplan, result, own, hone, hown⟩
  · exact .inl hcommand
  · obtain ⟨record, hrecord, hplankeys⟩ := keys_of_mem_splitRecords hplans hplan
    have hupdate := updatesByKey_of_updateRequest (hone.request_of_mem hown)
    rw [hplankeys] at hupdate
    exact .inr ⟨record, hrecord, hupdate⟩

end Action.Traces

/-! ## The theorem -/

/-- The columns that identify a record's row are the key columns, if the record has them all. -/
theorem mem_keys_filterKeys_iff {keys : List String} {record : Record}
    (h : ∀ key ∈ keys, record.contains key = true) (column : String) :
    column ∈ (record.filterKeys keys.contains).keys ↔ column ∈ keys := by
  rw [SortedMap.keys_filterKeys, List.mem_filter, List.contains_iff_mem,
    ← SortedMap.contains_iff_mem_keys]
  exact and_iff_right_of_imp (h column)

/-- The equalities of all key columns of a record, behind a condition that spares them. -/
theorem Condition.enforces_keys_iff {g : Condition} {record : Record} {keys : List String}
    (hkeys : keys ≠ []) (hrecord : ∀ key ∈ keys, record.contains key = true ∧ g.Spares key) :
    (g.addEqualities (record.filterKeys keys.contains).entries).Enforces (keys.map keyTest)
      ↔ g.IsConjunction := by
  have hown := mem_keys_filterKeys_iff fun key hkey => (hrecord key hkey).1
  have htests : ∀ a, a ∈ keys.map keyTest
      ↔ a ∈ (record.filterKeys keys.contains).entries.map fun e => keyTest e.1 := by
    intro a
    have hmap : (record.filterKeys keys.contains).entries.map (fun e => keyTest e.1)
        = (record.filterKeys keys.contains).keys.map keyTest := by
      rw [SortedMap.keys, List.map_map]
      rfl
    simp only [hmap, List.mem_map, hown]
  rw [enforces_congr htests]
  apply enforces_addEqualities_iff
  · obtain ⟨key, rest, rfl⟩ := List.exists_cons_of_ne_nil hkeys
    intro hnil
    have hkey := (hown key).mpr List.mem_cons_self
    rw [SortedMap.keys, hnil] at hkey
    exact absurd hkey List.not_mem_nil
  · intro e he
    exact (hrecord e.1 ((hown e.1).mp (List.mem_map_of_mem he))).2

/-- **A key that is looked up is enforced exactly if the condition before it is one conjunction.**
Finding a row by key sends the query with the key's equality behind its condition, and updating
records by key sends one such update after the other, between the commands of a unit of work.  The
rows of these statements are rows of the query, and where none of its comparisons binds the names of
the keys they meet all the equalities exactly if nothing that is left of its condition, apart from
nested lists, is joined with `OR`. -/
theorem key_lookup_enforced_iff (db : Database σ) (q : Select) (s : Session σ) :
    (∀ (α : Type) [RowReader α] (column : String) (v : Value),
      (∀ call ∈ callsOf (q.findBy α db.recorded column v) s,
        (q.byColumn column v).IsSentBy call.request) ∧
      (db.settings.keyColumn = some column → ∀ call ∈ callsOf (q.find α db.recorded v) s,
        (q.byColumn column v).IsSentBy call.request)) ∧
    (∀ column v, q.condition.Spares column →
      let g := (q.byColumn column v).condition
      g.params.get? (keyOf column) = some v ∧
        (∀ row, g.Admits row → q.condition.Admits row) ∧
        (g.Enforces [keyTest column] ↔ q.condition.IsConjunction)) ∧
    (∀ records keys only, only ≠ some [] →
      ∀ call ∈ callsOf (q.upsert db.recorded records keys only) s, call.request.IsCommand ∨
        ∃ record ∈ records, q.UpdatesByKey (record.filterKeys keys.contains) call.request) ∧
    ∀ (record : Record) keys, keys ≠ [] →
      (∀ key ∈ keys, record.contains key = true ∧ q.condition.Spares key) →
      let g := q.condition.addEqualities (record.filterKeys keys.contains).entries
      (∀ row, g.Admits row → q.condition.Admits row) ∧
        (g.Enforces (keys.map keyTest) ↔ q.condition.IsConjunction) := by
  refine ⟨?_, ?_, ?_, ?_⟩
  · intro α _ column v
    have hcalls := (Action.Traces.rowOf (α := α) db (q.byColumn column v) "find").calls s
    refine ⟨hcalls, fun hkey => ?_⟩
    have hfind : q.find α db.recorded v = q.findBy α db.recorded column v := by
      have hsettings : db.recorded.settings = db.settings := rfl
      rw [Select.find, hsettings, hkey]
    rw [hfind]
    exact hcalls
  · intro column v hspares
    have hspared : ∀ p ∈ [(column, v)], q.condition.Spares p.1 := by simpa using hspares
    rw [q.condition_byColumn]
    refine ⟨?_, fun row => Condition.admits_of_admits_addEqualities, ?_⟩
    · exact SortedMap.get?_insert_self _ _ _
    · exact Condition.enforces_addEqualities_iff (List.cons_ne_nil _ _) hspared
  · intro records keys only honly
    exact (Action.Traces.updatesByKey db q records keys honly).calls s
  · intro record keys hkeys hrecord g
    exact ⟨fun row => Condition.admits_of_admits_addEqualities,
      Condition.enforces_keys_iff hkeys hrecord⟩

/-- An `OR` in a nested list does not matter: the list is one operand. -/
theorem key_lookup_enforced_beside_nested_or :
    let db : Database Unit := ⟨.accepting, {}, fun _ => none⟩
    let q := db.build "users"
      [.condition (.equality .and "a" (.int 1)),
        .condition (.group .and [.equality .and "b" (.int 2), .equality .or "c" (.int 3)])]
    let record : Record := .ofList [("id", .int 7), ("name", .text "x")]
    q.condition.IsConjunction ∧
      (∀ call ∈ callsOf (q.find Record db.recorded (.int 7)) (.new {} ()),
        (q.byColumn "id" (.int 7)).IsSentBy call.request) ∧
      (q.byColumn "id" (.int 7)).render
        = "SELECT * FROM users WHERE a = :a AND (b = :b OR c = :c) AND id = :id LIMIT 1" ∧
      (q.byColumn "id" (.int 7)).condition.Enforces [keyTest "id"] ∧
      (∀ call ∈ callsOf (q.upsert db.recorded [record] ["id"] none) (.new {} ()),
        call.request.IsCommand ∨
          ∃ r ∈ [record], q.UpdatesByKey (r.filterKeys ["id"].contains) call.request) ∧
      (q.condition.addEqualities (record.filterKeys ["id"].contains).entries).Enforces
        (["id"].map keyTest) := by
  intro db q record
  have hconjunction : q.condition.IsConjunction := by
    unfold Condition.IsConjunction
    decide +kernel
  have hspares : q.condition.Spares "id" := by
    unfold Condition.Spares
    decide +kernel
  have hrecord : ∀ key ∈ ["id"], record.contains key = true ∧ q.condition.Spares key := by
    intro key hkey
    rw [List.mem_singleton.mp hkey]
    exact ⟨by decide +kernel, hspares⟩
  obtain ⟨hsent, hfind, hupdates, hkeys⟩ := key_lookup_enforced_iff db q (.new {} ())
  refine ⟨hconjunction, (hsent Record "id" (.int 7)).2 rfl, by decide +kernel, ?_, ?_, ?_⟩
  · exact (hfind "id" (.int 7) hspares).2.2.mpr hconjunction
  · exact hupdates [record] ["id"] none (by decide)
  · exact (hkeys record ["id"] (List.cons_ne_nil _ _) hrecord).2.mpr hconjunction

/-- Behind an `OR` the key's equality joins the last conjunction only.  What is sent for row `7`
finds every row with `a = 1`, and updates it. -/
theorem lookup_escapes_key :
    let db : Database Unit := ⟨.accepting, {}, fun _ => none⟩
    let q := db.build "users"
      [.condition (.equality .and "a" (.int 1)), .condition (.equality .or "b" (.int 2))]
    let record : Record := .ofList [("id", .int 7), ("name", .text "x")]
    let texts : List Exchange → List (String × List String) := fun calls =>
      (sentStatements calls).map fun sent => (sent.sql, sent.values.map Value.literal)
    q.condition.Spares "id" ∧
      texts (callsOf (q.find Record db.recorded (.int 7)) (.new {} ()))
        = [("SELECT * FROM users WHERE a = $1 OR b = $2 AND id = $3 LIMIT 1", ["1", "2", "7"])] ∧
      texts (callsOf (q.upsert db.recorded [record] ["id"] none) (.new {} ()))
        = [("UPDATE users SET name = $1 WHERE a = $2 OR b = $3 AND id = $4",
          ["'x'", "1", "2", "7"])] ∧
      ∃ row, row (keyTest "a") ∧ ¬ row (keyTest "id") ∧
        (q.byColumn "id" (.int 7)).condition.Admits row ∧
        (q.condition.addEqualities (record.filterKeys ["id"].contains).entries).Admits row := by
  intro db q record texts
  have hspares : q.condition.Spares "id" := by
    unfold Condition.Spares
    decide +kernel
  have hmany : ¬ q.condition.IsConjunction := by
    unfold Condition.IsConjunction
    decide +kernel
  have hother : keyTest "a" ≠ keyTest "id" := by
    intro h
    injection h with hcolumn
    exact absurd hcolumn (by decide)
  refine ⟨hspares, by decide +kernel, by decide +kernel, (· ≠ keyTest "id"), hother,
    fun h => h rfl, ?_, ?_⟩
  · have hmem : ("id", Value.int 7) ∈ [("id", Value.int 7)] := List.mem_cons_self
    have hrow := Condition.exists_admits_of_not_isConjunction hmem hspares hmany
    rwa [← q.condition_byColumn] at hrow
  · have hid : "id" ∈ (record.filterKeys ["id"].contains).keys := by decide +kernel
    obtain ⟨e, he, heq⟩ := List.mem_map.mp hid
    have hrow := Condition.exists_admits_of_not_isConjunction he (heq.symm ▸ hspares) hmany
    rwa [heq] at hrow

end SqlBuilder
