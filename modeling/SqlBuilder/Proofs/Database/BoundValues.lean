import SqlBuilder.Proofs.Database.Insertion
import SqlBuilder.Proofs.Select.Masking

/-!
# Bound values reach no text

A program and the operation that ends it are run twice, with other values for what is bound and in
records, but with the same columns.  As long as the clients answer alike they are asked alike: the
texts are the same, and only the values behind the placeholders differ
(`bound_values_reach_no_text`).  Checks before a statement is sent look at columns and names alone,
so both runs fail alike too.
-/

namespace SqlBuilder

variable {σ τ α : Type}

/-! ## Records with the same columns -/

section Records

variable {row row' : Record}

theorem contains_eq_of_keys_eq (h : row.keys = row'.keys) (column : String) :
    row.contains column = row'.contains column := by
  rw [Bool.eq_iff_iff, SortedMap.contains_iff_mem_keys, SortedMap.contains_iff_mem_keys, h]

theorem size_eq_length_keys (row : Record) : row.size = row.keys.length :=
  (List.length_map ..).symm

theorem isEmpty_eq_isEmpty_keys (row : Record) : row.isEmpty = row.keys.isEmpty :=
  (List.isEmpty_map ..).symm

theorem isEmpty_eq_of_keys_eq (h : row.keys = row'.keys) : row.isEmpty = row'.isEmpty := by
  rw [isEmpty_eq_isEmpty_keys, isEmpty_eq_isEmpty_keys, h]

/-- Which placeholders a record binds depends on its columns. -/
theorem sameNames_insertBindings (h : row.keys = row'.keys) :
    (Select.insertBindings row).SameNames (Select.insertBindings row') := by
  have hnames : ∀ (r : Record) name, (Select.insertBindings r).contains name = true
      ↔ name ∈ r.keys.map Placeholder.keyOf := by
    intro r name
    rw [Select.insertBindings, SortedMap.contains_iff_mem_keys, SortedMap.mem_keys_ofList,
      List.map_map, SortedMap.keys, List.map_map]
    rfl
  intro name
  rw [Bool.eq_iff_iff, hnames, hnames, h]

variable {rows rows' : List Record}

theorem forall₂_keys_eq (h : rows.map SortedMap.keys = rows'.map SortedMap.keys) :
    List.Forall₂ (fun r r' : Record => r.keys = r'.keys) rows rows' := by
  rwa [← List.forall₂_eq_eq_eq, List.forall₂_map_left_iff, List.forall₂_map_right_iff] at h

theorem isEmpty_eq_of_map_keys_eq (h : rows.map SortedMap.keys = rows'.map SortedMap.keys) :
    rows.isEmpty = rows'.isEmpty := by
  have hempty := congrArg List.isEmpty h
  rwa [List.isEmpty_map, List.isEmpty_map] at hempty

end Records

/-! ## Statements -/

/-- A name that is taken is refused in both runs, whatever it is bound to. -/
theorem assignments_sameOutcome {params params' : Bindings} {values values' : List (String × Value)}
    (h : params.SameNames params') (hcolumns : values.map Prod.fst = values'.map Prod.fst) :
    SameOutcome (fun r r' => r.1.SameNames r'.1 ∧ r.2 = r'.2) (Select.assignments params values)
      (Select.assignments params' values') := by
  induction values generalizing params params' values' with
  | nil =>
      obtain rfl := List.map_eq_nil_iff.mp hcolumns.symm
      exact .ok ⟨h, rfl⟩
  | cons e values ih =>
      obtain ⟨⟨column', v'⟩, rest, rfl, hcolumn, hrest⟩ := List.map_eq_cons_iff.mp hcolumns.symm
      obtain ⟨column, v⟩ := e
      obtain rfl : column' = column := hcolumn
      have hrest' := ih (h.insert (Select.assignmentKey column') v v') hrest.symm
      have htaken : params.contains (Select.assignmentKey column')
          = params'.contains (Select.assignmentKey column') := h _
      unfold Select.assignments
      dsimp only
      rw [← htaken]
      split
      · exact .error _
      · refine hrest'.map ?_
        rintro ⟨params, texts⟩ ⟨params', texts'⟩ ⟨hnames, rfl⟩
        exact ⟨hnames, rfl⟩

theorem columnsOf_eq_of_keys_eq {rows rows' : List Record}
    (h : rows.map SortedMap.keys = rows'.map SortedMap.keys) :
    Select.columnsOf rows = Select.columnsOf rows' := by
  have hkeys : ∀ rows : List Record, Select.columnsOf rows
      = ((rows.map SortedMap.keys).foldl (fun m ks => m.merge (SortedMap.ofList (ks.map (·, ()))))
          .empty : SortedMap String Unit).keys := by
    intro rows
    rw [List.foldl_map]
    rfl
  rw [hkeys, hkeys, h]

theorem findIdx?_eq_of_keys_eq {rows rows' : List Record}
    (h : rows.map SortedMap.keys = rows'.map SortedMap.keys) (n : Nat) :
    rows.findIdx? (fun row => row.size != n) = rows'.findIdx? (fun row => row.size != n) := by
  have hkeys : ∀ rows : List Record, rows.findIdx? (fun row => row.size != n)
      = (rows.map SortedMap.keys).findIdx? fun ks => ks.length != n := by
    intro rows
    rw [List.findIdx?_map]
    exact congrArg (rows.findIdx? ·) (funext fun row => by
      rw [Function.comp_apply, size_eq_length_keys])
  rw [hkeys, hkeys, h]

section Queries

variable {q q' : Select} (h : q.Alike q')
include h

theorem Select.Alike.toStatement (tag : String) :
    (q.toStatement tag).Alike (q'.toStatement tag) := by
  have hrender := h.render
  obtain ⟨g, rfl, hg⟩ := h
  exact ⟨hrender, hg.names⟩

theorem Select.Alike.updateStatement {values values' : Record}
    (hcolumns : values.keys = values'.keys) (written : List String) (tag : String) :
    SameOutcome Statement.Alike (q.updateStatement written values tag)
      (q'.updateStatement written values' tag) := by
  obtain ⟨g, rfl, hg⟩ := h
  have hwhere : q.whereClause = ({ q with condition := g } : Select).whereClause := hg.whereClause
  unfold Select.updateStatement
  refine (assignments_sameOutcome hg.names hcolumns).map ?_
  rintro ⟨params, texts⟩ ⟨params', texts'⟩ ⟨hnames, rfl⟩
  dsimp only
  rw [← hwhere]
  exact ⟨rfl, hnames⟩

/-- The template of an insertion depends on the columns of the records. -/
theorem Select.Alike.insertTemplate (keyColumn : Option String) {rows rows' : List Record}
    (hrows : rows.map SortedMap.keys = rows'.map SortedMap.keys) :
    q.insertTemplate keyColumn rows = q'.insertTemplate keyColumn rows' := by
  obtain ⟨g, rfl, -⟩ := h
  unfold Select.insertTemplate
  rw [columnsOf_eq_of_keys_eq hrows]
  dsimp only
  rw [findIdx?_eq_of_keys_eq hrows]

end Queries

/-! ## Updates by key -/

/-- The plans look for the same columns and set the same columns. -/
structure Select.KeyedUpdate.Alike (plan plan' : Select.KeyedUpdate) : Prop where
  keys : plan.keys.keys = plan'.keys.keys
  fields : plan.fields.keys = plan'.fields.keys

theorem splitRecord_sameOutcome (keys : List String) (only : Option (List String)) (i : Nat)
    {row row' : Record} (h : row.keys = row'.keys) :
    SameOutcome Select.KeyedUpdate.Alike (Select.splitRecord keys only i row)
      (Select.splitRecord keys only i row') := by
  have hcontains : (fun key => !row.contains key) = fun key => !row'.contains key :=
    funext fun key => by rw [contains_eq_of_keys_eq h]
  have hfilter : ∀ keep, (row.filterKeys keep).keys = (row'.filterKeys keep).keys := by
    intro keep
    rw [SortedMap.keys_filterKeys, SortedMap.keys_filterKeys, h]
  unfold Select.splitRecord
  rw [← hcontains]
  split
  · exact .error _
  · dsimp only
    rw [isEmpty_eq_of_keys_eq (hfilter _)]
    split
    · exact .error _
    · exact .ok ⟨hfilter _, hfilter _⟩

theorem splitRecords_sameOutcome (keys : List String) (only : Option (List String)) (i : Nat)
    {rows rows' : List Record} (h : List.Forall₂ (fun r r' => r.keys = r'.keys) rows rows') :
    SameOutcome (List.Forall₂ Select.KeyedUpdate.Alike) (Select.splitRecords keys only i rows)
      (Select.splitRecords keys only i rows') := by
  induction h generalizing i with
  | nil => exact .ok .nil
  | cons hrow _ ih =>
      refine (splitRecord_sameOutcome keys only i hrow).bind fun plan plan' hplan => ?_
      exact (ih (i + 1)).bind fun plans plans' hplans => .ok (.cons hplan hplans)

/-! ## Operations -/

theorem keyColumn_recorded_eq {db : Database σ} {db' : Database τ}
    (h : db.settings = db'.settings) :
    db.recorded.settings.keyColumn = db'.recorded.settings.keyColumn :=
  congrArg Settings.keyColumn h

namespace Action.Alike

variable (db : Database σ) (db' : Database τ) {q q' : Select}

theorem rowOf [RowReader α] (h : q.Alike q') (tag : String) :
    Alike (q.rowOf db.recorded tag : Action (Recorded σ) (Option α))
      (q'.rowOf db'.recorded tag) := by
  refine (firstRow db db' (h.toStatement tag)).bind fun first => ?_
  cases first with
  | none => exact pure none
  | some row => exact (settled _).bind fun a => pure (some a)

theorem get [RowReader α] (h : q.Alike q') :
    Alike (q.get α db.recorded) (q'.get α db'.recorded) :=
  (rows db db' (h.toStatement "get")).bind fun rows => settled (rows.mapM RowReader.readRow)

theorem value [CellReader α] (h : q.Alike q') (column : String) :
    Alike (q.value α db.recorded column) (q'.value α db'.recorded column) := by
  have hcolumns :
      ({ q with columns := [column] } : Select).Alike { q' with columns := [column] } := by
    obtain ⟨g, rfl, hg⟩ := h
    exact ⟨g, rfl, hg⟩
  refine (firstRow db db' ((hcolumns.setLimit 1).toStatement "value")).bind fun first => ?_
  cases first with
  | none => exact pure none
  | some row => exact (settled _).bind fun a => pure (some a)

theorem findBy [RowReader α] (h : q.Alike q') (column : String) (v v' : Value) :
    Alike (q.findBy α db.recorded column v) (q'.findBy α db'.recorded column v') := by
  have hequality : (q.addCondition (.equality .and column v)).Alike
      (q'.addCondition (.equality .and column v')) :=
    h.addCondition fun _ _ hg => hg.addComparison .and column "=" v v'
  exact rowOf db db' (hequality.setLimit 1) "find"

theorem find [RowReader α] (hsettings : db.settings = db'.settings) (h : q.Alike q')
    (v v' : Value) : Alike (q.find α db.recorded v) (q'.find α db'.recorded v') := by
  unfold Select.find
  rw [keyColumn_recorded_eq hsettings]
  cases db'.recorded.settings.keyColumn with
  | none => exact throw _
  | some key => exact findBy db db' h key v v'

theorem increment (h : q.Alike q') (column : String) (amount : Int64) {values values' : Record}
    (hcolumns : values.keys = values'.keys) :
    Alike (q.increment db.recorded column amount values)
      (q'.increment db'.recorded column amount values') :=
  settle (h.updateStatement hcolumns _ "increment") fun _ _ hstmt => execute db db' hstmt

theorem update (h : q.Alike q') {values values' : Record} (hcolumns : values.keys = values'.keys) :
    Alike (q.update db.recorded values) (q'.update db'.recorded values') := by
  have hempty := isEmpty_eq_of_keys_eq hcolumns
  unfold Select.update
  by_cases hvalues : values.isEmpty = true
  · rw [if_pos hvalues, if_pos (hempty ▸ hvalues)]
    exact throw _
  · rw [if_neg hvalues, if_neg (hempty ▸ hvalues)]
    exact settle (h.updateStatement hcolumns _ "update") fun _ _ hstmt => execute db db' hstmt

theorem delete (h : q.Alike q') : Alike (q.delete db.recorded) (q'.delete db'.recorded) := by
  obtain ⟨g, rfl, hg⟩ := h
  refine execute db db' ⟨?_, hg.names⟩
  show "DELETE FROM " ++ q.table ++ q.condition.whereClause
    = "DELETE FROM " ++ q.table ++ g.whereClause
  rw [hg.whereClause]

theorem insertRow (hsettings : db.settings = db'.settings) (q q' : Select) (sql : String)
    {row row' : Record} (hrow : row.keys = row'.keys) :
    Alike (q.insertRow db.recorded sql row) (q'.insertRow db'.recorded sql row') := by
  have hstmt : (q.statement sql (Select.insertBindings row) "insert").Alike
      (q'.statement sql (Select.insertBindings row') "insert") :=
    ⟨rfl, sameNames_insertBindings hrow⟩
  unfold Select.insertRow
  rw [keyColumn_recorded_eq hsettings]
  split
  · refine (firstRow db db' hstmt).bind fun first => ?_
    cases first with
    | none => exact pure none
    | some row => exact (settled _).bind fun v => pure (some v)
  · exact (execute db db' hstmt).bind fun _ => pure none

theorem insertAll (hsettings : db.settings = db'.settings) (h : q.Alike q')
    {rows rows' : List Record} (hrows : rows.map SortedMap.keys = rows'.map SortedMap.keys) :
    Alike (q.insertAll db.recorded rows) (q'.insertAll db'.recorded rows') := by
  have htemplate : q.insertTemplate db.recorded.settings.keyColumn rows
      = q'.insertTemplate db'.recorded.settings.keyColumn rows' := by
    rw [keyColumn_recorded_eq hsettings]
    exact h.insertTemplate _ hrows
  unfold Select.insertAll
  rw [htemplate, isEmpty_eq_of_map_keys_eq hrows]
  split
  · exact pure []
  · refine (settled _).bind fun sql => Alike.bind ?_ fun keys => pure (keys.filterMap id)
    exact batch db db' (fun row row' hrow => insertRow db db' hsettings q q' sql hrow)
      (forall₂_keys_eq hrows)

theorem updateByKey (h : q.Alike q') {plan plan' : Select.KeyedUpdate} (hplan : plan.Alike plan') :
    Alike (q.updateByKey db.recorded plan) (q'.updateByKey db'.recorded plan') := by
  have hcondition : (q.addCondition (.all plan.keys.entries)).Alike
      (q'.addCondition (.all plan'.keys.entries)) :=
    h.addCondition fun _ _ hg => hg.addEqualities hplan.keys
  exact update db db' hcondition hplan.fields

theorem upsert (hsettings : db.settings = db'.settings) (h : q.Alike q')
    {rows rows' : List Record} (hrows : rows.map SortedMap.keys = rows'.map SortedMap.keys)
    (keys : List String) (only : Option (List String)) :
    Alike (q.upsert db.recorded rows keys only) (q'.upsert db'.recorded rows' keys only) := by
  have heach := forall₂_keys_eq hrows
  unfold Select.upsert
  rw [isEmpty_eq_of_map_keys_eq hrows, heach.length_eq]
  split
  · exact pure 0
  split
  · exact (insertAll db db' hsettings h hrows).bind fun _ => pure rows'.length
  split
  · exact throw _
  · refine settle (splitRecords_sameOutcome keys only 0 heach) fun plans plans' hplans => ?_
    refine Alike.bind ?_ fun counts => pure (counts.foldl (· + ·) 0)
    exact batch db db' (fun plan plan' hplan => updateByKey db db' h hplan) hplans

end Action.Alike

/-! ## Programs -/

/-- The operation that ends a program. -/
inductive Ending : Type 1 where
  | get (α : Type) [RowReader α]
  | getFirst (α : Type) [RowReader α]
  | first (α : Type) [RowReader α]
  | find (α : Type) [RowReader α] (id : Value)
  | findBy (α : Type) [RowReader α] (column : String) (v : Value)
  | value (α : Type) [CellReader α] (column : String)
  | update (values : Record)
  | increment (column : String) (amount : Int64) (values : Record)
  | decrement (column : String) (amount : Int64) (values : Record)
  | delete
  | insertAll (rows : List Record)
  | upsert (rows : List Record) (keys : List String) (only : Option (List String))

namespace Ending

/-- The calls that the operation makes for a query. -/
def calls (q : Select) (db : Database σ) (s : Session σ) : Ending → List Exchange
  | @get α _ => callsOf (q.get α db.recorded) s
  | @getFirst α _ => callsOf (q.getFirst α db.recorded) s
  | @first α _ => callsOf (q.first α db.recorded) s
  | @find α _ id => callsOf (q.find α db.recorded id) s
  | @findBy α _ column v => callsOf (q.findBy α db.recorded column v) s
  | @value α _ column => callsOf (q.value α db.recorded column) s
  | .update values => callsOf (q.update db.recorded values) s
  | .increment column amount values => callsOf (q.increment db.recorded column amount values) s
  | .decrement column amount values => callsOf (q.decrement db.recorded column amount values) s
  | .delete => callsOf (q.delete db.recorded) s
  | .insertAll rows => callsOf (q.insertAll db.recorded rows) s
  | .upsert rows keys only => callsOf (q.upsert db.recorded rows keys only) s

/-- The operations are the same but for the value that is looked up or the values of records, which
have the same columns. -/
inductive SameButValues : Ending → Ending → Prop
  | get (α : Type) [RowReader α] : SameButValues (.get α) (.get α)
  | getFirst (α : Type) [RowReader α] : SameButValues (.getFirst α) (.getFirst α)
  | first (α : Type) [RowReader α] : SameButValues (.first α) (.first α)
  | find (α : Type) [RowReader α] (id id' : Value) : SameButValues (.find α id) (.find α id')
  | findBy (α : Type) [RowReader α] (column : String) (v v' : Value) :
    SameButValues (.findBy α column v) (.findBy α column v')
  | value (α : Type) [CellReader α] (column : String) :
    SameButValues (.value α column) (.value α column)
  | update {values values' : Record} :
    values.keys = values'.keys → SameButValues (.update values) (.update values')
  | increment (column : String) (amount : Int64) {values values' : Record} :
    values.keys = values'.keys →
      SameButValues (.increment column amount values) (.increment column amount values')
  | decrement (column : String) (amount : Int64) {values values' : Record} :
    values.keys = values'.keys →
      SameButValues (.decrement column amount values) (.decrement column amount values')
  | delete : SameButValues .delete .delete
  | insertAll {rows rows' : List Record} :
    rows.map SortedMap.keys = rows'.map SortedMap.keys →
      SameButValues (.insertAll rows) (.insertAll rows')
  | upsert {rows rows' : List Record} (keys : List String) (only : Option (List String)) :
    rows.map SortedMap.keys = rows'.map SortedMap.keys →
      SameButValues (.upsert rows keys only) (.upsert rows' keys only)

end Ending

/-- What two alike operations send is in step. -/
theorem Action.Alike.calls {r : Action (Recorded σ) α} {r' : Action (Recorded τ) α}
    (h : Alike r r') (s : Session σ) (s' : Session τ) :
    ∃ P, InStep P (callsOf r s) (callsOf r' s') := by
  obtain ⟨calls, calls', hcalls, hcalls', hstep⟩ := h s.recorded s'.recorded
  have hrecord : callsOf r s = calls := hcalls
  have hrecord' : callsOf r' s' = calls' := hcalls'
  rw [hrecord, hrecord']
  exact ⟨_, hstep⟩

/-- Operations that are the same but for values send the same, for queries that are alike. -/
theorem Ending.SameButValues.calls {e e' : Ending} (he : e.SameButValues e') {q q' : Select}
    (h : q.Alike q') {db : Database σ} {db' : Database τ} (hsettings : db.settings = db'.settings)
    (s : Session σ) (s' : Session τ) : ∃ P, InStep P (e.calls q db s) (e'.calls q' db' s') := by
  cases he with
  | get α => exact (Action.Alike.get db db' h).calls s s'
  | getFirst α => exact (Action.Alike.rowOf db db' h "get_one").calls s s'
  | first α => exact (Action.Alike.rowOf db db' (h.setLimit 1) "first").calls s s'
  | find α id id' => exact (Action.Alike.find db db' hsettings h id id').calls s s'
  | findBy α column v v' => exact (Action.Alike.findBy db db' h column v v').calls s s'
  | value α column => exact (Action.Alike.value db db' h column).calls s s'
  | update hcolumns => exact (Action.Alike.update db db' h hcolumns).calls s s'
  | increment column amount hcolumns =>
      exact (Action.Alike.increment db db' h column amount hcolumns).calls s s'
  | decrement column amount hcolumns =>
      have hnegated := Action.Alike.increment db db' h column (Select.saturatingNeg amount) hcolumns
      exact hnegated.calls s s'
  | delete => exact (Action.Alike.delete db db' h).calls s s'
  | insertAll hrows => exact (Action.Alike.insertAll db db' hsettings h hrows).calls s s'
  | upsert keys only hrows =>
      exact (Action.Alike.upsert db db' hsettings h hrows keys only).calls s s'

/-- **Bound values reach no text.**  Two programs with the same masks, ended by operations that are
the same but for values, are run on any two clients.  As long as the answers are the same, the
requests are the same but for their values: after `n` answers that are the same so are the next
requests, and if all answers are the same, so are all requests. -/
theorem bound_values_reach_no_text (db : Database σ) (db' : Database τ) (name : String)
    (steps steps' : List SelectStep) (e e' : Ending) (s : Session σ) (s' : Session τ)
    (hsettings : db.settings = db'.settings)
    (hsteps : steps.map SelectStep.masked = steps'.map SelectStep.masked)
    (he : e.SameButValues e') :
    let calls := e.calls (db.build name steps) db s
    let calls' := e'.calls (db'.build name steps') db' s'
    (∀ n, (calls.take n).map (·.answer) = (calls'.take n).map (·.answer) →
      (calls.take (n + 1)).map (·.request.masked)
        = (calls'.take (n + 1)).map (·.request.masked)) ∧
    (calls.map (·.answer) = calls'.map (·.answer) →
      calls.map (·.request.masked) = calls'.map (·.request.masked)) := by
  intro calls calls'
  have hqueries : (db.build name steps).Alike (db'.build name steps') := by
    have htable : db'.table name = db.table name := by
      unfold Database.table Database.tableName
      rw [hsettings]
    unfold Database.build
    rw [htable, ← hsettings]
    exact Select.alike_applyAll _ _ hsteps
  obtain ⟨P, hstep⟩ := he.calls hqueries hsettings s s'
  exact ⟨fun n => hstep.requests_eq, hstep.all_requests_eq⟩

/-- A text made to look like SQL is bound like any other text, in a condition, in a fragment and in
a record. -/
theorem hostile_values_reach_no_text :
    let db : Database Unit := ⟨.accepting, {}, fun _ => none⟩
    let steps : Value → List SelectStep := fun v =>
      [.condition (.equality .and "name" v),
        .condition (.raw .or "owner = :owner" [("owner", v)])]
    let ending : Value → Ending := fun v =>
      .upsert [.ofList [("id", v), ("note", v)]] ["id"] none
    let calls : Value → List Exchange := fun v =>
      (ending v).calls (db.build "users" (steps v)) db (.new {} ())
    let plain := Value.text "Ann"
    let hostile := Value.text "x' OR :name = \"y\" --"
    (steps plain).map SelectStep.masked = (steps hostile).map SelectStep.masked ∧
      (ending plain).SameButValues (ending hostile) ∧
      (calls plain).map (·.answer) = (calls hostile).map (·.answer) ∧
      (sentStatements (calls hostile)).map (·.sql)
        = ["UPDATE users SET note = $1 WHERE name = $2 OR owner = $3 AND id = $4"] ∧
      (calls plain).map (·.request.masked) = (calls hostile).map (·.request.masked) := by
  intro db steps ending calls plain hostile
  have hsteps : (steps plain).map SelectStep.masked = (steps hostile).map SelectStep.masked := rfl
  have hending : (ending plain).SameButValues (ending hostile) :=
    .upsert ["id"] none (by decide +kernel)
  have hanswers : (calls plain).map (·.answer) = (calls hostile).map (·.answer) := by
    decide +kernel
  refine ⟨hsteps, hending, hanswers, by decide +kernel, ?_⟩
  exact (bound_values_reach_no_text db db "users" (steps plain) (steps hostile) (ending plain)
    (ending hostile) (.new {} ()) (.new {} ()) rfl hsteps hending).2 hanswers

end SqlBuilder
