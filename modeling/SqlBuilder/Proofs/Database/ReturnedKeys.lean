import SqlBuilder.Proofs.Database.Operation
import SqlBuilder.Proofs.Database.UnitOfWork

/-!
# Returned keys

An insertion asks the server for the key of every record and collects the keys in a list.  The
server may return no row for a record, as when a trigger keeps it from being written, and then the
list has no entry for it: every key behind it stands one place too early, and no error says so.  The
keys line up with the records exactly if the server returned a row for each of them
(`keys_line_up_iff`).
-/

namespace SqlBuilder

variable {σ : Type}

/-! ## Answers with rows -/

/-- A client answers a query with rows. -/
theorem Client.Follows.rows_of_query {c : Client σ} {s t : σ} {calls : List Exchange}
    (h : c.Follows s calls t) {sql : String} {values : List Value} {answer : Answer}
    (hx : ⟨.query sql values, .ok answer⟩ ∈ calls) : ∃ rows, answer = .rows rows := by
  obtain ⟨state, hstate⟩ := h.answer_of_mem hx
  have hquery : (c.query sql values state).1.map Answer.rows = .ok answer := hstate
  obtain ⟨rows, -, hrows⟩ := map_eq_ok_iff.mp hquery
  exact ⟨rows, hrows.symm⟩

theorem Action.run_map {α β : Type} (a : Action σ α) (f : α → β) (s : Session σ) :
    (a >>= fun x => pure (f x)).run s = ((a.run s).1.map f, (a.run s).2) := by
  cases h : (a.run s).1 with
  | error e => exact Action.run_bind_error h
  | ok x => exact Action.run_bind_ok h

/-- What an action on the recorded database has asked is what the client behind it was asked. -/
theorem Action.Goes.follows_callsOf {α : Type} {db : Database σ} {r : Action (Recorded σ) α}
    {P : Except DatabaseError α → List Exchange → List Attempt → Prop}
    (h : Action.Goes db.recorded.client r P) (s : Session σ) :
    ∃ t, db.client.Follows s.client (callsOf r s) t := by
  obtain ⟨calls, attempts, haccount, -⟩ := h s.recorded
  obtain ⟨hfollows, hrecord⟩ := Client.Follows.of_recorded haccount.client
  have hcalls : callsOf r s = calls := hrecord
  rw [hcalls]
  exact ⟨_, hfollows⟩

/-! ## Insertions -/

/-- The statement for a record, and the rows that the server returned for it. -/
structure Insertion where
  statement : NumberedStatement
  returned : List Row

namespace Insertion

def exchange (i : Insertion) : Exchange :=
  ⟨.query i.statement.sql i.statement.values, .ok (.rows i.returned)⟩

/-- The statement is that of the record. -/
def IsOf (template : String) (row : Record) (i : Insertion) : Prop :=
  numberParameters template (Select.insertBindings row) = .ok i.statement

/-- The server returned the key: it is the first cell of the first row. -/
def HasKey (i : Insertion) (key : Value) : Prop :=
  ∃ row rest, i.returned = row :: rest ∧ row.cell 0 = .ok key

/-- The server returned the key, or no row and thus none. -/
def Gives (i : Insertion) (key? : Option Value) : Prop :=
  (i.returned = [] ∧ key? = none) ∨ ∃ key, key? = some key ∧ i.HasKey key

/-- The server returned a row at all. -/
def isAnswered (i : Insertion) : Bool :=
  !i.returned.isEmpty

variable {i : Insertion} {insertions : List Insertion} {key : Value} {key? : Option Value}
  {keys : List Value}

theorem isAnswered_iff : i.isAnswered = true ↔ i.returned ≠ [] := by
  simp [isAnswered]

theorem HasKey.isAnswered (h : i.HasKey key) : i.isAnswered = true := by
  obtain ⟨row, rest, hreturned, -⟩ := h
  rw [isAnswered_iff, hreturned]
  exact List.cons_ne_nil row rest

theorem HasKey.unique (h : i.HasKey key) {other : Value} (hother : i.HasKey other) :
    key = other := by
  obtain ⟨row, rest, hreturned, hcell⟩ := h
  obtain ⟨row', rest', hreturned', hcell'⟩ := hother
  rw [hreturned] at hreturned'
  cases hreturned'
  rw [hcell] at hcell'
  exact Except.ok.inj hcell'

theorem Gives.eq_none_iff (h : i.Gives key?) : key? = none ↔ i.returned = [] := by
  rcases h with ⟨hnone, rfl⟩ | ⟨key, rfl, hkey⟩
  · exact iff_of_true rfl hnone
  · exact iff_of_false (fun h => nomatch h) (isAnswered_iff.mp hkey.isAnswered)

theorem Gives.eq_some_iff (h : i.Gives key?) : key? = some key ↔ i.HasKey key := by
  rcases h with ⟨hnone, rfl⟩ | ⟨found, rfl, hfound⟩
  · exact iff_of_false (fun h => nomatch h) fun hkey => isAnswered_iff.mp hkey.isAnswered hnone
  · constructor
    · rintro ⟨⟩
      exact hfound
    · intro hkey
      rw [hfound.unique hkey]

/-- Without the records that have no row, the keys are those of the others in order. -/
theorem hasKey_filterMap {given : List (Option Value)} (h : List.Forall₂ Gives insertions given) :
    List.Forall₂ HasKey (insertions.filter isAnswered) (given.filterMap id) := by
  induction h with
  | nil => exact .nil
  | @cons i key? insertions given hgives _ ih =>
      rcases hgives with ⟨hnone, rfl⟩ | ⟨key, rfl, hkey⟩
      · have hskipped : ¬ i.isAnswered = true := by
          rw [isAnswered_iff]
          exact fun h => h hnone
        rw [List.filter_cons_of_neg hskipped, List.filterMap_cons_none rfl]
        exact ih
      · have hkept : (some key :: given).filterMap id = key :: given.filterMap id := rfl
        rw [List.filter_cons_of_pos hkey.isAnswered, hkept]
        exact .cons hkey ih

theorem isAnswered_of_hasKey (h : List.Forall₂ HasKey insertions keys) :
    ∀ i ∈ insertions, i.isAnswered = true := by
  induction h with
  | nil => exact fun i hi => nomatch hi
  | cons hkey _ ih =>
      intro i hi
      rcases List.mem_cons.mp hi with rfl | hi
      · exact hkey.isAnswered
      · exact ih i hi

/-- The keys stand at the places of their records iff there is a row for each record, and that is
so iff there are as many keys as records. -/
theorem lined_up_iff (h : List.Forall₂ HasKey (insertions.filter isAnswered) keys) :
    (List.Forall₂ HasKey insertions keys ↔ ∀ i ∈ insertions, i.returned ≠ []) ∧
      (keys.length = insertions.length ↔ ∀ i ∈ insertions, i.returned ≠ []) := by
  have hall : (∀ i ∈ insertions, i.returned ≠ []) ↔ ∀ i ∈ insertions, i.isAnswered = true :=
    forall₂_congr fun i _ => isAnswered_iff.symm
  rw [hall]
  constructor
  · refine ⟨isAnswered_of_hasKey, fun hanswered => ?_⟩
    rwa [List.filter_eq_self.mpr hanswered] at h
  · rw [← h.length_eq]
    exact List.length_filter_eq_length_iff

end Insertion

/-! ## What an insertion returns -/

section Answers

variable {keyColumn : Option String} {sql : String} {calls : List Exchange}

/-- Every query among the calls has been answered with rows, if with anything. -/
def QueriesHaveRows (calls : List Exchange) : Prop :=
  ∀ sql values answer, ⟨.query sql values, .ok answer⟩ ∈ calls → ∃ rows, answer = .rows rows

theorem exists_insertion {row : Record} {key? : Option Value} (hkey : keyColumn.isSome = true)
    (hrows : QueriesHaveRows calls)
    (h : OneCall (insertRequest keyColumn sql) returnedKey row (.ok key?) calls) :
    ∃ i : Insertion, i.IsOf sql row ∧ calls = [i.exchange] ∧ i.Gives key? := by
  cases h with
  | @answered request answer _ hrequest hread =>
      cases hnumber : numberParameters sql (Select.insertBindings row) with
      | error e =>
          rw [insertRequest_of_error hnumber] at hrequest
          exact nomatch hrequest
      | ok p =>
          rw [insertRequest_query hkey hnumber] at hrequest
          cases hrequest
          obtain ⟨rows, rfl⟩ := hrows _ _ _ (List.mem_singleton_self _)
          refine ⟨⟨p, rows⟩, hnumber, rfl, ?_⟩
          cases rows with
          | nil =>
              cases hread
              exact .inl ⟨rfl, rfl⟩
          | cons first rest =>
              have hcell : (first.cell 0).map some = .ok key? := hread
              obtain ⟨key, hkey, rfl⟩ := map_eq_ok_iff.mp hcell
              exact .inr ⟨key, rfl, first, rest, rfl, hkey⟩

/-- The records are inserted one after the other, each with its own statement and rows. -/
theorem exists_insertions {rows : List Record} {given : List (Option Value)}
    (hkey : keyColumn.isSome = true) (hrows : QueriesHaveRows calls)
    (h : Completed (OneCall (insertRequest keyColumn sql) returnedKey) rows given calls) :
    ∃ insertions : List Insertion, List.Forall₂ (Insertion.IsOf sql) rows insertions ∧
      calls = insertions.map Insertion.exchange ∧ List.Forall₂ Insertion.Gives insertions given := by
  refine h.exists_forall₂ fun row key? own hown hone => ?_
  exact exists_insertion hkey (fun sql values answer hx => hrows sql values answer (hown hx)) hone

end Answers

/-- The commands around the statements of a unit of work are none themselves. -/
theorem statements_between_commands {own : List Exchange}
    (h : ∀ x ∈ own, x.request.isStatement = true) :
    (⟨.begin, .ok .done⟩ :: (own ++ [⟨.commit, .ok .done⟩])).filter (·.request.isStatement)
      = own := by
  show (own ++ [Exchange.mk .commit (.ok .done)]).filter (·.request.isStatement) = own
  rw [List.filter_append, List.filter_eq_self.mpr h]
  exact List.append_nil _

section Insertions

variable (db : Database σ) (q : Select) (s : Session σ)

theorem insertTemplate_of_insertAll {rows : List Record} {keys : List Value} (hrows : rows ≠ [])
    (h : ((q.insertAll db rows).run s).1 = .ok keys) :
    ∃ sql, q.insertTemplate db.settings.keyColumn rows = .ok sql := by
  cases hsql : q.insertTemplate db.settings.keyColumn rows with
  | ok sql => exact ⟨sql, rfl⟩
  | error e =>
      rw [Select.run_insertAll_of_error db q hrows hsql] at h
      cases h

theorem queriesHaveRows_insertAll (rows : List Record) :
    QueriesHaveRows (callsOf (q.insertAll db.recorded rows) s) := by
  obtain ⟨t, hfollows⟩ := (Action.Goes.insertAll db.recorded q rows).follows_callsOf s
  intro sql values answer hx
  exact hfollows.rows_of_query hx

/-- An insertion that succeeds has asked for every record, and its keys are those it was given. -/
theorem completed_of_insertAll {rows : List Record} {keys : List Value} {sql : String}
    (hrows : rows ≠ []) (hsql : q.insertTemplate db.settings.keyColumn rows = .ok sql)
    (h : ((q.insertAll db rows).run s).1 = .ok keys) :
    ∃ given between,
      Completed (OneCall (insertRequest db.settings.keyColumn sql) returnedKey) rows given between ∧
      callsOf (q.insertAll db.recorded rows) s
        = ⟨.begin, .ok .done⟩ :: (between ++ [⟨.commit, .ok .done⟩]) ∧
      keys = given.filterMap id := by
  have htraces := Action.Traces.insertAll db q hrows hsql
  obtain ⟨result, hresult, hunit⟩ := htraces.calls s
  have hsame : ((q.insertAll db.recorded rows).run s.recorded).1 = .ok keys :=
    (htraces s.recorded).1.trans h
  rw [hsame] at hresult
  obtain ⟨given, rfl, hkeys⟩ := map_eq_ok_iff.mp hresult.symm
  obtain ⟨between, hdone, hcalls⟩ := hunit.completed_of_ok
  exact ⟨given, between, hdone, hcalls, hkeys.symm⟩

end Insertions

/-- The statements of an insertion that succeeds, and the keys that it returns. -/
theorem insertions_of_insertAll (db : Database σ) (q : Select) {rows : List Record}
    {keys : List Value} (s : Session σ) (hkey : db.settings.keyColumn.isSome = true)
    (h : ((q.insertAll db rows).run s).1 = .ok keys) :
    ∃ sql, ∃ insertions : List Insertion, q.insertTemplate db.settings.keyColumn rows = .ok sql ∧
      List.Forall₂ (Insertion.IsOf sql) rows insertions ∧
      (callsOf (q.insertAll db.recorded rows) s).filter (·.request.isStatement)
        = insertions.map Insertion.exchange ∧
      List.Forall₂ Insertion.HasKey (insertions.filter Insertion.isAnswered) keys := by
  by_cases hrows : rows = []
  · subst hrows
    cases h
    exact ⟨_, [], rfl, .nil, rfl, .nil⟩
  · obtain ⟨sql, hsql⟩ := insertTemplate_of_insertAll db q s hrows h
    obtain ⟨given, between, hdone, hcalls, rfl⟩ := completed_of_insertAll db q s hrows hsql h
    have hquery := queriesHaveRows_insertAll db q s rows
    rw [hcalls] at hquery ⊢
    have hbetween : QueriesHaveRows between := fun sql values answer hx =>
      hquery sql values answer (List.mem_cons_of_mem _ (List.mem_append_left _ hx))
    obtain ⟨insertions, hstatements, rfl, hgiven⟩ := exists_insertions hkey hbetween hdone
    have hstatement : ∀ x ∈ insertions.map Insertion.exchange, x.request.isStatement = true := by
      intro x hx
      obtain ⟨i, -, rfl⟩ := List.mem_map.mp hx
      rfl
    exact ⟨sql, insertions, hsql, hstatements, statements_between_commands hstatement,
      Insertion.hasKey_filterMap hgiven⟩

/-- The insertion of one record is that of a list with it alone. -/
theorem insertion_of_insert (db : Database σ) (q : Select) {row : Record} {key? : Option Value}
    (s : Session σ) (hkey : db.settings.keyColumn.isSome = true)
    (h : ((q.insert db row).run s).1 = .ok key?) :
    ∃ sql, ∃ i : Insertion, q.insertTemplate db.settings.keyColumn [row] = .ok sql ∧ i.IsOf sql row ∧
      (callsOf (q.insert db.recorded row) s).filter (·.request.isStatement) = [i.exchange] ∧
      i.Gives key? := by
  have hrun : (q.insert db row).run s
      = (((q.insertAll db [row]).run s).1.map List.head?, ((q.insertAll db [row]).run s).2) :=
    Action.run_map _ _ s
  have hcallsOf : callsOf (q.insert db.recorded row) s
      = callsOf (q.insertAll db.recorded [row]) s :=
    congrArg (·.2.client.2) (Action.run_map (q.insertAll db.recorded [row]) List.head? s.recorded)
  rw [hrun] at h
  obtain ⟨keys, hkeys, rfl⟩ := map_eq_ok_iff.mp h
  obtain ⟨sql, insertions, hsql, hstatements, hcalls, hgiven⟩ :=
    insertions_of_insertAll db q s hkey hkeys
  obtain ⟨i, rest, hi, hrest, rfl⟩ := List.forall₂_cons_left_iff.mp hstatements
  obtain rfl := List.forall₂_nil_left_iff.mp hrest
  refine ⟨sql, i, hsql, hi, by rw [hcallsOf, hcalls, List.map_singleton], ?_⟩
  by_cases hanswered : i.isAnswered = true
  · rw [List.filter_cons_of_pos hanswered, List.filter_nil] at hgiven
    obtain ⟨key, others, hkey, -, rfl⟩ := List.forall₂_cons_left_iff.mp hgiven
    exact .inr ⟨key, rfl, hkey⟩
  · rw [List.filter_cons_of_neg hanswered, List.filter_nil] at hgiven
    obtain rfl := List.forall₂_nil_left_iff.mp hgiven
    rw [Insertion.isAnswered_iff, not_not] at hanswered
    exact .inl ⟨hanswered, rfl⟩

/-! ## The theorem -/

/-- **The keys line up with the records exactly if the server returned a row for each of them.**  An
insertion that succeeds has sent one statement for each record.  It returns the keys of the records
for which the server returned a row, in order, so an entry is missing for every other record.  The
insertion of a single record returns the key that the server returned, and none without a row. -/
theorem keys_line_up_iff (db : Database σ) (q : Select) (s : Session σ)
    (hkey : db.settings.keyColumn.isSome = true) :
    (∀ rows keys, ((q.insertAll db rows).run s).1 = .ok keys →
      ∃ sql, ∃ insertions : List Insertion,
        q.insertTemplate db.settings.keyColumn rows = .ok sql ∧
        List.Forall₂ (Insertion.IsOf sql) rows insertions ∧
        (callsOf (q.insertAll db.recorded rows) s).filter (·.request.isStatement)
          = insertions.map Insertion.exchange ∧
        List.Forall₂ Insertion.HasKey (insertions.filter Insertion.isAnswered) keys ∧
        (List.Forall₂ Insertion.HasKey insertions keys ↔ ∀ i ∈ insertions, i.returned ≠ []) ∧
        (keys.length = rows.length ↔ ∀ i ∈ insertions, i.returned ≠ [])) ∧
    (∀ row key?, ((q.insert db row).run s).1 = .ok key? →
      ∃ sql, ∃ i : Insertion, q.insertTemplate db.settings.keyColumn [row] = .ok sql ∧
        i.IsOf sql row ∧
        (callsOf (q.insert db.recorded row) s).filter (·.request.isStatement) = [i.exchange] ∧
        (key? = none ↔ i.returned = []) ∧ ∀ key, key? = some key ↔ i.HasKey key) := by
  constructor
  · intro rows keys h
    obtain ⟨sql, insertions, hsql, hstatements, hcalls, hkeys⟩ :=
      insertions_of_insertAll db q s hkey h
    obtain ⟨hplaces, hlength⟩ := Insertion.lined_up_iff hkeys
    rw [← hstatements.length_eq] at hlength
    exact ⟨sql, insertions, hsql, hstatements, hcalls, hkeys, hplaces, hlength⟩
  · intro row key? h
    obtain ⟨sql, i, hsql, hstatement, hcalls, hgives⟩ := insertion_of_insert db q s hkey h
    exact ⟨sql, i, hsql, hstatement, hcalls, hgives.eq_none_iff, fun _ => hgives.eq_some_iff⟩

/-- A client that numbers the queries from zero, and returns that number as the only row of each, or
no row where it is silent. -/
def Client.numbering (silent : Nat → Bool) : Client Nat where
  query _ _ n :=
    (.ok (if silent n then [] else [⟨[⟨"id", .int4⟩], [some (Bytes.ofNat 4 n)]⟩]), n + 1)
  execute _ _ n := (.ok 1, n)
  script _ n := (.ok (), n)
  begin n := (.ok (), n)
  commit n := (.ok (), n)
  rollback n := (.ok (), n)

/-- A database where the first queries get a row or none. -/
def Database.numbering (silent : Nat → Bool) : Database Nat :=
  ⟨.numbering silent, {}, fun _ => none⟩

/-- Two records that differ in their value. -/
def twoRecords : List Record := [.ofList [("a", .int 1)], .ofList [("a", .int 2)]]

theorem keys_of_two_records :
    let db := Database.numbering fun _ => false
    let q : Select := { table := "t" }
    ∃ keys, ∃ insertions : List Insertion,
      ((q.insertAll db twoRecords).run (.new {} 0)).1 = .ok keys ∧
      keys.map Value.literal = ["0", "1"] ∧ insertions.length = 2 ∧
      List.Forall₂ Insertion.HasKey insertions keys := by
  intro db q
  have hliterals : (((q.insertAll db twoRecords).run (.new {} 0)).1.map
      (List.map Value.literal)).toOption = some ["0", "1"] := by decide +kernel
  cases hresult : ((q.insertAll db twoRecords).run (.new {} 0)).1 with
  | error e =>
      rw [hresult] at hliterals
      exact nomatch hliterals
  | ok keys =>
      rw [hresult] at hliterals
      have hkeys : keys.map Value.literal = ["0", "1"] := Option.some.inj hliterals
      obtain ⟨sql, insertions, -, hstatements, -, -, hplaces, hlength⟩ :=
        (keys_line_up_iff db q (.new {} 0) rfl).1 twoRecords keys hresult
      have hcount : keys.length = twoRecords.length := by
        rw [← List.length_map (f := Value.literal), hkeys]
        rfl
      exact ⟨keys, insertions, rfl, hkeys, hstatements.length_eq.symm,
        hplaces.mpr (hlength.mp hcount)⟩

/-- The server returns no row for the first record.  The only key is that of the second one, and
stands where the key of the first one is expected. -/
theorem key_stands_one_place_early :
    let db := Database.numbering (· = 0)
    let q : Select := { table := "t" }
    (((q.insertAll db twoRecords).run (.new {} 0)).1.map (List.map Value.literal)).toOption
        = some ["1"] ∧
      ((callsOf (q.insertAll db.recorded twoRecords) (.new {} 0)).filter
          (·.request.isStatement)).map (·.answer.toOption)
        = [some (.rows []), some (.rows [⟨[⟨"id", .int4⟩], [some [0, 0, 0, 1]]⟩])] := by
  decide +kernel

end SqlBuilder
