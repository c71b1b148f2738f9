import Mathlib.Data.List.Forall2
import SqlBuilder.Proofs.Database.Trace

/-!
# Units of work

`UnitOfWork` says which calls a unit of work makes and how it ends.  There are four ways: it is not
opened; an item fails, the items before it having been worked through, and the unit is discarded; it
is kept; or keeping it fails and it is discarded.  Nothing is asked for an item once one has failed,
and whether discarding works changes nothing.

The insertion of records and their update by key are such units, whatever the client answers
(`insertion_and_update_are_units_of_work`): one statement for each record, sent unless it is refused
before.
-/

namespace SqlBuilder

variable {σ ι α : Type}

/-! ## The protocol -/

/-- The items are worked through one after the other, each with its result and its calls. -/
inductive Completed (work : ι → Except DatabaseError α → List Exchange → Prop) :
    List ι → List α → List Exchange → Prop
  | nil : Completed work [] [] []
  | cons {item : ι} {rest : List ι} {a : α} {results : List α} {calls more : List Exchange} :
      work item (.ok a) calls → Completed work rest results more →
      Completed work (item :: rest) (a :: results) (calls ++ more)

/-- The first `k` items are done, the one behind them fails with `e`, and nothing more is asked. -/
inductive Stopped (work : ι → Except DatabaseError α → List Exchange → Prop) :
    List ι → Nat → DatabaseError → List Exchange → Prop
  | intro {before rest : List ι} {item : ι} {results : List α} {calls last : List Exchange}
      {e : DatabaseError} :
      Completed work before results calls → work item (.error e) last →
      Stopped work (before ++ item :: rest) before.length e (calls ++ last)

/-- The calls around work on items, and the outcome. -/
inductive UnitOfWork (work : ι → Except DatabaseError α → List Exchange → Prop) (items : List ι) :
    Except DatabaseError (List α) → List Exchange → Prop
  /-- It cannot be opened, and nothing else is asked. -/
  | unopened {e : DatabaseError} : UnitOfWork work items (.error e) [⟨.begin, .error e⟩]
  | stopped {k : Nat} {e : DatabaseError} {calls : List Exchange}
      {undone : Except DatabaseError Answer} :
      Stopped work items k e calls →
      UnitOfWork work items (.error (.batch k e))
        (⟨.begin, .ok .done⟩ :: (calls ++ [⟨.rollback, undone⟩]))
  | kept {results : List α} {calls : List Exchange} :
      Completed work items results calls →
      UnitOfWork work items (.ok results)
        (⟨.begin, .ok .done⟩ :: (calls ++ [⟨.commit, .ok .done⟩]))
  /-- Every item is done, but the work cannot be made permanent. -/
  | unkept {results : List α} {calls : List Exchange} {e : DatabaseError}
      {undone : Except DatabaseError Answer} :
      Completed work items results calls →
      UnitOfWork work items (.error (.batch items.length e))
        (⟨.begin, .ok .done⟩ :: (calls ++ [⟨.commit, .error e⟩, ⟨.rollback, undone⟩]))

/-- The work on an item that needs one call: refused without it, failed by the client, or done as
far as the answer can be read. -/
inductive OneCall (request : ι → Except DatabaseError Request)
    (read : Answer → Except DatabaseError α) (item : ι) :
    Except DatabaseError α → List Exchange → Prop
  | refused {e : DatabaseError} : request item = .error e → OneCall request read item (.error e) []
  | failed {r : Request} {e : DatabaseError} :
      request item = .ok r → OneCall request read item (.error e) [⟨r, .error e⟩]
  | answered {r : Request} {answer : Answer} {result : Except DatabaseError α} :
      request item = .ok r → read answer = result →
      OneCall request read item result [⟨r, .ok answer⟩]

theorem Stopped.first {work : ι → Except DatabaseError α → List Exchange → Prop} {item : ι}
    {rest : List ι} {e : DatabaseError} {calls : List Exchange} (h : work item (.error e) calls) :
    Stopped work (item :: rest) 0 e calls := by
  show Stopped work ([] ++ item :: rest) ([] : List ι).length e ([] ++ calls)
  exact .intro .nil h

theorem Stopped.cons {work : ι → Except DatabaseError α → List Exchange → Prop} {item : ι}
    {rest : List ι} {a : α} {k : Nat} {e : DatabaseError} {calls more : List Exchange}
    (h : work item (.ok a) calls) (hrest : Stopped work rest k e more) :
    Stopped work (item :: rest) (k + 1) e (calls ++ more) := by
  cases hrest with
  | intro hdone hlast =>
      rw [← List.append_assoc]
      exact .intro (.cons h hdone) hlast

/-- How the work on the items that are left ends, when `completed` items are done before. -/
def ItemsEnd (W : ι → Except DatabaseError α → List Exchange → Prop) (completed : Nat)
    (items : List ι) (y : Except DatabaseError (List α)) (calls : List Exchange) : Prop :=
  (∃ results, y = .ok results ∧ Completed W items results calls) ∨
    ∃ k e done undone, Stopped W items k e done ∧ y = .error (.batch (completed + k) e) ∧
      calls = done ++ [⟨.rollback, undone⟩]

/-- What comes of an item that is done and the items behind it. -/
theorem ItemsEnd.cons {W : ι → Except DatabaseError α → List Exchange → Prop} {completed : Nat}
    {item : ι} {rest : List ι} {a : α} {y : Except DatabaseError (List α)}
    {calls more : List Exchange} (h : W item (.ok a) calls)
    (hrest : ItemsEnd W (completed + 1) rest y more) :
    ItemsEnd W completed (item :: rest) (y.map (a :: ·)) (calls ++ more) := by
  rcases hrest with ⟨results, rfl, hdone⟩ | ⟨k, e, done, undone, hstopped, rfl, rfl⟩
  · exact .inl ⟨a :: results, rfl, .cons h hdone⟩
  · refine .inr ⟨k + 1, e, calls ++ done, undone, .cons h hstopped, ?_, ?_⟩
    · rw [Nat.add_assoc, Nat.add_comm 1]
      rfl
    · rw [List.append_assoc]

/-- A unit of work succeeds iff the last thing asked is to keep it, and that works. -/
theorem UnitOfWork.ok_iff {work : ι → Except DatabaseError α → List Exchange → Prop}
    {items : List ι} {result : Except DatabaseError (List α)} {calls : List Exchange}
    (h : UnitOfWork work items result calls) :
    (∃ results, result = .ok results) ↔ calls.getLast? = some ⟨.commit, .ok .done⟩ := by
  -- the four ways to end differ in their last call
  cases h with
  | unopened => simp
  | @stopped k e calls undone hstopped =>
      rw [← List.cons_append, List.getLast?_concat]
      simp
  | @kept results calls hdone =>
      rw [← List.cons_append, List.getLast?_concat]
      simp
  | @unkept results calls e undone hdone =>
      rw [← List.cons_append, List.getLast?_append]
      simp

/-- Where the work on each item that is done is one call, the calls are one for each, in order. -/
theorem Completed.exists_forall₂ {β : Type}
    {work : ι → Except DatabaseError α → List Exchange → Prop}
    {P : ι → β → Prop} {Q : β → α → Prop} {exchange : β → Exchange} {items : List ι}
    {results : List α} {calls : List Exchange} (h : Completed work items results calls)
    (hone : ∀ item a own, own ⊆ calls → work item (.ok a) own →
      ∃ b, P item b ∧ own = [exchange b] ∧ Q b a) :
    ∃ bs, List.Forall₂ P items bs ∧ calls = bs.map exchange ∧ List.Forall₂ Q bs results := by
  induction h with
  | nil => exact ⟨[], .nil, rfl, .nil⟩
  | @cons item rest a results own more hwork _ ih =>
      obtain ⟨b, hb, hown, ha⟩ := hone item a own (List.subset_append_left own more) hwork
      obtain ⟨bs, hbs, hmore, hresults⟩ := ih fun item a own hsubset =>
        hone item a own fun x hx => List.mem_append_right _ (hsubset hx)
      exact ⟨b :: bs, .cons hb hbs, by rw [hown, hmore]; rfl, .cons ha hresults⟩

/-- No call failed. -/
def Answered (calls : List Exchange) : Prop :=
  ∀ x ∈ calls, ∃ answer, x.answer = .ok answer

theorem not_answered_of_mem {x : Exchange} {calls : List Exchange} {e : DatabaseError}
    (hx : x ∈ calls) (he : x.answer = .error e) : ¬ Answered calls := by
  intro h
  obtain ⟨answer, hanswer⟩ := h x hx
  rw [he] at hanswer
  exact nomatch hanswer

/-- The work on the item succeeds iff no call for it fails. -/
def SucceedsIfAnswered (work : ι → Except DatabaseError α → List Exchange → Prop) (item : ι) :
    Prop :=
  ∀ y own, work item y own → ((∃ a, y = .ok a) ↔ Answered own)

theorem Completed.answered {work : ι → Except DatabaseError α → List Exchange → Prop}
    {items : List ι} {results : List α} {calls : List Exchange}
    (h : Completed work items results calls)
    (hwork : ∀ item ∈ items, SucceedsIfAnswered work item) : Answered calls := by
  induction h with
  | nil => exact fun _ hx => nomatch hx
  | cons hitem _ ih =>
      obtain ⟨hfirst, hrest⟩ := List.forall_mem_cons.mp hwork
      intro x hx
      rcases List.mem_append.mp hx with hx | hx
      · exact (hfirst _ _ hitem).mp ⟨_, rfl⟩ x hx
      · exact ih hrest x hx

/-- Where the work on each item succeeds iff no call for it fails, so does the whole unit. -/
theorem UnitOfWork.ok_iff_answered {work : ι → Except DatabaseError α → List Exchange → Prop}
    {items : List ι} {result : Except DatabaseError (List α)} {calls : List Exchange}
    (h : UnitOfWork work items result calls)
    (hwork : ∀ item ∈ items, SucceedsIfAnswered work item) :
    (∃ results, result = .ok results) ↔ Answered calls := by
  have hfailed : ∀ {e : DatabaseError}, ¬ ∃ results : List α, Except.error e = .ok results :=
    fun ⟨_, h⟩ => nomatch h
  cases h with
  | unopened => exact iff_of_false hfailed (not_answered_of_mem List.mem_cons_self rfl)
  | @stopped k e calls undone hstopped =>
      refine iff_of_false hfailed fun hall => ?_
      cases hstopped with
      | @intro before rest item _ _ last _ _ hlast =>
          -- the item that failed has a call that failed
          have hitem := hwork item (List.mem_append_right before List.mem_cons_self) _ _ hlast
          obtain ⟨a, h⟩ := hitem.mpr fun x hx => hall x (List.mem_cons_of_mem _
            (List.mem_append_left _ (List.mem_append_right _ hx)))
          exact nomatch h
  | @kept results calls hdone =>
      refine iff_of_true ⟨results, rfl⟩ fun x hx => ?_
      rcases List.mem_cons.mp hx with rfl | hx
      · exact ⟨_, rfl⟩
      rcases List.mem_append.mp hx with hx | hx
      · exact hdone.answered hwork x hx
      · rw [List.mem_singleton.mp hx]
        exact ⟨_, rfl⟩
  | @unkept results calls e undone hdone =>
      have hmem : (⟨.commit, .error e⟩ : Exchange)
          ∈ ⟨.begin, .ok .done⟩ :: (calls ++ [⟨.commit, .error e⟩, ⟨.rollback, undone⟩]) :=
        List.mem_cons_of_mem _ (List.mem_append_right _ List.mem_cons_self)
      exact iff_of_false hfailed (not_answered_of_mem hmem rfl)

/-- One call whose answer can be read whatever it is. -/
theorem OneCall.succeedsIfAnswered {request : ι → Except DatabaseError Request}
    {read : Answer → Except DatabaseError α} {item : ι} (hrequest : ∃ r, request item = .ok r)
    (hread : ∀ answer, ∃ a, read answer = .ok a) :
    SucceedsIfAnswered (OneCall request read) item := by
  obtain ⟨r, hr⟩ := hrequest
  intro y own h
  cases h with
  | refused he =>
      rw [hr] at he
      exact nomatch he
  | failed _ =>
      exact iff_of_false (fun ⟨_, h⟩ => nomatch h) (not_answered_of_mem List.mem_cons_self rfl)
  | @answered r answer _ _ hy =>
      obtain ⟨a, ha⟩ := hread answer
      refine iff_of_true ⟨a, hy.symm.trans ha⟩ fun x hx => ?_
      rw [List.mem_singleton.mp hx]
      exact ⟨answer, rfl⟩

/-- An item that is done with one call has been asked for. -/
theorem Completed.request_ok {request : ι → Except DatabaseError Request}
    {read : Answer → Except DatabaseError α} {items : List ι} {results : List α}
    {calls : List Exchange} (h : Completed (OneCall request read) items results calls) :
    ∀ item ∈ items, ∃ r, request item = .ok r := by
  induction h with
  | nil => exact fun _ hitem => nomatch hitem
  | cons hone _ ih =>
      refine List.forall_mem_cons.mpr ⟨?_, ih⟩
      cases hone with
      | answered hr => exact ⟨_, hr⟩

/-- A unit of work that succeeds has done all its items between its two commands. -/
theorem UnitOfWork.completed_of_ok {work : ι → Except DatabaseError α → List Exchange → Prop}
    {items : List ι} {results : List α} {calls : List Exchange}
    (h : UnitOfWork work items (.ok results) calls) :
    ∃ between, Completed work items results between ∧
      calls = ⟨.begin, .ok .done⟩ :: (between ++ [⟨.commit, .ok .done⟩]) := by
  cases h with
  | @kept _ between hdone => exact ⟨between, hdone, rfl⟩

/-- No unit of work is done without a call. -/
theorem UnitOfWork.calls_ne_nil {work : ι → Except DatabaseError α → List Exchange → Prop}
    {items : List ι} {result : Except DatabaseError (List α)} {calls : List Exchange}
    (h : UnitOfWork work items result calls) : calls ≠ [] := by
  cases h <;> exact List.cons_ne_nil _ _

/-! ## Batches follow the protocol -/

namespace Action.Traces

theorem openBatch (db : Database σ) :
    Traces db.openBatch db.recorded.openBatch fun y calls =>
      calls = [⟨.begin, y.map fun _ => .done⟩] := by
  refine (emit .batchBegin).bind (fun _ => ask db .begin (fun _ => .done) db.client.begin) ?_ ?_
  · rintro e calls ⟨h, -⟩
    exact nomatch h
  · rintro _ y before after ⟨-, rfl⟩ rfl
    rfl

/-- Whatever comes of the rollback, the cause goes on. -/
theorem dropBatch (db : Database σ) (completed : Nat) (cause : DatabaseError) :
    Traces (db.dropBatch completed cause : Action σ α) (db.recorded.dropBatch completed cause)
      fun y calls => y = .error (.batch completed cause) ∧
        ∃ undone, calls = [⟨.rollback, undone⟩] := by
  refine (ask db .rollback (fun _ => .done) db.client.rollback).attempt.bind
    (Q := fun _ y calls => y = .error (.batch completed cause) ∧ calls = []) ?_ ?_ ?_
  · intro x
    -- a rollback that fails is reported and nothing more
    cases x with
    | ok a => exact throw _
    | error e => exact fun _ => ⟨rfl, rfl, [], (List.append_nil _).symm, rfl, rfl⟩
  · rintro e calls ⟨x, h, -⟩
    exact nomatch h
  · rintro x y before after ⟨x', -, rfl⟩ ⟨rfl, rfl⟩
    exact ⟨rfl, _, rfl⟩

theorem keepBatch (db : Database σ) (completed : Nat) :
    Traces (db.keepBatch completed) (db.recorded.keepBatch completed) fun y calls =>
      (y = .ok () ∧ calls = [⟨.commit, .ok .done⟩]) ∨
        ∃ e undone, y = .error (.batch completed e) ∧
          calls = [⟨.commit, .error e⟩, ⟨.rollback, undone⟩] := by
  refine (ask db .commit (fun _ => .done) db.client.commit).attempt.bind
    (Q := fun x y calls => (∃ u, x = .ok u ∧ y = .ok () ∧ calls = []) ∨
      ∃ e undone, x = .error e ∧ y = .error (.batch completed e) ∧
        calls = [⟨.rollback, undone⟩]) ?_ ?_ ?_
  · intro x
    cases x with
    | ok u => exact (emit _).mono fun y calls h => .inl ⟨u, rfl, h⟩
    | error e =>
        refine (dropBatch db completed e).mono ?_
        rintro y calls ⟨hy, undone, hcalls⟩
        exact .inr ⟨e, undone, rfl, hy, hcalls⟩
  · rintro e calls ⟨x, h, -⟩
    exact nomatch h
  · rintro x y before after ⟨x', hx, rfl⟩ (⟨u, rfl, rfl, rfl⟩ | ⟨e, undone, rfl, rfl, rfl⟩)
    · cases hx
      exact .inl ⟨rfl, rfl⟩
    · cases hx
      exact .inr ⟨e, undone, rfl, rfl⟩

/-- Induction on the items that are left: the first one fails, or its calls stand before those for
the others. -/
theorem batchItems (db : Database σ) {work : ι → Action σ α} {workR : ι → Action (Recorded σ) α}
    {W : ι → Except DatabaseError α → List Exchange → Prop}
    (hwork : ∀ item, Traces (work item) (workR item) (W item)) (completed : Nat)
    (items : List ι) :
    Traces (db.batchItems work completed items) (db.recorded.batchItems workR completed items)
      (ItemsEnd W completed items) := by
  induction items generalizing completed with
  | nil =>
      refine (pure []).mono ?_
      rintro y calls ⟨rfl, rfl⟩
      exact .inl ⟨[], rfl, .nil⟩
  | cons item items ih =>
      refine (hwork item).attempt.bind
        (Q := fun x y calls =>
          (∃ e undone, x = .error e ∧ y = .error (.batch completed e) ∧
            calls = [⟨.rollback, undone⟩]) ∨
          ∃ a y', x = .ok a ∧ y = y'.map (a :: ·) ∧ ItemsEnd W (completed + 1) items y' calls)
        ?_ ?_ ?_
      · intro x
        cases x with
        | error e =>
            -- here the loop ends, with the number of items that were done
            refine (dropBatch db completed e).mono ?_
            rintro y calls ⟨hy, undone, hcalls⟩
            exact .inl ⟨e, undone, rfl, hy, hcalls⟩
        | ok a =>
            refine (ih (completed + 1)).bind (fun results => pure (a :: results)) ?_ ?_
            · intro e calls h
              exact .inr ⟨a, .error e, rfl, rfl, h⟩
            · rintro results y calls after h ⟨rfl, rfl⟩
              rw [List.append_nil]
              exact .inr ⟨a, .ok results, rfl, rfl, h⟩
      · rintro e calls ⟨x, h, -⟩
        exact nomatch h
      · rintro x y first others ⟨x', hx, hfirst⟩ h
        cases hx
        rcases h with ⟨e, undone, rfl, rfl, rfl⟩ | ⟨a, y', rfl, rfl, h⟩
        · exact .inr ⟨0, e, first, undone, .first hfirst, rfl, rfl⟩
        · exact .cons hfirst h

/-- **A batch is a unit of work**, if the work on each item goes as `W` says. -/
theorem batch (db : Database σ) {work : ι → Action σ α} {workR : ι → Action (Recorded σ) α}
    {W : ι → Except DatabaseError α → List Exchange → Prop}
    (hwork : ∀ item, Traces (work item) (workR item) (W item)) (items : List ι) :
    Traces (db.batch work items) (db.recorded.batch workR items) (UnitOfWork W items) := by
  -- the end of the unit, which hands on the results unless it fails
  have hkeep : ∀ results : List α, Traces
      (do db.keepBatch items.length; return results : Action σ (List α))
      (do db.recorded.keepBatch items.length; return results)
      fun y calls => (y = .ok results ∧ calls = [⟨.commit, .ok .done⟩]) ∨
        ∃ e undone, y = .error (.batch items.length e) ∧
          calls = [⟨.commit, .error e⟩, ⟨.rollback, undone⟩] := by
    intro results
    refine (keepBatch db items.length).bind (fun _ => pure results) ?_ ?_
    · rintro e calls (⟨h, -⟩ | ⟨e', undone, he, hcalls⟩)
      · exact nomatch h
      · cases he
        exact .inr ⟨e', undone, rfl, hcalls⟩
    · rintro _ y before after (⟨-, rfl⟩ | ⟨e, undone, h, -⟩) ⟨rfl, rfl⟩
      · exact .inl ⟨rfl, rfl⟩
      · exact nomatch h
  refine (openBatch db).bind (fun _ => (batchItems db hwork 0 items).bind hkeep
    (R := fun y calls => UnitOfWork W items y (⟨.begin, .ok .done⟩ :: calls)) ?_ ?_) ?_ ?_
  · rintro e calls (⟨results, h, -⟩ | ⟨k, e', done, undone, hstopped, he, rfl⟩)
    · exact nomatch h
    · rw [Nat.zero_add] at he
      cases he
      exact .stopped hstopped
  · rintro results y before after (⟨results', h, hdone⟩ | ⟨k, e, done, undone, -, h, -⟩) hend
    · cases h
      rcases hend with ⟨rfl, rfl⟩ | ⟨e, undone, rfl, rfl⟩
      · exact .kept hdone
      · exact .unkept hdone
    · exact nomatch h
  · rintro e calls rfl
    exact .unopened
  · rintro _ y before after rfl h
    exact h

end Action.Traces

/-! ## Insertion and update -/

/-- The statement for one record, as it is sent. -/
def insertRequest (keyColumn : Option String) (sql : String) (row : Record) :
    Except DatabaseError Request :=
  (numberParameters sql (Select.insertBindings row)).map fun p =>
    if keyColumn.isSome then .query p.sql p.values else .execute p.sql p.values

/-- The key of the record in an answer: the first cell of the first row. -/
def returnedKey : Answer → Except DatabaseError (Option Value)
  | .rows (row :: _) => some <$> row.cell 0
  | _ => .ok none

/-- The update of one row, as it is sent: nothing may be left without a value, and no two values may
meet under one name. -/
def updateRequest (q : Select) (plan : Select.KeyedUpdate) : Except DatabaseError Request := do
  if plan.fields.isEmpty then throw (.validation .noAssignments)
  let stmt ← (q.addCondition (.all plan.keys.entries)).updateStatement [] plan.fields "update"
  let p ← numberParameters stmt.sql stmt.params
  return .execute p.sql p.values

theorem updateRequest_eq_ok {q : Select} {plan : Select.KeyedUpdate} {request : Request}
    (h : updateRequest q plan = .ok request) :
    ¬ plan.fields.isEmpty = true ∧ ∃ stmt p,
      (q.addCondition (.all plan.keys.entries)).updateStatement [] plan.fields "update" = .ok stmt ∧
        numberParameters stmt.sql stmt.params = .ok p ∧ request = .execute p.sql p.values := by
  unfold updateRequest at h
  split at h
  · exact nomatch h
  · next hfields =>
    obtain ⟨stmt, hstmt, h⟩ := bind_eq_ok h
    obtain ⟨p, hnumber, h⟩ := bind_eq_ok h
    cases h
    exact ⟨hfields, stmt, p, hstmt, hnumber, rfl⟩

/-- The number of rows in an answer. -/
def affectedRows : Answer → Except DatabaseError Nat
  | .affected count => .ok count
  | _ => .ok 0

theorem insertRequest_of_error {keyColumn : Option String} {sql : String} {row : Record}
    {e : DatabaseError} (h : numberParameters sql (Select.insertBindings row) = .error e) :
    insertRequest keyColumn sql row = .error e := by
  rw [insertRequest, h]
  rfl

theorem insertRequest_query {keyColumn : Option String} {sql : String} {row : Record}
    {p : NumberedStatement} (hkey : keyColumn.isSome = true)
    (h : numberParameters sql (Select.insertBindings row) = .ok p) :
    insertRequest keyColumn sql row = .ok (.query p.sql p.values) := by
  rw [insertRequest, h]
  show Except.ok (if keyColumn.isSome then _ else _) = _
  rw [if_pos hkey]

theorem insertRequest_execute {keyColumn : Option String} {sql : String} {row : Record}
    {p : NumberedStatement} (hkey : ¬ keyColumn.isSome = true)
    (h : numberParameters sql (Select.insertBindings row) = .ok p) :
    insertRequest keyColumn sql row = .ok (.execute p.sql p.values) := by
  rw [insertRequest, h]
  show Except.ok (if keyColumn.isSome then _ else _) = _
  rw [if_neg hkey]

namespace Action.Traces

theorem insertRow (db : Database σ) (q : Select) (sql : String) (row : Record) :
    Traces (q.insertRow db sql row) (q.insertRow db.recorded sql row)
      (OneCall (insertRequest db.settings.keyColumn sql) returnedKey row) := by
  have hsettings : db.recorded.settings = db.settings := rfl
  unfold Select.insertRow
  rw [hsettings]
  by_cases hkey : db.settings.keyColumn.isSome = true
  · rw [if_pos hkey, if_pos hkey]
    -- the key is read off the first row, if there is one
    refine (firstRow db _).bind
      (Q := fun first y calls => y = returnedKey (.rows first.toList) ∧ calls = []) ?_ ?_ ?_
    · intro first
      cases first with
      | none => exact pure none
      | some r =>
          refine (settle (r.cell 0)).bind (fun key => pure (some key)) ?_ ?_
          · rintro e calls ⟨he, rfl⟩
            exact ⟨by rw [Option.toList_some, returnedKey, ← he]; rfl, rfl⟩
          · rintro key y before after ⟨hv, rfl⟩ ⟨rfl, rfl⟩
            exact ⟨by rw [Option.toList_some, returnedKey, ← hv]; rfl, rfl⟩
    · rintro e calls (⟨e', h, he, rfl⟩ | ⟨p, h, rows, hrows, rfl⟩)
      · cases he
        exact .refused (insertRequest_of_error h)
      · cases rows with
        | error e' =>
            cases hrows
            exact .failed (insertRequest_query hkey h)
        | ok rows => exact nomatch hrows
    · rintro first y before after (⟨e', -, he, -⟩ | ⟨p, h, rows, hrows, rfl⟩) ⟨rfl, rfl⟩
      · exact nomatch he
      · cases rows with
        | error e' => exact nomatch hrows
        | ok rows =>
            cases hrows
            rw [List.append_nil]
            refine .answered (insertRequest_query hkey h) ?_
            cases rows <;> rfl
  · rw [if_neg hkey, if_neg hkey]
    refine (execute db _).bind (fun _ => pure none) ?_ ?_
    · rintro e calls (⟨e', h, he, rfl⟩ | ⟨p, h, rfl⟩)
      · cases he
        exact .refused (insertRequest_of_error h)
      · exact .failed (insertRequest_execute hkey h)
    · rintro n y before after (⟨e', -, he, -⟩ | ⟨p, h, rfl⟩) ⟨rfl, rfl⟩
      · exact nomatch he
      · exact .answered (insertRequest_execute hkey h) rfl

theorem updateByKey (db : Database σ) (q : Select) (plan : Select.KeyedUpdate) :
    Traces (q.updateByKey db plan) (q.updateByKey db.recorded plan)
      (OneCall (updateRequest q) affectedRows plan) := by
  unfold Select.updateByKey Select.update
  by_cases hfields : plan.fields.isEmpty = true
  · rw [if_pos hfields, if_pos hfields]
    have hrefused : updateRequest q plan = .error (.validation .noAssignments) := by
      rw [updateRequest, if_pos hfields]
      rfl
    have hthrow : Traces (MonadExcept.throw _ : Action σ Nat) (MonadExcept.throw _) _ :=
      throw (.validation .noAssignments)
    refine hthrow.mono ?_
    rintro y calls ⟨rfl, rfl⟩
    exact .refused hrefused
  · rw [if_neg hfields, if_neg hfields]
    -- a name that is taken is refused while the statement is written, the rest when it is sent
    refine (settle _).bind (fun stmt => execute db stmt) ?_ ?_
    · rintro e calls ⟨he, rfl⟩
      refine .refused ?_
      rw [updateRequest, if_neg hfields, ← he]
      rfl
    · rintro stmt y before after ⟨hstmt, rfl⟩ (⟨e, h, rfl, rfl⟩ | ⟨p, h, rfl⟩)
      · refine .refused ?_
        rw [updateRequest, if_neg hfields, ← hstmt]
        show (numberParameters stmt.sql stmt.params >>= _) = _
        rw [h]
        rfl
      · have hsent : updateRequest q plan = .ok (.execute p.sql p.values) := by
          rw [updateRequest, if_neg hfields, ← hstmt]
          show (numberParameters stmt.sql stmt.params >>= _) = _
          rw [h]
          rfl
        cases y with
        | error e => exact .failed hsent
        | ok count => exact .answered hsent rfl

theorem insertAll (db : Database σ) (q : Select) {rows : List Record} {sql : String}
    (hrows : rows ≠ []) (hsql : q.insertTemplate db.settings.keyColumn rows = .ok sql) :
    Traces (q.insertAll db rows) (q.insertAll db.recorded rows) fun y calls =>
      ∃ result, y = result.map (List.filterMap id) ∧
        UnitOfWork (OneCall (insertRequest db.settings.keyColumn sql) returnedKey) rows result
          calls := by
  have hnonempty : ¬ rows.isEmpty = true := fun h => hrows (List.isEmpty_iff.mp h)
  have hsettings : db.recorded.settings = db.settings := rfl
  unfold Select.insertAll
  rw [if_neg hnonempty, if_neg hnonempty, hsettings, hsql]
  exact (batch db (insertRow db q sql) rows).map (List.filterMap id)

theorem upsert (db : Database σ) (q : Select) {rows : List Record} {keys : List String}
    {only : Option (List String)} {plans : List Select.KeyedUpdate} (hrows : rows ≠ [])
    (honly : only ≠ some []) (hkeys : keys ≠ [])
    (hplans : Select.splitRecords keys only 0 rows = .ok plans) :
    Traces (q.upsert db rows keys only) (q.upsert db.recorded rows keys only) fun y calls =>
      ∃ result, y = result.map (List.foldl (· + ·) 0) ∧
        UnitOfWork (OneCall (updateRequest q) affectedRows) plans result calls := by
  have hnonempty : ¬ rows.isEmpty = true := fun h => hrows (List.isEmpty_iff.mp h)
  have hkeyed : ¬ keys.isEmpty = true := fun h => hkeys (List.isEmpty_iff.mp h)
  unfold Select.upsert
  rw [if_neg hnonempty, if_neg honly, if_neg hkeyed, if_neg hnonempty, if_neg honly,
    if_neg hkeyed, hplans]
  exact (batch db (updateByKey db q) plans).map (List.foldl (· + ·) 0)

/-- Records that do not pass the checks are not updated, and nothing is asked for them. -/
theorem upsert_or_nothing (db : Database σ) (q : Select) (rows : List Record) (keys : List String)
    {only : Option (List String)} (honly : only ≠ some []) :
    Traces (q.upsert db rows keys only) (q.upsert db.recorded rows keys only) fun _ calls =>
      calls = [] ∨ ∃ plans result, Select.splitRecords keys only 0 rows = .ok plans ∧
        UnitOfWork (OneCall (updateRequest q) affectedRows) plans result calls := by
  by_cases hrows : rows = []
  · subst hrows
    exact (pure 0).mono fun _ _ h => .inl h.2
  have hnonempty : ¬ rows.isEmpty = true := fun h => hrows (List.isEmpty_iff.mp h)
  by_cases hkeys : keys = []
  · subst hkeys
    unfold Select.upsert
    rw [if_neg hnonempty, if_neg honly, if_neg hnonempty, if_neg honly]
    exact (throw (.validation .noUpsertKeys)).mono fun _ _ h => .inl h.2
  cases hplans : Select.splitRecords keys only 0 rows with
  | error e =>
      have hkeyed : ¬ keys.isEmpty = true := fun h => hkeys (List.isEmpty_iff.mp h)
      unfold Select.upsert
      rw [if_neg hnonempty, if_neg honly, if_neg hkeyed, if_neg hnonempty, if_neg honly,
        if_neg hkeyed, hplans]
      exact (throw e).mono fun _ _ h => .inl h.2
  | ok plans =>
      refine (upsert db q hrows honly hkeys hplans).mono ?_
      rintro y calls ⟨result, -, hunit⟩
      exact .inr ⟨plans, result, rfl, hunit⟩

end Action.Traces

/-- Records that set different columns are refused, and the session stays as it is. -/
theorem Select.run_insertAll_of_error (db : Database σ) (q : Select) {rows : List Record}
    {e : DatabaseError} (hrows : rows ≠ [])
    (h : q.insertTemplate db.settings.keyColumn rows = .error e) (s : Session σ) :
    (q.insertAll db rows).run s = (.error e, s) := by
  have hnonempty : ¬ rows.isEmpty = true := fun hnil => hrows (List.isEmpty_iff.mp hnil)
  unfold Select.insertAll
  rw [if_neg hnonempty, h]
  rfl

/-- The index of a record is told to the caller if the record fails, and matters for nothing else. -/
theorem splitRecord_of_eq_ok {keys : List String} {only : Option (List String)} {i : Nat}
    {row : Record} {plan : Select.KeyedUpdate} (h : Select.splitRecord keys only i row = .ok plan)
    (j : Nat) : Select.splitRecord keys only j row = .ok plan := by
  unfold Select.splitRecord at h ⊢
  split at h
  · exact nomatch h
  · next hkeys => exact h

/-- Every record that passes the check becomes one update, from itself alone. -/
theorem forall₂_splitRecords {keys : List String} {only : Option (List String)} {i : Nat}
    {rows : List Record} {plans : List Select.KeyedUpdate}
    (h : Select.splitRecords keys only i rows = .ok plans) :
    List.Forall₂ (fun row plan => Select.splitRecord keys only 0 row = .ok plan) rows plans := by
  induction rows generalizing i plans with
  | nil =>
      cases h
      exact .nil
  | cons row rows ih =>
      unfold Select.splitRecords at h
      obtain ⟨plan, hplan, h⟩ := bind_eq_ok h
      obtain ⟨rest, hrest, h⟩ := bind_eq_ok h
      cases h
      exact .cons (splitRecord_of_eq_ok hplan 0) (ih hrest)

theorem length_splitRecords {keys : List String} {only : Option (List String)} {i : Nat}
    {rows : List Record} {plans : List Select.KeyedUpdate}
    (h : Select.splitRecords keys only i rows = .ok plans) : plans.length = rows.length :=
  (forall₂_splitRecords h).length_eq.symm

/-- **Insertion and update are units of work, whatever the client answers.**  For records that pass
the checks before, the calls are those of one unit, with one statement for each record up to the
first that fails; the outcome is the error of opening, the error of a batch with the number of
records done before its cause, or what the answers say.  It is a success iff the last call was a
commit that worked. -/
theorem insertion_and_update_are_units_of_work (db : Database σ) (q : Select) (rows : List Record)
    (s : Session σ) (hrows : rows ≠ []) :
    (∀ sql, q.insertTemplate db.settings.keyColumn rows = .ok sql →
      ∃ result calls,
        UnitOfWork (OneCall (insertRequest db.settings.keyColumn sql) returnedKey) rows result
          calls ∧
        ((q.insertAll db rows).run s).1 = result.map (List.filterMap id) ∧
        ((q.insertAll db.recorded rows).run s.recorded).2.client.2 = calls ∧
        ((∃ results, result = .ok results) ↔ calls.getLast? = some ⟨.commit, .ok .done⟩)) ∧
    (∀ keys only plans, only ≠ some [] → keys ≠ [] →
      Select.splitRecords keys only 0 rows = .ok plans →
      plans.length = rows.length ∧
      ∃ result calls,
        UnitOfWork (OneCall (updateRequest q) affectedRows) plans result calls ∧
        ((q.upsert db rows keys only).run s).1 = result.map (List.foldl (· + ·) 0) ∧
        ((q.upsert db.recorded rows keys only).run s.recorded).2.client.2 = calls ∧
        ((∃ results, result = .ok results) ↔ calls.getLast? = some ⟨.commit, .ok .done⟩)) := by
  constructor
  · intro sql hsql
    obtain ⟨hresult, -, calls, hcalls, result, hy, hunit⟩ :=
      Action.Traces.insertAll db q hrows hsql s.recorded
    exact ⟨result, calls, hunit, hresult.symm.trans hy, hcalls, hunit.ok_iff⟩
  · intro keys only plans honly hkeys hplans
    refine ⟨length_splitRecords hplans, ?_⟩
    obtain ⟨hresult, -, calls, hcalls, result, hy, hunit⟩ :=
      Action.Traces.upsert db q hrows honly hkeys hplans s.recorded
    exact ⟨result, calls, hunit, hresult.symm.trans hy, hcalls, hunit.ok_iff⟩

/-- One record with a key and a value, inserted and then updated by its key. -/
theorem units_of_work_of_one_record :
    let db : Database Unit := ⟨.accepting, {}, fun _ => none⟩
    let q : Select := { table := "users" }
    let row : Record := .ofList [("id", .int 1), ("name", .text "Ann")]
    let plan : Select.KeyedUpdate := ⟨.ofList [("id", .int 1)], .ofList [("name", .text "Ann")]⟩
    (∃ result calls,
      UnitOfWork (OneCall (insertRequest (some "id")
        "INSERT INTO users (id, name) VALUES (:id, :name) RETURNING id") returnedKey) [row] result
        calls ∧
      ((q.insertAll db [row]).run (.new {} ())).1 = result.map (List.filterMap id)) ∧
    ∃ result calls,
      UnitOfWork (OneCall (updateRequest q) affectedRows) [plan] result calls ∧
      ((q.upsert db [row] ["id"] none).run (.new {} ())).1 = result.map (List.foldl (· + ·) 0) := by
  intro db q row plan
  obtain ⟨hinsert, hupsert⟩ := insertion_and_update_are_units_of_work db q [row] (.new {} ())
    (List.cons_ne_nil row [])
  obtain ⟨result, calls, hunit, hresult, -⟩ := hinsert _ rfl
  obtain ⟨-, result', calls', hunit', hresult', -⟩ :=
    hupsert ["id"] none [plan] (by decide) (by decide) rfl
  exact ⟨⟨result, calls, hunit, hresult⟩, result', calls', hunit', hresult'⟩

end SqlBuilder
