import SqlBuilder.Proofs.Database.Account

/-!
# Accounts of batches

A batch works through items that hand in one statement each.  Its account lists the attempts between
the commands around them: every item's if the batch is kept, and those up to the item that fails if
it is discarded (`Batched`).  That item's own statement is missing exactly if it could not be
written.
-/

namespace SqlBuilder

variable {σ ι α : Type}

/-- The statements of a list that could be written. -/
def writtenStatements (stmts : List (Except DatabaseError Statement)) : List Statement :=
  stmts.filterMap Except.toOption

/-- Every statement was written, sent and answered. -/
def AllDone (stmts : List (Except DatabaseError Statement)) (attempts : List Attempt) : Prop :=
  stmts = attempts.map (fun a => .ok a.statement) ∧ ∀ a ∈ attempts, a.error? = none

/-- The outcome of a batch over items with these statements. -/
inductive Batched (stmts : List (Except DatabaseError Statement)) :
    Except DatabaseError α → List Exchange → List Attempt → Prop
  | unopened {e : DatabaseError} : Batched stmts (.error e) [⟨.begin, .error e⟩] []
  | stopped {k : Nat} {e : DatabaseError} {attempts : List Attempt}
      {undone : Except DatabaseError Answer} :
    k < stmts.length →
    attempts.map Attempt.statement = writtenStatements (stmts.take (k + 1)) →
      Batched stmts (.error (.batch k e))
        (⟨.begin, .ok .done⟩ :: (attempts.filterMap Attempt.exchange? ++ [⟨.rollback, undone⟩]))
        attempts
  | kept {x : α} {attempts : List Attempt} :
    AllDone stmts attempts →
      Batched stmts (.ok x)
        (⟨.begin, .ok .done⟩ :: (attempts.filterMap Attempt.exchange? ++ [⟨.commit, .ok .done⟩]))
        attempts
  | unkept {e : DatabaseError} {attempts : List Attempt} {undone : Except DatabaseError Answer} :
    AllDone stmts attempts →
      Batched stmts (.error (.batch stmts.length e))
        (⟨.begin, .ok .done⟩ :: (attempts.filterMap Attempt.exchange?
          ++ [⟨.commit, .error e⟩, ⟨.rollback, undone⟩])) attempts

theorem Batched.map {β : Type} {stmts : List (Except DatabaseError Statement)}
    {y : Except DatabaseError α} {calls : List Exchange} {attempts : List Attempt}
    (h : Batched stmts y calls attempts) (f : α → β) :
    Batched stmts (y.map f) calls attempts := by
  cases h with
  | unopened => exact .unopened
  | stopped hk hwritten => exact .stopped hk hwritten
  | kept hdone => exact .kept hdone
  | unkept hdone => exact .unkept hdone

theorem mem_writtenStatements {stmts : List (Except DatabaseError Statement)} {stmt : Statement} :
    stmt ∈ writtenStatements stmts ↔ .ok stmt ∈ stmts := by
  unfold writtenStatements
  rw [List.mem_filterMap]
  constructor
  · rintro ⟨x, hx, hstmt⟩
    cases x with
    | error e => exact nomatch hstmt
    | ok stmt' =>
        cases hstmt
        exact hx
  · intro h
    exact ⟨.ok stmt, h, rfl⟩

/-- A batch hands in statements of its own only. -/
theorem Batched.mem_of_mem {stmts : List (Except DatabaseError Statement)}
    {y : Except DatabaseError α} {calls : List Exchange} {attempts : List Attempt}
    (h : Batched stmts y calls attempts) {a : Attempt} (ha : a ∈ attempts) :
    .ok a.statement ∈ stmts := by
  have hdone : AllDone stmts attempts → .ok a.statement ∈ stmts := by
    rintro ⟨rfl, -⟩
    exact List.mem_map_of_mem ha
  cases h with
  | unopened => exact nomatch ha
  | stopped hk hwritten =>
      have hmem : a.statement ∈ attempts.map Attempt.statement := List.mem_map_of_mem ha
      rw [hwritten, mem_writtenStatements] at hmem
      exact List.mem_of_mem_take hmem
  | kept h => exact hdone h
  | unkept h => exact hdone h

theorem exchanges_cons (a : Attempt) (attempts : List Attempt) :
    (a :: attempts).filterMap Attempt.exchange?
      = a.exchange?.toList ++ attempts.filterMap Attempt.exchange? := by
  cases h : a.exchange? with
  | none => rw [List.filterMap_cons_none h, Option.toList_none, List.nil_append]
  | some x => rw [List.filterMap_cons_some h, Option.toList_some, List.singleton_append]

/-- How the work on the items that are left ends, when `completed` items are done before. -/
def ItemsBatched (completed : Nat) (stmts : List (Except DatabaseError Statement))
    (y : Except DatabaseError (List α)) (calls : List Exchange) (attempts : List Attempt) : Prop :=
  (∃ results, y = .ok results ∧ AllDone stmts attempts ∧
    calls = attempts.filterMap Attempt.exchange?) ∨
  ∃ k e undone, k < stmts.length ∧ y = .error (.batch (completed + k) e) ∧
    attempts.map Attempt.statement = writtenStatements (stmts.take (k + 1)) ∧
    calls = attempts.filterMap Attempt.exchange? ++ [⟨.rollback, undone⟩]

namespace ItemsBatched

variable {Misread : DatabaseError → Prop} {completed : Nat} {stmt : Except DatabaseError Statement}
  {stmts : List (Except DatabaseError Statement)} {calls more : List Exchange}
  {attempts others : List Attempt}

/-- An item that fails ends the work. -/
theorem first {e : DatabaseError} (h : OneAttempt stmt Misread (.error e : Except _ α) calls attempts)
    (undone : Except DatabaseError Answer) :
    ItemsBatched completed (stmt :: stmts) (.error (.batch completed e) : Except _ (List α))
      (calls ++ [⟨.rollback, undone⟩]) attempts := by
  refine .inr ⟨0, e, undone, Nat.zero_lt_succ _, rfl, ?_, ?_⟩
  · cases h with
    | unwritten hstmt => rw [hstmt]; rfl
    | failed hstmt ha => rw [hstmt]; rfl
    | answered hstmt ha hread => rw [hstmt]; rfl
  · cases h with
    | unwritten hstmt => rfl
    | failed hstmt ha => rw [exchanges_cons, List.filterMap_nil, List.append_nil]
    | answered hstmt ha hread => rw [exchanges_cons, List.filterMap_nil, List.append_nil]

/-- What comes of an item that is done and the items behind it. -/
theorem cons {x : α} {y : Except DatabaseError (List α)}
    (h : OneAttempt stmt Misread (.ok x : Except _ α) calls attempts)
    (hrest : ItemsBatched (completed + 1) stmts y more others) :
    ItemsBatched completed (stmt :: stmts) (y.map (x :: ·)) (calls ++ more)
      (attempts ++ others) := by
  cases h with
  | @answered a _ hstmt ha hread =>
      rw [List.singleton_append]
      rcases hrest with ⟨results, rfl, ⟨hwritten, hnone⟩, rfl⟩ | ⟨k, e, undone, hk, rfl, hwritten, rfl⟩
      · refine .inl ⟨x :: results, rfl, ⟨?_, ?_⟩, (exchanges_cons a others).symm⟩
        · rw [List.map_cons, ← hwritten, hstmt]
        · rintro b hb
          rcases List.mem_cons.mp hb with rfl | hb
          · exact ha
          · exact hnone b hb
      · refine .inr ⟨k + 1, e, undone, Nat.succ_lt_succ hk, ?_, ?_, ?_⟩
        · rw [Nat.add_assoc, Nat.add_comm 1]
          rfl
        · rw [List.map_cons, hwritten, List.take_succ_cons, hstmt]
          rfl
        · rw [exchanges_cons, List.append_assoc]

end ItemsBatched

/-! ## Rules -/

namespace Action.Goes

theorem openBatch (db : Database σ) :
    Goes db.client db.openBatch fun y calls attempts =>
      calls = [⟨.begin, y.map fun _ => .done⟩] ∧ attempts = [] := by
  refine (emit .batchBegin).bind (fun _ => ask db .begin rfl db.client.begin fun _ => rfl) ?_ ?_
  · rintro e calls attempts ⟨h, -⟩
    exact nomatch h
  · rintro _ y calls more attempts others ⟨-, rfl, rfl⟩ ⟨rfl, rfl⟩
    exact ⟨rfl, rfl⟩

theorem dropBatch (db : Database σ) (completed : Nat) (cause : DatabaseError) :
    Goes db.client (db.dropBatch completed cause : Action σ α) fun y calls attempts =>
      y = .error (.batch completed cause) ∧ attempts = [] ∧
        ∃ undone, calls = [⟨.rollback, undone⟩] := by
  have hrollback := ask db .rollback rfl db.client.rollback fun _ => rfl
  refine hrollback.attempt.bind (Q := fun _ y calls attempts =>
    y = .error (.batch completed cause) ∧ calls = [] ∧ attempts = []) ?_ ?_ ?_
  · intro x
    -- a rollback that fails is reported and nothing more
    cases x with
    | ok a => exact throw _
    | error e => exact of_silent (fun _ => rfl) (fun _ => rfl) fun _ => rfl
  · rintro e calls attempts ⟨x, h, -⟩
    exact nomatch h
  · rintro x y calls more attempts others ⟨x', -, rfl, rfl⟩ ⟨rfl, rfl, rfl⟩
    exact ⟨rfl, rfl, _, rfl⟩

theorem keepBatch (db : Database σ) (completed : Nat) :
    Goes db.client (db.keepBatch completed) fun y calls attempts =>
      attempts = [] ∧ ((y = .ok () ∧ calls = [⟨.commit, .ok .done⟩]) ∨
        ∃ e undone, y = .error (.batch completed e) ∧
          calls = [⟨.commit, .error e⟩, ⟨.rollback, undone⟩]) := by
  have hcommit := ask db .commit rfl db.client.commit fun _ => rfl
  refine hcommit.attempt.bind (Q := fun x y calls attempts => attempts = [] ∧
    ((∃ u, x = .ok u ∧ y = .ok () ∧ calls = []) ∨
      ∃ e undone, x = .error e ∧ y = .error (.batch completed e) ∧
        calls = [⟨.rollback, undone⟩])) ?_ ?_ ?_
  · intro x
    cases x with
    | ok u =>
        refine (emit _).mono ?_
        rintro y calls attempts ⟨hy, hcalls, hattempts⟩
        exact ⟨hattempts, .inl ⟨u, rfl, hy, hcalls⟩⟩
    | error e =>
        refine (dropBatch db completed e).mono ?_
        rintro y calls attempts ⟨hy, hattempts, undone, hcalls⟩
        exact ⟨hattempts, .inr ⟨e, undone, rfl, hy, hcalls⟩⟩
  · rintro e calls attempts ⟨x, h, -⟩
    exact nomatch h
  · rintro x y calls more attempts others ⟨x', hx, rfl, rfl⟩
      ⟨rfl, ⟨u, rfl, rfl, rfl⟩ | ⟨e, undone, rfl, rfl, rfl⟩⟩
    · cases hx
      exact ⟨rfl, .inl ⟨rfl, rfl⟩⟩
    · cases hx
      exact ⟨rfl, .inr ⟨e, undone, rfl, rfl⟩⟩

variable {Misread : DatabaseError → Prop} {work : ι → Action σ α}
  {stmtOf : ι → Except DatabaseError Statement}

/-- Induction on the items that are left: the first one ends the work, or its account stands before
that of the others. -/
theorem batchItems (db : Database σ)
    (hwork : ∀ item, Goes db.client (work item) (OneAttempt (stmtOf item) Misread)) (completed : Nat)
    (items : List ι) :
    Goes db.client (db.batchItems work completed items)
      (ItemsBatched completed (items.map stmtOf)) := by
  induction items generalizing completed with
  | nil =>
      refine (pure []).mono ?_
      rintro y calls attempts ⟨rfl, rfl, rfl⟩
      exact .inl ⟨[], rfl, ⟨rfl, fun _ h => nomatch h⟩, rfl⟩
  | cons item items ih =>
      refine (hwork item).attempt.bind (Q := fun x y calls attempts =>
          (∃ e undone, x = .error e ∧ y = .error (.batch completed e) ∧
            calls = [⟨.rollback, undone⟩] ∧ attempts = []) ∨
          ∃ a y', x = .ok a ∧ y = y'.map (a :: ·) ∧
            ItemsBatched (completed + 1) (items.map stmtOf) y' calls attempts)
        ?_ ?_ ?_
      · intro x
        cases x with
        | error e =>
            refine (dropBatch db completed e).mono ?_
            rintro y calls attempts ⟨hy, hattempts, undone, hcalls⟩
            exact .inl ⟨e, undone, rfl, hy, hcalls, hattempts⟩
        | ok a =>
            refine ((ih (completed + 1)).map (a :: ·)).mono ?_
            rintro y calls attempts ⟨y', hy, h⟩
            exact .inr ⟨a, y', rfl, hy, h⟩
      · rintro e calls attempts ⟨x, h, -⟩
        exact nomatch h
      · rintro x y calls more attempts others ⟨x', hx, hfirst⟩ h
        cases hx
        rcases h with ⟨e, undone, rfl, rfl, rfl, rfl⟩ | ⟨a, y', rfl, rfl, h⟩
        · rw [List.append_nil]
          exact .first hfirst undone
        · exact .cons hfirst h

/-- The account of a batch, if the work on each item hands in its statement. -/
theorem batch (db : Database σ)
    (hwork : ∀ item, Goes db.client (work item) (OneAttempt (stmtOf item) Misread)) (items : List ι) :
    Goes db.client (db.batch work items) (Batched (items.map stmtOf)) := by
  have hlength : (items.map stmtOf).length = items.length := List.length_map _
  -- the end of the batch, which hands on the results unless it fails
  have hkeep : ∀ results : List α, Goes db.client
      (do db.keepBatch items.length; return results : Action σ (List α))
      fun y calls attempts => attempts = [] ∧
        ((y = .ok results ∧ calls = [⟨.commit, .ok .done⟩]) ∨
          ∃ e undone, y = .error (.batch items.length e) ∧
            calls = [⟨.commit, .error e⟩, ⟨.rollback, undone⟩]) := by
    intro results
    refine ((keepBatch db items.length).map fun _ => results).mono ?_
    rintro y calls attempts ⟨x, rfl, hattempts, ⟨rfl, hcalls⟩ | ⟨e, undone, rfl, hcalls⟩⟩
    · exact ⟨hattempts, .inl ⟨rfl, hcalls⟩⟩
    · exact ⟨hattempts, .inr ⟨e, undone, rfl, hcalls⟩⟩
  refine (openBatch db).bind (fun _ => (batchItems db hwork 0 items).bind hkeep
    (R := fun y calls => Batched (items.map stmtOf) y (⟨.begin, .ok .done⟩ :: calls)) ?_ ?_) ?_ ?_
  · rintro e calls attempts (⟨results, h, -⟩ | ⟨k, e', undone, hk, he, hwritten, rfl⟩)
    · exact nomatch h
    · rw [Nat.zero_add] at he
      cases he
      exact .stopped hk hwritten
  · rintro results y calls more attempts others
      (⟨results', h, hdone, rfl⟩ | ⟨k, e, undone, -, h, -⟩) ⟨rfl, hend⟩
    · cases h
      rw [List.append_nil]
      rcases hend with ⟨rfl, rfl⟩ | ⟨e, undone, rfl, rfl⟩
      · exact .kept hdone
      · rw [← hlength]
        exact .unkept hdone
    · exact nomatch h
  · rintro e calls attempts ⟨rfl, rfl⟩
    exact .unopened
  · rintro _ y calls more attempts others ⟨rfl, rfl⟩ h
    exact h

end Action.Goes

end SqlBuilder
