import SqlBuilder.Proofs.Database.Operation
import SqlBuilder.Proofs.Placeholder.Numbering

/-!
# Refused requests

What is wrong with a request is found out at many places: before a statement is written, when its
placeholders are numbered, and again for every row of a batch.  A bare validation error nevertheless
tells that the client was not asked for anything, and one inside a batch that the batch was opened
and discarded (`validation_error_tells_calls`).  This holds as long as neither the client nor the
reading of rows reports such errors on its own.
-/

namespace SqlBuilder

variable {σ α : Type}

namespace DatabaseError

/-- The error says what is wrong with a request, and nothing about a batch. -/
def IsValidation (e : DatabaseError) : Prop :=
  ∃ issue, e = .validation issue

/-- The error says what is wrong with a request, be it inside a batch. -/
def IsInvalid : DatabaseError → Prop
  | validation _ => True
  | batch _ source => source.IsInvalid
  | _ => False

theorem IsDecode.not_isInvalid {e : DatabaseError} (h : e.IsDecode) : ¬ e.IsInvalid := by
  cases e with
  | decode => exact id
  | _ => exact h.elim

end DatabaseError

/-! ## Statements that are not written -/

namespace Select

theorem isValidation_of_assignments {params : Bindings} {values : List (String × Value)}
    {e : DatabaseError} (h : assignments params values = .error e) : e.IsValidation := by
  induction values generalizing params with
  | nil => exact nomatch h
  | cons entry rest ih =>
      unfold assignments at h
      dsimp only at h
      split at h
      · cases h
        exact ⟨_, rfl⟩
      · exact ih (map_eq_error_iff.mp h)

theorem isValidation_of_updateStatement {q : Select} {written : List String} {values : Record}
    {tag : String} {e : DatabaseError} (h : q.updateStatement written values tag = .error e) :
    e.IsValidation :=
  isValidation_of_assignments (map_eq_error_iff.mp h)

theorem isValidation_of_recordUpdate {q : Select} {values : Record} {e : DatabaseError}
    (h : q.recordUpdate values = .error e) : e.IsValidation := by
  unfold recordUpdate at h
  split at h
  · cases h
    exact ⟨_, rfl⟩
  · exact isValidation_of_updateStatement h

theorem isValidation_of_keyStatement {q : Select} {keyColumn : Option String} {id : Value}
    {e : DatabaseError} (h : q.keyStatement keyColumn id = .error e) : e.IsValidation := by
  cases keyColumn with
  | none =>
      cases h
      exact ⟨_, rfl⟩
  | some key => exact nomatch h

theorem isValidation_of_insertTemplate {q : Select} {keyColumn : Option String}
    {rows : List Record} {e : DatabaseError} (h : q.insertTemplate keyColumn rows = .error e) :
    e.IsValidation := by
  unfold insertTemplate at h
  dsimp only at h
  split at h
  · cases h
    exact ⟨_, rfl⟩
  · exact nomatch h

theorem isValidation_of_splitRecord {keys : List String} {only : Option (List String)} {i : Nat}
    {row : Record} {e : DatabaseError} (h : splitRecord keys only i row = .error e) :
    e.IsValidation := by
  unfold splitRecord at h
  split at h
  · cases h
    exact ⟨_, rfl⟩
  · dsimp only at h
    split at h
    · cases h
      exact ⟨_, rfl⟩
    · exact nomatch h

theorem isValidation_of_splitRecords {keys : List String} {only : Option (List String)} {i : Nat}
    {rows : List Record} {e : DatabaseError} (h : splitRecords keys only i rows = .error e) :
    e.IsValidation := by
  induction rows generalizing i with
  | nil => cases h
  | cons row rows ih =>
      unfold splitRecords at h
      rcases bind_eq_error h with hplan | ⟨plan, -, h⟩
      · exact isValidation_of_splitRecord hplan
      rcases bind_eq_error h with hrest | ⟨rest, -, h⟩
      · exact ih hrest
      · cases h

theorem isValidation_of_insertPlan {q : Select} {keyColumn : Option String} {rows : List Record}
    {e : DatabaseError} (h : q.insertPlan keyColumn rows = .single (.error e)) :
    e.IsValidation := by
  unfold insertPlan at h
  split at h
  · exact nomatch h
  · split at h
    · rename_i htemplate
      cases h
      exact isValidation_of_insertTemplate htemplate
    · exact nomatch h

theorem isValidation_of_upsertPlan {q : Select} {keyColumn : Option String} {rows : List Record}
    {keys : List String} {only : Option (List String)} {e : DatabaseError}
    (h : q.upsertPlan keyColumn rows keys only = .single (.error e)) : e.IsValidation := by
  unfold upsertPlan at h
  split at h
  · exact nomatch h
  split at h
  · exact isValidation_of_insertPlan h
  split at h
  · cases h
    exact ⟨_, rfl⟩
  split at h
  · rename_i hsplit
    cases h
    exact isValidation_of_splitRecords hsplit
  · exact nomatch h

end Select

/-- A statement that an operation cannot write is refused as invalid. -/
theorem Operation.isValidation_of_plan {keyColumn : Option String} {op : Operation}
    {e : DatabaseError} (h : op.plan keyColumn = .single (.error e)) : e.IsValidation := by
  cases op with
  | ending q ending =>
      cases ending with
      | find α id => exact Select.isValidation_of_keyStatement (Plan.single.inj h)
      | update values => exact Select.isValidation_of_recordUpdate (Plan.single.inj h)
      | increment column amount values =>
          exact Select.isValidation_of_updateStatement (Plan.single.inj h)
      | decrement column amount values =>
          exact Select.isValidation_of_updateStatement (Plan.single.inj h)
      | insertAll rows => exact Select.isValidation_of_insertPlan h
      | upsert rows keys only => exact Select.isValidation_of_upsertPlan h
      | _ => exact nomatch h
  | insert q row => exact Select.isValidation_of_insertPlan h
  | _ => exact nomatch h

/-! ## What the calls tell -/

/-- A bare validation error stands for no calls, and one inside a batch for a batch that was opened
and discarded. -/
structure TellsCalls (y : Except DatabaseError α) (calls : List Exchange) : Prop where
  bare : ∀ issue, y = .error (.validation issue) → calls = []
  inBatch : ∀ k issue, y = .error (.batch k (.validation issue)) →
    ∃ own undone, calls = ⟨.begin, .ok .done⟩ :: (own ++ [⟨.rollback, undone⟩]) ∧
      ∀ x ∈ own, x.request.isStatement

namespace TellsCalls

variable {y : Except DatabaseError α} {calls : List Exchange}

theorem of_no_calls (h : ∀ e, y = .error e → e.IsValidation) : TellsCalls y [] where
  bare _ _ := rfl
  inBatch k issue hy := by
    obtain ⟨issue', hvalidation⟩ := h _ hy
    exact nomatch hvalidation

theorem of_valid (h : ∀ e, y = .error e → ¬ e.IsInvalid) : TellsCalls y calls where
  bare _ hy := absurd trivial (h _ hy)
  inBatch _ _ hy := absurd trivial (h _ hy)

end TellsCalls

/-- The client has no validation errors of its own among its answers. -/
def ValidAnswers (calls : List Exchange) : Prop :=
  ∀ x ∈ calls, ∀ e, x.answer = .error e → ¬ e.IsInvalid

theorem OneAttempt.tellsCalls {stmt : Except DatabaseError Statement}
    {Misread : DatabaseError → Prop} {y : Except DatabaseError α} {calls : List Exchange}
    {attempts : List Attempt} (h : OneAttempt stmt Misread y calls attempts)
    (hstmt : ∀ e, stmt = .error e → e.IsValidation) (hanswers : ValidAnswers calls)
    (hread : ∀ e, Misread e → ¬ e.IsInvalid) : TellsCalls y calls := by
  cases h with
  | unwritten he =>
      refine .of_no_calls fun e hy => ?_
      cases hy
      exact hstmt _ he
  | @failed a e _ herror =>
      cases a with
      | refused stmt e' hnumber =>
          refine .of_no_calls fun e hy => ?_
          cases hy
          cases herror
          obtain ⟨name, -, hname⟩ := Placeholder.numberParameters_eq_error_iff.mp hnumber
          exact ⟨_, hname⟩
      | sent stmt p hp fetch answer =>
          refine .of_valid fun e hy => ?_
          cases hy
          exact hanswers _ (List.mem_singleton_self _) _ (errorOf_eq_some_iff.mp herror)
  | answered _ _ hmisread => exact .of_valid fun e hy => hread e (hmisread e hy)

theorem Batched.tellsCalls {stmts : List (Except DatabaseError Statement)}
    {y : Except DatabaseError α} {calls : List Exchange} {attempts : List Attempt}
    (h : Batched stmts y calls attempts) (hanswers : ValidAnswers calls) : TellsCalls y calls := by
  cases h with
  | @unopened e =>
      refine .of_valid fun e hy => ?_
      cases hy
      exact hanswers _ (List.mem_singleton_self _) _ rfl
  | stopped hk hwritten =>
      refine ⟨fun issue hy => (nomatch hy), fun k issue hy => ⟨_, _, rfl, fun x hx => ?_⟩⟩
      obtain ⟨a, -, ha⟩ := List.mem_filterMap.mp hx
      exact Attempt.isStatement_of_exchange? ha
  | kept hdone => exact .of_valid fun e hy => nomatch hy
  | @unkept e _ _ hdone =>
      -- the error behind the batch is the client's answer to the commit
      refine .of_valid fun e' hy => ?_
      cases hy
      refine hanswers ⟨.commit, .error e⟩ ?_ e rfl
      simp

theorem Plan.Fits.tellsCalls {Misread : DatabaseError → Prop} {plan : Plan}
    {y : Except DatabaseError α} {calls : List Exchange} {attempts : List Attempt}
    (h : plan.Fits Misread y calls attempts)
    (hplan : ∀ e, plan = .single (.error e) → e.IsValidation) (hanswers : ValidAnswers calls)
    (hread : ∀ e, Misread e → ¬ e.IsInvalid) : TellsCalls y calls := by
  cases plan with
  | nothing =>
      obtain ⟨⟨x, rfl⟩, -, -⟩ := h
      exact .of_valid fun e hy => nomatch hy
  | single stmt => exact OneAttempt.tellsCalls h (fun e he => hplan e (he ▸ rfl)) hanswers hread
  | batch stmts => exact Batched.tellsCalls h hanswers

/-- **A bare validation error means that nothing happened on the server.**  Whatever the operation
and its arguments, if it ends in a validation error that is not part of a batch, the client was not
asked for anything; if it ends in a batch stopped by one, the client was asked to open the batch, for
statements, and to discard it. -/
theorem validation_error_tells_calls (db : Database σ) (op : Operation) (s : Session σ)
    (hclient : ∀ state request e, (db.client.respond state request).1 = .error e → ¬ e.IsInvalid)
    (hread : ∀ e, op.Misreads e → ¬ e.IsInvalid) :
    let result := ((op.run db.recorded).run s.recorded).1
    let calls := callsOf (op.run db.recorded) s
    (∀ issue, result = .error (.validation issue) → calls = []) ∧
    (∀ k issue, result = .error (.batch k (.validation issue)) →
      ∃ own undone, calls = ⟨.begin, .ok .done⟩ :: (own ++ [⟨.rollback, undone⟩]) ∧
        ∀ x ∈ own, x.request.isStatement) := by
  by_cases hop : op = .clearLog
  · subst hop
    exact ⟨fun _ h => (nomatch h), fun _ _ h => (nomatch h)⟩
  · obtain ⟨calls, attempts, haccount, hfits⟩ := op.goes db.recorded hop s.recorded
    obtain ⟨hfollows, hrecord⟩ := haccount.client.of_recorded
    have hanswers : ValidAnswers calls := by
      intro x hx e he
      obtain ⟨state, hstate⟩ := hfollows.answer_of_mem hx
      exact hclient state x.request e (hstate.trans he)
    obtain ⟨hbare, hbatch⟩ :=
      hfits.tellsCalls (fun e he => Operation.isValidation_of_plan he) hanswers hread
    have hcalls : callsOf (op.run db.recorded) s = calls := hrecord
    dsimp only
    rw [hcalls]
    exact ⟨hbare, hbatch⟩

/-- The calls of two operations on a client that accepts everything: an update that sets nothing, and
a batch whose second record has two columns with one placeholder for the new value. -/
theorem validation_errors_of_updates :
    let db : Database Unit := ⟨.accepting, {}, fun _ => none⟩
    let q : Select := { table := "users" }
    let rows : List Record := [.ofList [("id", .int 1), ("a.b", .int 1)],
      .ofList [("id", .int 2), ("a.b", .int 2), ("a_b", .int 2)]]
    callsOf ((Operation.ending q (.update .empty)).run db.recorded) (.new {} ()) = [] ∧
      ∃ own undone,
        callsOf ((Operation.ending q (.upsert rows ["id"] none)).run db.recorded) (.new {} ())
          = ⟨.begin, .ok .done⟩ :: (own ++ [⟨.rollback, undone⟩]) ∧
        ∀ x ∈ own, x.request.isStatement := by
  intro db q rows
  have hvalid : ∀ state request e, (db.client.respond state request).1 = .error e →
      ¬ e.IsInvalid := by
    intro state request e h
    cases request <;> exact nomatch h
  have hread : ∀ e : DatabaseError, e.IsDecode → ¬ e.IsInvalid := fun e he => he.not_isInvalid
  have hempty : (((Operation.ending q (.update .empty)).run db.recorded).run
      (Session.new {} ()).recorded).1 = .error (.validation .noAssignments) := by
    decide +kernel
  have htaken : (((Operation.ending q (.upsert rows ["id"] none)).run db.recorded).run
      (Session.new {} ()).recorded).1
        = .error (.batch 1 (.validation (.assignmentTaken "set_a_b" "a_b"))) := by
    decide +kernel
  exact ⟨(validation_error_tells_calls db (.ending q (.update .empty)) (.new {} ()) hvalid hread).1 _
      hempty,
    (validation_error_tells_calls db (.ending q (.upsert rows ["id"] none)) (.new {} ()) hvalid
      hread).2 _ _ htaken⟩

end SqlBuilder
