import SqlBuilder.Proofs.Database.Batch
import SqlBuilder.Proofs.Database.Transaction

/-!
# Batches as savepoints

On a transaction of the caller a batch sets a savepoint, and all batches set it under one name.  A
batch that fails leaves its savepoint behind, so the transaction gathers savepoints of that name; a
later batch still gets back to its own, because none of its statements touches savepoints and its own
is the newest (`Batched.nested`).
-/

namespace SqlBuilder

variable {δ ω α : Type}

/-! ## Statements in a transaction -/

namespace Engine

variable {engine : Engine δ ω} {settings : Settings} {t t' : Transaction δ ω}

/-- What the client makes of a numbered statement is what the transaction makes of it. -/
theorem respond_request (engine : Engine δ ω) (settings : Settings) (t : Transaction δ ω)
    (p : NumberedStatement) (fetch : Bool) :
    ∃ y, (engine.database settings).client.respond t (p.request fetch)
        = (y, (engine.submit p.sql p.values t).2) ∧
      errorOf y = errorOf ((engine.submit p.sql p.values t).1.mapError DatabaseError.ofFailure) := by
  have hreply : ∀ {β : Type} (x : Except QueryFailure Reply) (read : Reply → β) (wrap : β → Answer),
      errorOf (((x.map read).mapError DatabaseError.ofFailure).map wrap)
        = errorOf (x.mapError DatabaseError.ofFailure) := by
    intro β x read wrap
    cases x <;> rfl
  cases fetch with
  | true => exact ⟨_, rfl, hreply _ Reply.rows .rows⟩
  | false => exact ⟨_, rfl, hreply _ Reply.affected .affected⟩

/-- A statement that is no command leaves the savepoints alone.  If it is executed the transaction
was not aborted and has its effect, and otherwise it has the data from before. -/
inductive Submitted (engine : Engine δ ω) (p : NumberedStatement) (t : Transaction δ ω) :
    Except QueryFailure Reply × Transaction δ ω → Prop
  | executed {reply : Reply} {data : δ} {surroundings : ω} :
    t.isAborted = false →
    engine.run p.sql p.values t.data t.surroundings = (.ok (reply, data), surroundings) →
      Submitted engine p t (.ok reply, { t with data := data, surroundings := surroundings })
  | failed {e : QueryFailure} {surroundings : ω} {isAborted : Bool} :
    Submitted engine p t
      (.error e, { t with surroundings := surroundings, isAborted := isAborted })

theorem submitted (engine : Engine δ ω) {p : NumberedStatement} (t : Transaction δ ω)
    (hp : SavepointCommand.ofText? p.sql = none) :
    Submitted engine p t (engine.submit p.sql p.values t) := by
  unfold submit
  rw [hp]
  dsimp only
  split
  · exact .failed
  · rename_i haborted
    split
    · rename_i hrun
      exact .executed (Bool.not_eq_true _ ▸ haborted) hrun
    · exact .failed

/-- What an attempt leaves of a transaction. -/
inductive Tried (engine : Engine δ ω) (a : Attempt) (t : Transaction δ ω) :
    Transaction δ ω → Prop
  | executed {data : δ} {surroundings : ω} :
    a.error? = none → t.isAborted = false →
    engine.effect? (t.data, t.surroundings) a.statement = some (data, surroundings) →
      Tried engine a t { t with data := data, surroundings := surroundings }
  | failed {e : DatabaseError} {surroundings : ω} {isAborted : Bool} :
    a.error? = some e →
      Tried engine a t { t with surroundings := surroundings, isAborted := isAborted }

theorem tried_of_follows {a : Attempt} (ha : a.statement.LeavesSavepoints)
    (h : (engine.database settings).client.Follows t a.exchange?.toList t') :
    Tried engine a t t' := by
  cases a with
  | refused stmt e hnumber =>
      rw [Client.Follows.nil_iff.mp h]
      exact .failed rfl
  | sent stmt p hnumber fetch answer =>
      obtain ⟨y, hrespond, herror⟩ := engine.respond_request settings t p fetch
      have hstep : (y, (engine.submit p.sql p.values t).2) = (answer, t') :=
        hrespond.symm.trans (Client.Follows.singleton_iff.mp h)
      obtain ⟨rfl, rfl⟩ := Prod.mk.inj hstep
      have hsubmit := engine.submitted t (ha p hnumber)
      revert herror
      generalize engine.submit p.sql p.values t = outcome at hsubmit
      intro herror
      cases hsubmit with
      | executed haborted hrun =>
          refine .executed herror haborted ?_
          show engine.effect? _ stmt = _
          unfold effect?
          rw [hnumber]
          dsimp only
          rw [hrun]
      | failed => exact .failed herror

/-- What attempts, one after the other, leave of a transaction. -/
structure TriedAll (engine : Engine δ ω) (attempts : List Attempt) (t t' : Transaction δ ω) :
    Prop where
  savepoints : t'.savepoints = t.savepoints
  executed : t.isAborted = false → (∀ a ∈ attempts, a.error? = none) →
    t'.isAborted = false ∧
      engine.effects? (attempts.map Attempt.statement) (t.data, t.surroundings)
        = some (t'.data, t'.surroundings)

theorem triedAll_of_follows {attempts : List Attempt}
    (hleaves : ∀ a ∈ attempts, a.statement.LeavesSavepoints)
    (h : (engine.database settings).client.Follows t (attempts.filterMap Attempt.exchange?) t') :
    TriedAll engine attempts t t' := by
  induction attempts generalizing t with
  | nil =>
      rw [Client.Follows.nil_iff.mp h]
      exact ⟨rfl, fun haborted _ => ⟨haborted, rfl⟩⟩
  | cons a attempts ih =>
      rw [exchanges_cons, Client.Follows.append_iff] at h
      obtain ⟨m, hfirst, hrest⟩ := h
      have hothers := ih (fun b hb => hleaves b (List.mem_cons_of_mem a hb)) hrest
      cases tried_of_follows (hleaves a List.mem_cons_self) hfirst with
      | executed ha haborted heffect =>
          refine ⟨hothers.savepoints, fun _ hdone => ?_⟩
          obtain ⟨hend, heffects⟩ :=
            hothers.executed haborted fun b hb => hdone b (List.mem_cons_of_mem a hb)
          refine ⟨hend, ?_⟩
          rw [List.map_cons, effects?, List.foldlM_cons, heffect]
          exact heffects
      | failed ha =>
          refine ⟨hothers.savepoints, fun _ hdone => ?_⟩
          rw [hdone a List.mem_cons_self] at ha
          exact nomatch ha

end Engine

/-! ## Batches in a transaction -/

/-- What a batch leaves of a transaction: nothing new if it cannot set its savepoint, the effects of
all its rows, or the data from before beside a savepoint that is left behind. -/
inductive Nested (engine : Engine δ ω) (attempts : List Attempt) (t : Transaction δ ω) :
    Except DatabaseError α → Transaction δ ω → Prop
  | refused {e : DatabaseError} {t' : Transaction δ ω} :
    (∀ k source, e ≠ .batch k source) → t' = t → Nested engine attempts t (.error e) t'
  | kept {x : α} {t' : Transaction δ ω} :
    engine.effects? (attempts.map Attempt.statement) (t.data, t.surroundings)
        = some (t'.data, t'.surroundings) →
    t'.savepoints = t.savepoints → t'.isAborted = t.isAborted →
      Nested engine attempts t (.ok x) t'
  | undone {k : Nat} {e : DatabaseError} {t' : Transaction δ ω} :
    t'.data = t.data → t'.savepoints = (BatchCommands.savepointName, t.data) :: t.savepoints →
    t'.isAborted = false →
      Nested engine attempts t (.error (.batch k e)) t'

namespace Engine

variable {engine : Engine δ ω} {settings : Settings} {t t' : Transaction δ ω}

/-- A text that is a command is obeyed. -/
theorem batch_eq_obey (engine : Engine δ ω) (sql : String) {command : SavepointCommand}
    (h : SavepointCommand.ofText? sql = some command) (t : Transaction δ ω) :
    engine.link.batch sql t = t.obey command := by
  have hsubmit : engine.submit sql [] t
      = ((t.obey command).1.map fun _ => ⟨[], 0⟩, (t.obey command).2) := by
    unfold submit
    rw [h]
  show ((engine.submit sql [] t).1.map _, (engine.submit sql [] t).2) = _
  rw [hsubmit]
  rcases t.obey command with ⟨_ | _, _⟩ <;> rfl

/-- What the client answers about a command. -/
def commandAnswer (x : Except QueryFailure Unit × Transaction δ ω) :
    Except DatabaseError Answer × Transaction δ ω :=
  ((x.1.mapError DatabaseError.ofFailure).map fun _ => .done, x.2)

theorem respond_begin (engine : Engine δ ω) (settings : Settings) (t : Transaction δ ω) :
    (engine.database settings).client.respond t .begin
      = commandAnswer (t.obey (.set BatchCommands.savepointName)) := by
  rw [← engine.batch_eq_obey BatchCommands.savepoint.begin (by decide +kernel)]
  rfl

theorem respond_commit (engine : Engine δ ω) (settings : Settings) (t : Transaction δ ω) :
    (engine.database settings).client.respond t .commit
      = commandAnswer (t.obey (.release BatchCommands.savepointName)) := by
  rw [← engine.batch_eq_obey BatchCommands.savepoint.commit (by decide +kernel)]
  rfl

theorem respond_rollback (engine : Engine δ ω) (settings : Settings) (t : Transaction δ ω) :
    (engine.database settings).client.respond t .rollback
      = commandAnswer (t.obey (.rollbackTo BatchCommands.savepointName)) := by
  rw [← engine.batch_eq_obey BatchCommands.savepoint.rollback (by decide +kernel)]
  rfl

/-- A batch that begins has set its savepoint. -/
theorem set_of_begun
    (h : (engine.database settings).client.respond t .begin = (.ok .done, t')) :
    t.isAborted = false ∧
      t' = { t with savepoints := (BatchCommands.savepointName, t.data) :: t.savepoints } := by
  rw [respond_begin, Transaction.obey] at h
  split at h
  · cases h
  · rename_i haborted
    cases h
    exact ⟨Bool.not_eq_true _ ▸ haborted, rfl⟩

/-- Once a batch is begun its statements come first, and they leave its savepoint the newest. -/
theorem exists_begun {attempts : List Attempt} {more : List Exchange}
    (hleaves : ∀ a ∈ attempts, a.statement.LeavesSavepoints)
    (h : (engine.database settings).client.Follows t
      (⟨.begin, .ok .done⟩ :: (attempts.filterMap Attempt.exchange? ++ more)) t') :
    ∃ m, t.isAborted = false ∧
      m.savepoints = (BatchCommands.savepointName, t.data) :: t.savepoints ∧
      ((∀ a ∈ attempts, a.error? = none) → m.isAborted = false ∧
        engine.effects? (attempts.map Attempt.statement) (t.data, t.surroundings)
          = some (m.data, m.surroundings)) ∧
      (engine.database settings).client.Follows m more t' := by
  obtain ⟨begun, hbegin, hcalls⟩ := Client.Follows.cons_iff.mp h
  obtain ⟨m, hstatements, hmore⟩ := Client.Follows.append_iff.mp hcalls
  obtain ⟨haborted, rfl⟩ := set_of_begun hbegin
  have htried := triedAll_of_follows hleaves hstatements
  exact ⟨m, haborted, htried.savepoints, htried.executed haborted, hmore⟩

theorem savepointsFrom_newest {name : String} {data : δ} {older : List (String × δ)}
    (h : t.savepoints = (name, data) :: older) : t.savepointsFrom name = (name, data) :: older := by
  unfold Transaction.savepointsFrom
  rw [h, List.dropWhile_cons_of_neg]
  simp

/-- Rolling back to the newest savepoint. -/
theorem restored_of_rollback {answer : Except DatabaseError Answer} {data : δ}
    {older : List (String × δ)}
    (h : (engine.database settings).client.respond t .rollback = (answer, t'))
    (hnewest : t.savepoints = (BatchCommands.savepointName, data) :: older) :
    t'.data = data ∧ t'.savepoints = t.savepoints ∧ t'.isAborted = false := by
  rw [respond_rollback, Transaction.obey, savepointsFrom_newest hnewest] at h
  cases h
  exact ⟨rfl, hnewest.symm, rfl⟩

/-- Releasing the newest savepoint. -/
theorem released_of_commit {answer : Except DatabaseError Answer} {data : δ}
    {older : List (String × δ)}
    (h : (engine.database settings).client.respond t .commit = (answer, t'))
    (hnewest : t.savepoints = (BatchCommands.savepointName, data) :: older)
    (haborted : t.isAborted = false) :
    answer = .ok .done ∧ t' = { t with savepoints := older } := by
  rw [respond_commit, Transaction.obey, savepointsFrom_newest hnewest,
    if_neg (Bool.eq_false_iff.mp haborted)] at h
  cases h
  exact ⟨rfl, rfl⟩

end Engine

/-- Whatever comes of the rows, the batch's own savepoint is the newest when it ends: its statements
leave savepoints alone. -/
theorem Batched.nested {engine : Engine δ ω} {settings : Settings} {t t' : Transaction δ ω}
    {stmts : List (Except DatabaseError Statement)} {y : Except DatabaseError α}
    {calls : List Exchange} {attempts : List Attempt} (h : Batched stmts y calls attempts)
    (hstmts : ∀ stmt, .ok stmt ∈ stmts → stmt.BeginsWithVerb)
    (hfollows : (engine.database settings).client.Follows t calls t') :
    Nested engine attempts t y t' := by
  have hleaves : ∀ a ∈ attempts, a.statement.LeavesSavepoints := fun a ha =>
    (hstmts _ (h.mem_of_mem ha)).leavesSavepoints
  cases h with
  | @unopened e =>
      have hrespond := Client.Follows.singleton_iff.mp hfollows
      rw [Engine.respond_begin, Transaction.obey] at hrespond
      split at hrespond
      · cases hrespond
        refine .refused (fun k source h => ?_) rfl
        simp [DatabaseError.ofFailure, Transaction.abortedFailure] at h
      · cases hrespond
  | stopped hk hwritten =>
      obtain ⟨m, -, hnewest, -, hend⟩ := Engine.exists_begun hleaves hfollows
      obtain ⟨hdata, hsavepoints, haborted⟩ :=
        Engine.restored_of_rollback (Client.Follows.singleton_iff.mp hend) hnewest
      exact .undone hdata (hsavepoints.trans hnewest) haborted
  | kept hdone =>
      obtain ⟨m, hbefore, hnewest, hexecuted, hend⟩ := Engine.exists_begun hleaves hfollows
      obtain ⟨haborted, heffects⟩ := hexecuted hdone.2
      obtain ⟨-, rfl⟩ :=
        Engine.released_of_commit (Client.Follows.singleton_iff.mp hend) hnewest haborted
      exact .kept heffects rfl (haborted.trans hbefore.symm)
  | unkept hdone =>
      -- the savepoint is there, so it can be released
      obtain ⟨m, -, hnewest, hexecuted, hend⟩ := Engine.exists_begun hleaves hfollows
      obtain ⟨haborted, -⟩ := hexecuted hdone.2
      obtain ⟨_, hcommit, -⟩ := Client.Follows.cons_iff.mp hend
      exact nomatch (Engine.released_of_commit hcommit hnewest haborted).1

end SqlBuilder
