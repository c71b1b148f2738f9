import SqlBuilder.Proofs.Database.History
import SqlBuilder.Proofs.Database.KeyLookup
import SqlBuilder.Proofs.Database.Refusal
import SqlBuilder.Proofs.Database.Savepoint

/-!
# Histories on a transaction

Of all operations only the statements that a caller hands in directly can be commands about
savepoints, for the others begin with a verb of their own.  So every batch in a history is all or
nothing, and what was done before it stays (`batches_nest_in_transaction`).
-/

namespace SqlBuilder

variable {δ ω α : Type}

/-! ## The statements of operations -/

namespace Select

theorem beginsWithVerb_toStatement (q : Select) (tag : String) :
    (q.toStatement tag).BeginsWithVerb := by
  refine ⟨"SELECT ", by decide, ?_⟩
  show ∃ rest, q.render = "SELECT " ++ rest
  unfold render
  simp only [String.append_assoc]
  exact ⟨_, rfl⟩

theorem beginsWithVerb_direct (q : Select) (expression tag : String) :
    (q.direct expression tag).BeginsWithVerb := by
  refine ⟨"SELECT ", by decide, expression ++ (" FROM " ++ q.table), ?_⟩
  rw [direct, statement, String.append_assoc, String.append_assoc]

theorem beginsWithVerb_of_updateStatement {q : Select} {written : List String} {values : Record}
    {tag : String} {stmt : Statement} (h : q.updateStatement written values tag = .ok stmt) :
    stmt.BeginsWithVerb := by
  refine ⟨"UPDATE ", by decide, ?_⟩
  rw [(sets_of_updateStatement h).2.sql, String.append_assoc, String.append_assoc,
    String.append_assoc]
  exact ⟨_, rfl⟩

theorem beginsWithVerb_of_recordUpdate {q : Select} {values : Record} {stmt : Statement}
    (h : q.recordUpdate values = .ok stmt) : stmt.BeginsWithVerb := by
  unfold recordUpdate at h
  split at h
  · exact nomatch h
  · exact beginsWithVerb_of_updateStatement h

theorem beginsWithVerb_of_insertTemplate {q : Select} {keyColumn : Option String}
    {rows : List Record} {sql : String} (h : q.insertTemplate keyColumn rows = .ok sql)
    (params : Bindings) (tag : String) : (q.statement sql params tag).BeginsWithVerb := by
  refine ⟨"INSERT INTO ", by decide, ?_⟩
  show ∃ rest, sql = "INSERT INTO " ++ rest
  unfold insertTemplate at h
  dsimp only at h
  split at h
  · exact nomatch h
  · cases h
    -- with and without a key to return, with and without columns
    split <;> split <;> · simp only [String.append_assoc]; exact ⟨_, rfl⟩

theorem beginsWithVerb_of_insertPlan {q : Select} {keyColumn : Option String}
    {rows : List Record} {stmt : Statement}
    (h : .ok stmt ∈ (q.insertPlan keyColumn rows).statements) : stmt.BeginsWithVerb := by
  unfold insertPlan at h
  split at h
  · exact nomatch h
  · cases htemplate : q.insertTemplate keyColumn rows with
    | error e =>
        rw [htemplate] at h
        exact nomatch List.mem_singleton.mp h
    | ok sql =>
        rw [htemplate] at h
        obtain ⟨row, -, hrow⟩ := List.mem_map.mp h
        cases hrow
        exact beginsWithVerb_of_insertTemplate htemplate _ _

theorem beginsWithVerb_of_upsertPlan {q : Select} {keyColumn : Option String}
    {rows : List Record} {keys : List String} {only : Option (List String)} {stmt : Statement}
    (h : .ok stmt ∈ (q.upsertPlan keyColumn rows keys only).statements) :
    stmt.BeginsWithVerb := by
  unfold upsertPlan at h
  split at h
  · exact nomatch h
  split at h
  · exact beginsWithVerb_of_insertPlan h
  split at h
  · exact nomatch List.mem_singleton.mp h
  · cases hplans : splitRecords keys only 0 rows with
    | error e =>
        rw [hplans] at h
        exact nomatch List.mem_singleton.mp h
    | ok plans =>
        rw [hplans] at h
        obtain ⟨plan, -, hplan⟩ := List.mem_map.mp h
        exact beginsWithVerb_of_recordUpdate hplan

end Select

/-- The statement that was handed in directly. -/
def Operation.handedIn? : Operation → Option Statement
  | rows stmt | firstRow stmt | execute stmt => some stmt
  | _ => none

/-- Only a statement that was handed in directly can be a command about savepoints. -/
theorem Operation.beginsWithVerb_of_mem {op : Operation} {keyColumn : Option String}
    {stmt : Statement} (h : .ok stmt ∈ (op.plan keyColumn).statements)
    (hop : op.handedIn? = none) : stmt.BeginsWithVerb := by
  cases op with
  | ending q e =>
      cases e with
      | get | getFirst | first | findBy | value =>
          cases List.mem_singleton.mp h
          exact Select.beginsWithVerb_toStatement _ _
      | find α id =>
          cases keyColumn with
          | none => exact nomatch List.mem_singleton.mp h
          | some key =>
              cases List.mem_singleton.mp h
              exact Select.beginsWithVerb_toStatement _ _
      | update values =>
          exact Select.beginsWithVerb_of_recordUpdate (List.mem_singleton.mp h).symm
      | increment | decrement =>
          exact Select.beginsWithVerb_of_updateStatement (List.mem_singleton.mp h).symm
      | delete =>
          cases List.mem_singleton.mp h
          refine ⟨"DELETE FROM ", by decide, q.table ++ q.whereClause, ?_⟩
          rw [Select.statement, String.append_assoc]
      | insertAll rows => exact Select.beginsWithVerb_of_insertPlan h
      | upsert rows keys only => exact Select.beginsWithVerb_of_upsertPlan h
  | pluck | pluckBy | count | least | greatest =>
      cases List.mem_singleton.mp h
      exact Select.beginsWithVerb_direct _ _ _
  | insert q row => exact Select.beginsWithVerb_of_insertPlan h
  | rows | firstRow | execute => exact nomatch hop
  | clearLog => exact nomatch h

theorem Operation.leavesSavepoints_of_mem {op : Operation} {keyColumn : Option String}
    {stmt : Statement} (h : .ok stmt ∈ (op.plan keyColumn).statements)
    (hop : ∀ stmt, op.handedIn? = some stmt → stmt.LeavesSavepoints) : stmt.LeavesSavepoints := by
  cases hhanded : op.handedIn? with
  | none => exact (beginsWithVerb_of_mem h hhanded).leavesSavepoints
  | some stmt' =>
      have hplan : op.plan keyColumn = .single (.ok stmt') := by
        cases op with
        | rows | firstRow | execute =>
            cases hhanded
            rfl
        | _ => exact nomatch hhanded
      rw [hplan] at h
      cases List.mem_singleton.mp h
      exact hop stmt hhanded

/-! ## Operations that write rows -/

/-- The operation writes rows, in a batch if there are any. -/
def Operation.isBatch : Operation → Bool
  | ending _ (.insertAll _) | ending _ (.upsert ..) | insert .. => true
  | _ => false

/-- The plan of such an operation. -/
inductive Plan.IsBatch : Plan → Prop
  | nothing : IsBatch nothing
  | refused (e : DatabaseError) : IsBatch (single (.error e))
  | batch (stmts : List (Except DatabaseError Statement)) : IsBatch (batch stmts)

theorem Select.isBatch_insertPlan (q : Select) (keyColumn : Option String) (rows : List Record) :
    (q.insertPlan keyColumn rows).IsBatch := by
  unfold insertPlan
  split
  · exact .nothing
  · split
    · exact .refused _
    · exact .batch _

theorem Select.isBatch_upsertPlan (q : Select) (keyColumn : Option String) (rows : List Record)
    (keys : List String) (only : Option (List String)) :
    (q.upsertPlan keyColumn rows keys only).IsBatch := by
  unfold upsertPlan
  split
  · exact .nothing
  split
  · exact q.isBatch_insertPlan keyColumn rows
  split
  · exact .refused _
  split
  · exact .refused _
  · exact .batch _

theorem Operation.isBatch_plan {op : Operation} (hop : op.isBatch = true)
    (keyColumn : Option String) : (op.plan keyColumn).IsBatch := by
  unfold isBatch at hop
  split at hop
  · exact Select.isBatch_insertPlan ..
  · exact Select.isBatch_upsertPlan ..
  · exact Select.isBatch_insertPlan ..
  · exact nomatch hop

theorem Operation.plan_of_not_isBatch {op : Operation} (hop : op.isBatch = false)
    (keyColumn : Option String) :
    op.plan keyColumn = .nothing ∨ ∃ stmt, op.plan keyColumn = .single stmt := by
  cases op with
  | ending q e =>
      cases e with
      | insertAll rows => exact nomatch hop
      | upsert rows keys only => exact nomatch hop
      | _ => exact .inr ⟨_, rfl⟩
  | insert q row => exact nomatch hop
  | clearLog => exact .inl rfl
  | _ => exact .inr ⟨_, rfl⟩

theorem Operation.handedIn?_of_isBatch {op : Operation} (hop : op.isBatch = true) :
    op.handedIn? = none := by
  cases op with
  | rows | firstRow | execute => exact nomatch hop
  | _ => rfl

/-- A batch that is not even begun leaves everything as it is. -/
theorem Plan.IsBatch.nested {plan : Plan} (hplan : plan.IsBatch) {engine : Engine δ ω}
    {settings : Settings} {t t' : Transaction δ ω} {Misread : DatabaseError → Prop}
    {y : Except DatabaseError α} {calls : List Exchange} {attempts : List Attempt}
    (hfits : plan.Fits Misread y calls attempts)
    (hvalidation : ∀ e, plan = .single (.error e) → e.IsValidation)
    (hverbs : ∀ stmt, .ok stmt ∈ plan.statements → stmt.BeginsWithVerb)
    (hfollows : (engine.database settings).client.Follows t calls t') :
    Nested engine attempts t y t' := by
  cases hplan with
  | nothing =>
      obtain ⟨⟨x, rfl⟩, rfl, rfl⟩ := hfits
      rw [Client.Follows.nil_iff.mp hfollows]
      exact .kept rfl rfl rfl
  | refused e =>
      obtain ⟨issue, rfl⟩ := hvalidation e rfl
      cases hfits with
      | unwritten he =>
          cases he
          exact .refused (fun k source he => nomatch he) (Client.Follows.nil_iff.mp hfollows)
      | failed hstmt => exact nomatch hstmt
      | answered hstmt => exact nomatch hstmt
  | batch stmts => exact Batched.nested hfits hverbs hfollows

/-- A batch that succeeds has executed all its statements. -/
theorem Plan.IsBatch.allDone {plan : Plan} (hplan : plan.IsBatch) {Misread : DatabaseError → Prop}
    {x : α} {calls : List Exchange} {attempts : List Attempt}
    (hfits : plan.Fits Misread (.ok x) calls attempts) : AllDone plan.statements attempts := by
  cases hplan with
  | nothing =>
      obtain ⟨-, -, rfl⟩ := hfits
      exact ⟨rfl, fun a ha => nomatch ha⟩
  | refused e =>
      cases hfits with
      | answered hstmt => exact nomatch hstmt
  | batch stmts =>
      cases hfits with
      | kept hdone => exact hdone

/-! ## What lasts -/

/-- The data gets from one state to another by the effects of these statements, each in the
surroundings of its time. -/
inductive Engine.Leads (engine : Engine δ ω) : List Statement → δ → δ → Prop
  | nil (data : δ) : Leads engine [] data data
  | cons {stmt : Statement} {rest : List Statement} {data data' data'' : δ} {w w' : ω} :
    engine.effect? (data, w) stmt = some (data', w') → Leads engine rest data' data'' →
      Leads engine (stmt :: rest) data data''

namespace Engine.Leads

variable {engine : Engine δ ω} {data data' data'' : δ}

theorem append {stmts more : List Statement} (h : engine.Leads stmts data data')
    (hmore : engine.Leads more data' data'') : engine.Leads (stmts ++ more) data data'' := by
  induction h with
  | nil => exact hmore
  | cons heffect _ ih => exact .cons heffect (ih hmore)

theorem of_effects {stmts : List Statement} {w w' : ω}
    (h : engine.effects? stmts (data, w) = some (data', w')) : engine.Leads stmts data data' := by
  induction stmts generalizing data w with
  | nil =>
      cases h
      exact .nil _
  | cons stmt stmts ih =>
      rw [effects?, List.foldlM_cons, Option.bind_eq_bind, Option.bind_eq_some_iff] at h
      obtain ⟨⟨data₁, w₁⟩, heffect, hrest⟩ := h
      exact .cons heffect (ih hrest)

end Engine.Leads

/-- The statements of the attempts that were sent and answered. -/
def executedStatements (attempts : List Attempt) : List Statement :=
  (attempts.filter fun a => a.error?.isNone).map Attempt.statement

/-- The statements whose effects an operation leaves behind: those that were executed, but none of a
batch that failed. -/
def Happening.lasting {σ : Type} (h : Happening σ) : List Statement :=
  match h.operation.isBatch, h.result with
  | true, .error _ => []
  | _, _ => executedStatements h.attempts

theorem executedStatements_of_done {attempts : List Attempt}
    (hdone : ∀ a ∈ attempts, a.error? = none) :
    executedStatements attempts = attempts.map Attempt.statement := by
  unfold executedStatements
  rw [List.filter_eq_self.mpr fun a ha => Option.isNone_iff_eq_none.mpr (hdone a ha)]

section Histories

variable {engine : Engine δ ω} {settings : Settings} {h : Happening (Transaction δ ω)}

/-- Every operation that writes rows leaves the transaction as a batch does. -/
theorem Happening.IsOn.nested (hon : h.IsOn (engine.database settings))
    (hbatch : h.operation.isBatch = true) :
    Nested engine h.attempts h.before.client h.result h.after.client :=
  (Operation.isBatch_plan hbatch settings.keyColumn).nested hon.plan
    (fun _ he => Operation.isValidation_of_plan he)
    (fun _ hstmt => Operation.beginsWithVerb_of_mem hstmt (Operation.handedIn?_of_isBatch hbatch))
    hon.client

theorem Happening.IsOn.leads_of_isBatch (hon : h.IsOn (engine.database settings))
    (hbatch : h.operation.isBatch = true) :
    engine.Leads h.lasting h.before.client.data h.after.client.data := by
  have hnested := hon.nested hbatch
  unfold Happening.lasting
  rw [hbatch]
  cases hresult : h.result with
  | error e =>
      rw [hresult] at hnested
      cases hnested with
      | refused _ hsame =>
          rw [hsame]
          exact .nil _
      | undone hdata =>
          rw [hdata]
          exact .nil _
  | ok x =>
      have hdone : AllDone _ h.attempts :=
        (Operation.isBatch_plan hbatch settings.keyColumn).allDone (hresult ▸ hon.plan)
      rw [hresult] at hnested
      dsimp only
      rw [executedStatements_of_done hdone.2]
      cases hnested with
      | kept heffects => exact .of_effects heffects

/-- One statement is tried, unless it cannot be written. -/
theorem OneAttempt.tried {stmt : Except DatabaseError Statement} {Misread : DatabaseError → Prop}
    {y : Except DatabaseError α} {calls : List Exchange} {attempts : List Attempt}
    {t t' : Transaction δ ω} (h : OneAttempt stmt Misread y calls attempts)
    (hleaves : ∀ stmt', stmt = .ok stmt' → stmt'.LeavesSavepoints)
    (hfollows : (engine.database settings).client.Follows t calls t') :
    (attempts = [] ∧ t' = t) ∨ ∃ a, attempts = [a] ∧ Engine.Tried engine a t t' := by
  cases h with
  | unwritten => exact .inl ⟨rfl, Client.Follows.nil_iff.mp hfollows⟩
  | failed hstmt => exact .inr ⟨_, rfl, Engine.tried_of_follows (hleaves _ hstmt) hfollows⟩
  | answered hstmt => exact .inr ⟨_, rfl, Engine.tried_of_follows (hleaves _ hstmt) hfollows⟩

/-- One statement leaves its effect behind if it is executed, and nothing otherwise. -/
theorem OneAttempt.leads {stmt : Except DatabaseError Statement} {Misread : DatabaseError → Prop}
    {y : Except DatabaseError α} {calls : List Exchange} {attempts : List Attempt}
    {t t' : Transaction δ ω} (h : OneAttempt stmt Misread y calls attempts)
    (hleaves : ∀ stmt', stmt = .ok stmt' → stmt'.LeavesSavepoints)
    (hfollows : (engine.database settings).client.Follows t calls t') :
    engine.Leads (executedStatements attempts) t.data t'.data := by
  rcases h.tried hleaves hfollows with ⟨rfl, rfl⟩ | ⟨a, rfl, htried⟩
  · exact .nil _
  · cases htried with
    | executed ha haborted heffect =>
        rw [executedStatements, List.filter_cons_of_pos (by rw [ha]; rfl)]
        exact .cons heffect (.nil _)
    | failed ha =>
        rw [executedStatements, List.filter_cons_of_neg (by rw [ha]; exact Bool.false_ne_true)]
        exact .nil _

theorem Happening.IsOn.leads_of_not_isBatch (hon : h.IsOn (engine.database settings))
    (hbatch : h.operation.isBatch = false)
    (hleaves : ∀ stmt, h.operation.handedIn? = some stmt → stmt.LeavesSavepoints) :
    engine.Leads h.lasting h.before.client.data h.after.client.data := by
  have hfits : (h.operation.plan settings.keyColumn).Fits _ _ _ _ := hon.plan
  unfold Happening.lasting
  rw [hbatch]
  rcases Operation.plan_of_not_isBatch hbatch settings.keyColumn with hplan | ⟨stmt, hplan⟩
  · rw [hplan] at hfits
    obtain ⟨-, hcalls, hattempts⟩ := hfits
    have hfollows := hon.client
    rw [hcalls] at hfollows
    dsimp only
    rw [hattempts, Client.Follows.nil_iff.mp hfollows]
    exact .nil _
  · rw [hplan] at hfits
    refine OneAttempt.leads hfits (fun stmt' hstmt => ?_) hon.client
    have hmem : .ok stmt' ∈ (h.operation.plan settings.keyColumn).statements := by
      rw [hplan, hstmt]
      exact List.mem_singleton_self _
    exact Operation.leavesSavepoints_of_mem hmem hleaves

/-- What one operation leaves behind, over a whole history. -/
theorem Database.History.leads {s s' : Session (Transaction δ ω)}
    {happenings : List (Happening (Transaction δ ω))}
    (hhistory : (engine.database settings).History s happenings s')
    (hleaves : ∀ h ∈ happenings, ∀ stmt, h.operation.handedIn? = some stmt →
      stmt.LeavesSavepoints) :
    engine.Leads (happenings.flatMap Happening.lasting) s.client.data s'.client.data := by
  induction hhistory with
  | nil => exact .nil _
  | @cons h rest s' hon _ ih =>
      have hrest := ih fun h' hh' => hleaves h' (List.mem_cons_of_mem h hh')
      have hfirst : engine.Leads h.lasting h.before.client.data h.after.client.data := by
        cases hbatch : h.operation.isBatch with
        | true => exact hon.leads_of_isBatch hbatch
        | false => exact hon.leads_of_not_isBatch hbatch (hleaves h List.mem_cons_self)
      exact hfirst.append hrest

end Histories

/-- **Batches nest in a transaction of the caller, each of them all or nothing.**  In every sequence
of operations, a batch that succeeds leaves the data with the effects of all its rows, and a batch
that fails leaves the data exactly as it was and the transaction usable, whatever savepoints other
batches left behind.  What was done before stays: unless the caller hands in commands about
savepoints, the data at the end comes from the data at the beginning by the effects of every statement
that was executed, but for those of batches that failed. -/
theorem batches_nest_in_transaction (engine : Engine δ ω) (settings : Settings)
    (ops : List Operation) (s : Session (Transaction δ ω)) :
    let db := engine.database settings
    ∃ happenings, happenings.map Happening.operation = ops ∧
      db.History s happenings (db.runAll ops s) ∧
      (∀ h ∈ happenings, h.operation.isBatch = true →
        let t := h.before.client
        let t' := h.after.client
        (∀ x, h.result = .ok x → ∃ rows : List Statement,
          (h.operation.plan settings.keyColumn).statements = rows.map .ok ∧
          engine.effects? rows (t.data, t.surroundings) = some (t'.data, t'.surroundings)) ∧
        (∀ k e, h.result = .error (.batch k e) → t'.data = t.data ∧ t'.isAborted = false)) ∧
      ((∀ op ∈ ops, ∀ stmt, op.handedIn? = some stmt → stmt.LeavesSavepoints) →
        engine.Leads (happenings.flatMap Happening.lasting) s.client.data
          (db.runAll ops s).client.data) := by
  intro db
  obtain ⟨happenings, rfl, hhistory⟩ := db.exists_history ops s
  refine ⟨happenings, rfl, hhistory, fun h hh hbatch => ⟨?_, ?_⟩, fun hleaves => ?_⟩
  · intro x hresult
    have hon := hhistory.isOn_of_mem h hh
    have hnested := hon.nested hbatch
    obtain ⟨hrows, -⟩ : AllDone _ h.attempts :=
      (Operation.isBatch_plan hbatch settings.keyColumn).allDone (hresult ▸ hon.plan)
    rw [hresult] at hnested
    cases hnested with
    | kept heffects =>
        refine ⟨h.attempts.map Attempt.statement, ?_, heffects⟩
        rw [hrows, List.map_map]
        rfl
  · intro k e hresult
    have hnested := (hhistory.isOn_of_mem h hh).nested hbatch
    rw [hresult] at hnested
    cases hnested with
    | refused hother => exact absurd rfl (hother k e)
    | undone hdata _ haborted => exact ⟨hdata, haborted⟩
  · exact hhistory.leads fun h hh => hleaves h.operation (List.mem_map_of_mem hh)

/-- An engine that executes every text once, and whose data are the texts so far. -/
def Engine.ledger : Engine (List String) Unit where
  run sql _ data _ :=
    if sql ∈ data then (.error (.server { code := "23505", message := "executed before" }), ())
    else (.ok (⟨[], 1⟩, data ++ [sql]), ())
  aborts _ := true

/-- Three batches and a deletion: the second batch fails at its second row, which has the text of the
first, and the third one executes that text again. -/
def Engine.ledgerOps : List Operation :=
  [.insert { table := "users" } (.ofList [("id", .int 1)]),
    .ending { table := "items" } (.insertAll [.ofList [("id", .int 1)], .ofList [("id", .int 2)]]),
    .execute { sql := "DELETE FROM users", params := .empty, tag := "delete", table := none },
    .insert { table := "items" } (.ofList [("id", .int 3)])]

/-- The session that the ledger's operations begin in. -/
def Engine.ledgerSession : Session (Transaction (List String) Unit) :=
  .new {} ⟨[], (), [], false⟩

theorem batches_nest_in_ledger :
    (∃ happenings, happenings.map Happening.operation = Engine.ledgerOps ∧
      (Engine.ledger.database {}).History Engine.ledgerSession happenings
        ((Engine.ledger.database {}).runAll Engine.ledgerOps Engine.ledgerSession) ∧
      Engine.ledger.Leads (happenings.flatMap Happening.lasting) []
        ((Engine.ledger.database {}).runAll Engine.ledgerOps Engine.ledgerSession).client.data) ∧
    ((Engine.ledger.database {}).runAll Engine.ledgerOps Engine.ledgerSession).client.data
      = ["INSERT INTO users (id) VALUES ($1) RETURNING id", "DELETE FROM users",
        "INSERT INTO items (id) VALUES ($1) RETURNING id"] := by
  have hleaves : ∀ op ∈ Engine.ledgerOps, ∀ stmt, op.handedIn? = some stmt →
      stmt.LeavesSavepoints := by
    intro op hop stmt hstmt
    simp only [Engine.ledgerOps, List.mem_cons, List.not_mem_nil, or_false] at hop
    rcases hop with rfl | rfl | rfl | rfl
    · cases hstmt
    · cases hstmt
    · cases hstmt
      exact Statement.BeginsWithVerb.leavesSavepoints ⟨"DELETE FROM ", by decide, "users", rfl⟩
    · cases hstmt
  obtain ⟨happenings, hops, hhistory, -, hleads⟩ :=
    batches_nest_in_transaction Engine.ledger {} Engine.ledgerOps Engine.ledgerSession
  exact ⟨⟨happenings, hops, hhistory, hleads hleaves⟩, by decide +kernel⟩

end SqlBuilder
