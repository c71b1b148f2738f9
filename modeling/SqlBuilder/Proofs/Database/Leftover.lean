import SqlBuilder.Proofs.Database.Nesting

/-!
# Savepoints left behind

A batch on a transaction of the caller sets a savepoint when it begins and releases it when it is
kept.  When it is undone the transaction goes back to the savepoint, which takes back what the rows
did but not the savepoint itself, and nothing releases it afterwards.  So every batch that fails
leaves one savepoint behind, and all of them stay until the caller ends the transaction.
-/

namespace SqlBuilder

variable {δ ω α : Type}

/-! ## One operation -/

/-- The savepoint that an operation leaves behind: that of a batch whose rows were undone. -/
def Happening.leftBehind? (h : Happening (Transaction δ ω)) : Option (String × δ) :=
  match h.operation.isBatch, h.result with
  | true, .error (.batch _ _) => some (BatchCommands.savepointName, h.before.client.data)
  | _, _ => none

theorem Happening.leftBehind?_eq_none_iff {h : Happening (Transaction δ ω)}
    (hbatch : h.operation.isBatch = true) :
    h.leftBehind? = none ↔ ∀ k e, h.result ≠ .error (.batch k e) := by
  unfold Happening.leftBehind?
  rw [hbatch]
  constructor
  · intro hnone k e hresult
    rw [hresult] at hnone
    cases hnone
  · intro hother
    cases hresult : h.result with
    | ok x => rfl
    | error e =>
        cases e with
        | batch k source => exact absurd hresult (hother k source)
        | _ => rfl

theorem Engine.Tried.savepoints {engine : Engine δ ω} {a : Attempt} {t t' : Transaction δ ω}
    (h : Engine.Tried engine a t t') : t'.savepoints = t.savepoints := by
  cases h with
  | executed => rfl
  | failed => rfl

namespace Happening.IsOn

variable {engine : Engine δ ω} {settings : Settings} {h : Happening (Transaction δ ω)}

/-- **A batch leaves the savepoints as they were, and adds its own if its rows are undone.** -/
theorem savepoints_of_isBatch (hon : h.IsOn (engine.database settings))
    (hbatch : h.operation.isBatch = true) :
    h.after.client.savepoints = h.leftBehind?.toList ++ h.before.client.savepoints := by
  have hnested := hon.nested hbatch
  unfold Happening.leftBehind?
  rw [hbatch]
  cases hresult : h.result with
  | ok x =>
      rw [hresult] at hnested
      cases hnested with
      | kept _ hsavepoints => exact hsavepoints
  | error e =>
      rw [hresult] at hnested
      cases hnested with
      | undone _ hsavepoints => exact hsavepoints
      | refused hother hsame =>
          -- the batch was not even begun, which no error of a batch says
          cases e with
          | batch k source => exact absurd rfl (hother k source)
          | _ => exact congrArg Transaction.savepoints hsame

theorem savepoints_of_not_isBatch (hon : h.IsOn (engine.database settings))
    (hbatch : h.operation.isBatch = false)
    (hleaves : ∀ stmt, h.operation.handedIn? = some stmt → stmt.LeavesSavepoints) :
    h.after.client.savepoints = h.before.client.savepoints := by
  have hfits : (h.operation.plan settings.keyColumn).Fits _ _ _ _ := hon.plan
  rcases Operation.plan_of_not_isBatch hbatch settings.keyColumn with hplan | ⟨stmt, hplan⟩
  · rw [hplan] at hfits
    obtain ⟨-, hcalls, -⟩ := hfits
    have hfollows := hon.client
    rw [hcalls] at hfollows
    rw [Client.Follows.nil_iff.mp hfollows]
  · rw [hplan] at hfits
    have hplanned : ∀ stmt', stmt = .ok stmt' → stmt'.LeavesSavepoints := by
      intro stmt' hstmt
      have hmem : .ok stmt' ∈ (h.operation.plan settings.keyColumn).statements := by
        rw [hplan, hstmt]
        exact List.mem_singleton_self _
      exact Operation.leavesSavepoints_of_mem hmem hleaves
    rcases OneAttempt.tried hfits hplanned hon.client with ⟨-, hsame⟩ | ⟨a, -, htried⟩
    · rw [hsame]
    · exact htried.savepoints

/-- What any operation leaves behind. -/
theorem savepoints_eq (hon : h.IsOn (engine.database settings))
    (hleaves : ∀ stmt, h.operation.handedIn? = some stmt → stmt.LeavesSavepoints) :
    h.after.client.savepoints = h.leftBehind?.toList ++ h.before.client.savepoints := by
  cases hbatch : h.operation.isBatch with
  | true => exact hon.savepoints_of_isBatch hbatch
  | false =>
      have hnone : h.leftBehind? = none := by
        unfold Happening.leftBehind?
        rw [hbatch]
      rw [hnone]
      exact hon.savepoints_of_not_isBatch hbatch hleaves

/-- A batch restores the savepoints unless its rows are undone. -/
theorem restored_iff (hon : h.IsOn (engine.database settings))
    (hbatch : h.operation.isBatch = true) :
    h.after.client.savepoints = h.before.client.savepoints ↔
      ∀ k e, h.result ≠ .error (.batch k e) := by
  rw [hon.savepoints_of_isBatch hbatch, List.append_left_eq_self, Option.toList_eq_nil_iff]
  exact leftBehind?_eq_none_iff hbatch

end Happening.IsOn

/-! ## Histories -/

/-- Over a whole history the savepoints left behind gather, the newest first. -/
theorem Database.History.savepoints_eq {engine : Engine δ ω} {settings : Settings}
    {s s' : Session (Transaction δ ω)} {happenings : List (Happening (Transaction δ ω))}
    (hhistory : (engine.database settings).History s happenings s')
    (hleaves : ∀ h ∈ happenings, ∀ stmt, h.operation.handedIn? = some stmt →
      stmt.LeavesSavepoints) :
    s'.client.savepoints
      = (happenings.filterMap Happening.leftBehind?).reverse ++ s.client.savepoints := by
  induction hhistory with
  | nil => rfl
  | @cons h rest s' hon _ ih =>
      have hrest := ih fun h' hh' => hleaves h' (List.mem_cons_of_mem h hh')
      have hfirst := hon.savepoints_eq (hleaves h List.mem_cons_self)
      rw [hrest, hfirst, ← List.append_assoc]
      congr 1
      cases hleft : h.leftBehind? with
      | none => rw [List.filterMap_cons_none hleft, Option.toList_none, List.append_nil]
      | some savepoint =>
          rw [List.filterMap_cons_some hleft, List.reverse_cons, Option.toList_some]

/-- **A batch restores the savepoints exactly if its rows are not undone.**  In every sequence of
operations on a transaction of the caller, a batch leaves the savepoints as it found them iff it does
not fail as a batch.  Unless the caller hands in commands about savepoints, those at the end are those
at the beginning below one more for each batch that failed. -/
theorem savepoints_restored_iff_not_undone (engine : Engine δ ω) (settings : Settings)
    (ops : List Operation) (s : Session (Transaction δ ω)) :
    let db := engine.database settings
    ∃ happenings, happenings.map Happening.operation = ops ∧
      db.History s happenings (db.runAll ops s) ∧
      (∀ h ∈ happenings, h.operation.isBatch = true →
        (h.after.client.savepoints = h.before.client.savepoints ↔
          ∀ k e, h.result ≠ .error (.batch k e))) ∧
      ((∀ op ∈ ops, ∀ stmt, op.handedIn? = some stmt → stmt.LeavesSavepoints) →
        (db.runAll ops s).client.savepoints
          = (happenings.filterMap Happening.leftBehind?).reverse ++ s.client.savepoints) := by
  intro db
  obtain ⟨happenings, rfl, hhistory⟩ := db.exists_history ops s
  refine ⟨happenings, rfl, hhistory, ?_, ?_⟩
  · intro h hh hbatch
    exact (hhistory.isOn_of_mem h hh).restored_iff hbatch
  · intro hleaves
    exact hhistory.savepoints_eq fun h hh => hleaves h.operation (List.mem_map_of_mem hh)

/-- Two records with one statement, of which the ledger refuses the second. -/
theorem undone_batch_leaves_savepoint :
    let db := Engine.ledger.database {}
    let rows : List Record := [.ofList [("id", .int 1)], .ofList [("id", .int 2)]]
    let out := (({ table := "items" } : Select).insertAll db rows).run Engine.ledgerSession
    (errorOf out.1).bind DatabaseError.progress? = some 1 ∧
      Engine.ledgerSession.client.savepoints = [] ∧
      out.2.client.savepoints = [("pgfluent_batch", [])] := by
  decide +kernel

end SqlBuilder
