import SqlBuilder.Proofs.Database.Operation

/-!
# Histories

A history tells how operations went on a database, one after the other: the outcome of each, what it
asked of the client and which statements it handed in.  Every sequence of operations has one
(`Database.exists_history`), whatever the client answers.

The log is read off from it: it holds the last statements that were handed in since it was emptied,
as many as there is room for (`log_is_window_of_attempts`).
-/

namespace SqlBuilder

variable {σ : Type}

/-! ## Runs of operations -/

/-- How an operation went. -/
structure Happening (σ : Type) : Type 1 where
  operation : Operation
  before : Session σ
  result : Except DatabaseError Unit
  after : Session σ
  /-- What was asked of the client. -/
  calls : List Exchange
  /-- The statements that were handed in. -/
  attempts : List Attempt

/-- The log after an operation with these attempts. -/
def Operation.logAfter (attempts : List Attempt) (log : StatementLog) : Operation → StatementLog
  | clearLog => log.clear
  | _ => log.addAll (attempts.map Attempt.entry)

/-- The operation went this way on the database. -/
structure Happening.IsOn (db : Database σ) (h : Happening σ) : Prop where
  run : (h.operation.run db).run h.before = (h.result, h.after)
  client : db.client.Follows h.before.client h.calls h.after.client
  log : h.after.log = h.operation.logAfter h.attempts h.before.log
  sent : h.calls.filter (·.request.isStatement) = h.attempts.filterMap Attempt.exchange?
  plan : (h.operation.plan db.settings.keyColumn).Fits h.operation.Misreads h.result h.calls
    h.attempts

namespace Database

/-- The session after these operations; none of them is kept back because another one failed. -/
def runAll (db : Database σ) (ops : List Operation) (s : Session σ) : Session σ :=
  ops.foldl (fun s op => ((op.run db).run s).2) s

/-- From one session to another by these happenings, one after the other. -/
inductive History (db : Database σ) : Session σ → List (Happening σ) → Session σ → Prop
  | nil (s : Session σ) : History db s [] s
  | cons {h : Happening σ} {rest : List (Happening σ)} {s : Session σ} :
    h.IsOn db → History db h.after rest s → History db h.before (h :: rest) s

theorem exists_happening (db : Database σ) (op : Operation) (s : Session σ) :
    ∃ h : Happening σ, h.IsOn db ∧ h.operation = op ∧ h.before = s ∧
      h.after = ((op.run db).run s).2 := by
  by_cases hop : op = .clearLog
  · subst hop
    let cleared : Session σ := { s with log := s.log.clear }
    exact ⟨⟨.clearLog, s, .ok (), cleared, [], []⟩,
      ⟨rfl, .nil _, rfl, rfl, ⟨(), rfl⟩, rfl, rfl⟩, rfl, rfl, rfl⟩
  · obtain ⟨calls, attempts, haccount, hfits⟩ := op.goes db hop s
    have hlog : op.logAfter attempts s.log = s.log.addAll (attempts.map Attempt.entry) := by
      cases op with
      | clearLog => exact absurd rfl hop
      | _ => rfl
    exact ⟨⟨op, s, _, _, calls, attempts⟩,
      ⟨rfl, haccount.client, haccount.log.trans hlog.symm, haccount.sent, hfits⟩, rfl, rfl, rfl⟩

/-- Every sequence of operations has a history. -/
theorem exists_history (db : Database σ) (ops : List Operation) (s : Session σ) :
    ∃ happenings, happenings.map Happening.operation = ops ∧
      db.History s happenings (db.runAll ops s) := by
  induction ops generalizing s with
  | nil => exact ⟨[], rfl, .nil s⟩
  | cons op ops ih =>
      obtain ⟨h, hon, rfl, rfl, hafter⟩ := db.exists_happening op s
      obtain ⟨rest, hops, hhistory⟩ := ih h.after
      refine ⟨h :: rest, by rw [List.map_cons, hops], .cons hon ?_⟩
      rwa [runAll, List.foldl_cons, ← hafter, ← runAll]

theorem History.isOn_of_mem {db : Database σ} {happenings : List (Happening σ)} {s t : Session σ}
    (hhistory : db.History s happenings t) : ∀ h ∈ happenings, h.IsOn db := by
  induction hhistory with
  | nil => exact fun _ h => nomatch h
  | cons hon _ ih =>
      intro h hh
      rcases List.mem_cons.mp hh with rfl | hrest
      · exact hon
      · exact ih h hrest

end Database

/-! ## The log -/

/-- The attempts since the log was emptied, after an operation with attempts of its own. -/
def Happening.attemptsAfter (attempts : List Attempt) (h : Happening σ) : List Attempt :=
  match h.operation with
  | .clearLog => []
  | _ => attempts ++ h.attempts

/-- The statements that were handed in since the log was last emptied. -/
def attemptsSinceClear (happenings : List (Happening σ)) : List Attempt :=
  happenings.foldl Happening.attemptsAfter []

/-- The log holds the end of these attempts. -/
def StatementLog.ShowsEndOf (attempts : List Attempt) (log : StatementLog) : Prop :=
  log.entries = (attempts.map Attempt.entry).rtake log.capacity

theorem StatementLog.ShowsEndOf.addAll {attempts : List Attempt} {log : StatementLog}
    (h : log.ShowsEndOf attempts) (more : List Attempt) :
    (log.addAll (more.map Attempt.entry)).ShowsEndOf (attempts ++ more) := by
  have hlog : log.entries = (attempts.map Attempt.entry).rtake log.capacity := h
  unfold ShowsEndOf
  rw [entries_addAll, capacity_addAll, hlog, rtake_rtake_append, List.map_append]

/-- One operation keeps the log in step with the attempts. -/
theorem Happening.IsOn.showsEndOf {db : Database σ} {h : Happening σ} (hon : h.IsOn db)
    {attempts : List Attempt} (hbefore : h.before.log.ShowsEndOf attempts) :
    h.after.log.ShowsEndOf (h.attemptsAfter attempts) ∧
      h.after.log.capacity = h.before.log.capacity := by
  rw [hon.log]
  unfold attemptsAfter
  cases h.operation with
  | clearLog => exact ⟨List.rtake_nil _ |>.symm, rfl⟩
  | _ => exact ⟨hbefore.addAll h.attempts, StatementLog.capacity_addAll _ _⟩

/-- So do operations one after the other. -/
theorem Database.History.showsEndOf {db : Database σ} {s t : Session σ}
    {happenings : List (Happening σ)} (hhistory : db.History s happenings t)
    {attempts : List Attempt} (hbefore : s.log.ShowsEndOf attempts) :
    t.log.ShowsEndOf (happenings.foldl Happening.attemptsAfter attempts) ∧
      t.log.capacity = s.log.capacity := by
  induction hhistory generalizing attempts with
  | nil => exact ⟨hbefore, rfl⟩
  | cons hon _ ih =>
      obtain ⟨hstep, hcapacity⟩ := hon.showsEndOf hbefore
      obtain ⟨hend, hcapacity'⟩ := ih hstep
      exact ⟨hend, hcapacity'.trans hcapacity⟩

/-- The last of a list, when there are not as many, are all of it. -/
theorem rtake_min_length {α : Type} (xs : List α) (n : Nat) :
    xs.rtake (min n xs.length) = xs.rtake n := by
  unfold List.rtake
  congr 1
  omega

/-- A faithful window: after any operations, in any order and whatever the client answered, the log
shows the last statements that were handed in since it was emptied, oldest first and one entry for
each, as many as it has room for.  An entry has the statement's text, the same with literals for its
placeholders, and no error exactly if the statement was sent and the client answered it. -/
theorem log_is_window_of_attempts (db : Database σ) (client : σ) (ops : List Operation) :
    ∃ happenings, happenings.map Happening.operation = ops ∧
      db.History (.new db.settings client) happenings
        (db.runAll ops (.new db.settings client)) ∧
      (Database.loggedStatements.run (db.runAll ops (.new db.settings client))).1
        = .ok (((attemptsSinceClear happenings).map Attempt.entry).rtake
            (min db.settings.logCapacity (attemptsSinceClear happenings).length)) ∧
      ∀ a ∈ attemptsSinceClear happenings,
        a.entry.sql = a.statement.sql ∧
        a.entry.literalSql = fillLiterals a.statement.sql a.statement.params ∧
        (a.entry.error = none ↔ ∃ x y, a.exchange? = some x ∧ x.answer = .ok y) := by
  obtain ⟨happenings, hops, hhistory⟩ := db.exists_history ops (.new db.settings client)
  have hempty : (Session.new db.settings client).log.ShowsEndOf [] := (List.rtake_nil _).symm
  obtain ⟨hend, hcapacity⟩ := hhistory.showsEndOf hempty
  refine ⟨happenings, hops, hhistory, ?_, fun a _ => ⟨rfl, rfl, ?_⟩⟩
  · have hentries : (db.runAll ops (.new db.settings client)).log.entries
        = ((attemptsSinceClear happenings).map Attempt.entry).rtake db.settings.logCapacity := by
      rw [hend, hcapacity]
      rfl
    rw [← rtake_min_length, List.length_map] at hentries
    rw [← hentries]
    rfl
  · rw [← a.error?_eq_none_iff]
    exact Option.map_eq_none_iff

end SqlBuilder
