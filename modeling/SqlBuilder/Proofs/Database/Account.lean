import Mathlib.Data.List.DropRight
import SqlBuilder.Proofs.Database.Trace

/-!
# What an operation hands in

An operation talks to the client in exchanges, and it writes its attempts to run a statement into
the log.  An account of an operation in a session lists both: `calls`, along which the client gets
from its state before to the one after, and `attempts`, whose entries are what the log grows by.  The
exchanges about statements are those of the attempts that were sent.

`Action.Goes c a P` gives such an account for every session of a client, with `P` tying it to the
outcome.  As for traces, there is one rule for each way operations are put together.
-/

namespace SqlBuilder

variable {σ ι α β : Type}

/-! ## Clients -/

/-- What a client makes of a request. -/
def Client.respond (c : Client σ) (s : σ) : Request → Except DatabaseError Answer × σ
  | .query sql values => ((c.query sql values s).1.map .rows, (c.query sql values s).2)
  | .execute sql values => ((c.execute sql values s).1.map .affected, (c.execute sql values s).2)
  | .script sql => ((c.script sql s).1.map fun _ => .done, (c.script sql s).2)
  | .begin => ((c.begin s).1.map fun _ => .done, (c.begin s).2)
  | .commit => ((c.commit s).1.map fun _ => .done, (c.commit s).2)
  | .rollback => ((c.rollback s).1.map fun _ => .done, (c.rollback s).2)

/-- The client gets from one state to another by these exchanges, one after the other. -/
inductive Client.Follows (c : Client σ) : σ → List Exchange → σ → Prop
  | nil (s : σ) : Follows c s [] s
  | cons {s s' : σ} {x : Exchange} {rest : List Exchange} :
    (c.respond s x.request).1 = x.answer → Follows c (c.respond s x.request).2 rest s' →
      Follows c s (x :: rest) s'

namespace Client.Follows

variable {c : Client σ} {s t u : σ}

theorem single (c : Client σ) (s : σ) (request : Request) :
    c.Follows s [⟨request, (c.respond s request).1⟩] (c.respond s request).2 :=
  .cons rfl (.nil _)

theorem append {calls more : List Exchange} (h : c.Follows s calls t) (hmore : c.Follows t more u) :
    c.Follows s (calls ++ more) u := by
  induction h with
  | nil => exact hmore
  | cons hanswer _ ih => exact .cons hanswer (ih hmore)

theorem nil_iff : c.Follows s [] t ↔ t = s := by
  constructor
  · intro h
    cases h
    rfl
  · rintro rfl
    exact .nil t

theorem cons_iff {x : Exchange} {rest : List Exchange} :
    c.Follows s (x :: rest) u ↔ ∃ t, c.respond s x.request = (x.answer, t) ∧ c.Follows t rest u := by
  constructor
  · intro h
    cases h with
    | cons hanswer hrest => exact ⟨_, Prod.ext hanswer rfl, hrest⟩
  · rintro ⟨t, hrespond, hrest⟩
    refine .cons (congrArg Prod.fst hrespond) ?_
    rwa [hrespond]

theorem singleton_iff {x : Exchange} :
    c.Follows s [x] t ↔ c.respond s x.request = (x.answer, t) := by
  rw [cons_iff]
  constructor
  · rintro ⟨u, hrespond, hend⟩
    rwa [nil_iff.mp hend]
  · intro hrespond
    exact ⟨t, hrespond, .nil t⟩

/-- Exchanges lead through a state between any two of them. -/
theorem append_iff {calls more : List Exchange} :
    c.Follows s (calls ++ more) u ↔ ∃ t, c.Follows s calls t ∧ c.Follows t more u := by
  refine ⟨fun h => ?_, fun ⟨t, hcalls, hmore⟩ => hcalls.append hmore⟩
  induction calls generalizing s with
  | nil => exact ⟨s, .nil s, h⟩
  | cons x calls ih =>
      rw [List.cons_append, cons_iff] at h
      obtain ⟨s', hrespond, hrest⟩ := h
      obtain ⟨t, hcalls, hmore⟩ := ih hrest
      exact ⟨t, cons_iff.mpr ⟨s', hrespond, hcalls⟩, hmore⟩

/-- Every answer on the way was given by the client in some state. -/
theorem answer_of_mem {calls : List Exchange} (h : c.Follows s calls t) {x : Exchange}
    (hx : x ∈ calls) : ∃ state, (c.respond state x.request).1 = x.answer := by
  induction h with
  | nil => exact nomatch hx
  | @cons s _ y rest hanswer _ ih =>
      rcases List.mem_cons.mp hx with rfl | hrest
      · exact ⟨s, hanswer⟩
      · exact ih hrest

end Client.Follows

theorem Client.respond_recorded (c : Client σ) (s : Recorded σ) (request : Request) :
    c.recorded.respond s request = ((c.respond s.1 request).1, (c.respond s.1 request).2,
      s.2 ++ [⟨request, (c.respond s.1 request).1⟩]) := by
  cases request <;> rfl

/-- A recorded client has written down just the exchanges on its way. -/
theorem Client.Follows.of_recorded {c : Client σ} {s t : Recorded σ} {calls : List Exchange}
    (h : c.recorded.Follows s calls t) : c.Follows s.1 calls t.1 ∧ t.2 = s.2 ++ calls := by
  induction h with
  | nil s => exact ⟨.nil _, (List.append_nil _).symm⟩
  | @cons s t x rest hanswer _ ih =>
      obtain ⟨hfollows, hrecord⟩ := ih
      rw [c.respond_recorded] at hanswer hfollows hrecord
      refine ⟨.cons hanswer hfollows, ?_⟩
      rw [hrecord, hanswer, List.append_assoc, List.singleton_append]

/-! ## Attempts -/

/-- Whether a request is about a statement with parameters. -/
def Request.isStatement : Request → Bool
  | .query .. | .execute .. => true
  | _ => false

/-- The request for a numbered statement: for its rows, or for their number. -/
def NumberedStatement.request (p : NumberedStatement) (fetch : Bool) : Request :=
  if fetch then .query p.sql p.values else .execute p.sql p.values

@[simp]
theorem NumberedStatement.isStatement_request (p : NumberedStatement) (fetch : Bool) :
    (p.request fetch).isStatement = true := by
  cases fetch <;> rfl

/-- What went wrong, if anything did. -/
def errorOf : Except DatabaseError α → Option DatabaseError
  | .ok _ => none
  | .error e => some e

theorem errorOf_map (x : Except DatabaseError α) (f : α → β) : errorOf (x.map f) = errorOf x := by
  cases x <;> rfl

theorem errorOf_eq_some_iff {x : Except DatabaseError α} {e : DatabaseError} :
    errorOf x = some e ↔ x = .error e := by
  cases x <;> simp [errorOf]

theorem map_eq_ok_iff {x : Except DatabaseError α} {f : α → β} {b : β} :
    x.map f = .ok b ↔ ∃ a, x = .ok a ∧ f a = b := by
  cases x <;> simp [Except.map]

theorem map_eq_error_iff {x : Except DatabaseError α} {f : α → β} {e : DatabaseError} :
    x.map f = .error e ↔ x = .error e := by
  rw [← errorOf_eq_some_iff, errorOf_map, errorOf_eq_some_iff]

/-- A statement that was handed in for execution. -/
inductive Attempt where
  /-- A placeholder has no value, and nothing was sent. -/
  | refused (stmt : Statement) (e : DatabaseError)
    (h : numberParameters stmt.sql stmt.params = .error e)
  | sent (stmt : Statement) (p : NumberedStatement)
    (h : numberParameters stmt.sql stmt.params = .ok p) (fetch : Bool)
    (answer : Except DatabaseError Answer)

namespace Attempt

def statement : Attempt → Statement
  | refused stmt .. => stmt
  | sent stmt .. => stmt

/-- What was sent and what came back. -/
def exchange? : Attempt → Option Exchange
  | refused .. => none
  | sent _ p _ fetch answer => some ⟨p.request fetch, answer⟩

/-- Why the statement was not executed. -/
def error? : Attempt → Option DatabaseError
  | refused _ e _ => some e
  | sent _ _ _ _ answer => errorOf answer

/-- What the log holds about it. -/
def entry (a : Attempt) : LogEntry :=
  a.statement.logEntry (a.error?.map DatabaseError.message)

/-- There is no error exactly if the statement was sent and the client answered. -/
theorem error?_eq_none_iff (a : Attempt) :
    a.error? = none ↔ ∃ x y, a.exchange? = some x ∧ x.answer = .ok y := by
  cases a with
  | refused stmt e h => simp [error?, exchange?]
  | sent stmt p h fetch answer => cases answer <;> simp [error?, exchange?, errorOf]

theorem isStatement_of_exchange? {a : Attempt} {x : Exchange} (h : a.exchange? = some x) :
    x.request.isStatement = true := by
  cases a with
  | refused => exact nomatch h
  | sent stmt p hp fetch answer =>
      cases h
      exact p.isStatement_request fetch

end Attempt

/-- The outcome of handing in a statement: one attempt, whose error is the outcome's. -/
def Tried (stmt : Statement) (y : Except DatabaseError α) (calls : List Exchange)
    (attempts : List Attempt) : Prop :=
  ∃ a : Attempt, a.statement = stmt ∧ attempts = [a] ∧ calls = a.exchange?.toList ∧
    a.error? = errorOf y

/-- The outcome of handing in one statement, if it can be written, and reading the answer. -/
inductive OneAttempt (stmt : Except DatabaseError Statement) (Misread : DatabaseError → Prop) :
    Except DatabaseError α → List Exchange → List Attempt → Prop
  | unwritten {e : DatabaseError} : stmt = .error e → OneAttempt stmt Misread (.error e) [] []
  | failed {a : Attempt} {e : DatabaseError} :
    stmt = .ok a.statement → a.error? = some e →
      OneAttempt stmt Misread (.error e) a.exchange?.toList [a]
  | answered {a : Attempt} {y : Except DatabaseError α} :
    stmt = .ok a.statement → a.error? = none → (∀ e, y = .error e → Misread e) →
      OneAttempt stmt Misread y a.exchange?.toList [a]

theorem OneAttempt.map {stmt : Except DatabaseError Statement} {Misread : DatabaseError → Prop}
    {y : Except DatabaseError α} {calls : List Exchange} {attempts : List Attempt}
    (h : OneAttempt stmt Misread y calls attempts) (f : α → β) :
    OneAttempt stmt Misread (y.map f) calls attempts := by
  cases h with
  | unwritten he => exact .unwritten he
  | failed hstmt he => exact .failed hstmt he
  | answered hstmt ha hread =>
      exact .answered hstmt ha fun e he => hread e (map_eq_error_iff.mp he)

/-! ## The log -/

namespace StatementLog

/-- Appends entries, one after the other. -/
def addAll (log : StatementLog) (entries : List LogEntry) : StatementLog :=
  entries.foldl add log

@[simp]
theorem addAll_nil (log : StatementLog) : log.addAll [] = log := rfl

theorem addAll_append (log : StatementLog) (entries more : List LogEntry) :
    log.addAll (entries ++ more) = (log.addAll entries).addAll more :=
  List.foldl_append

@[simp]
theorem capacity_addAll (log : StatementLog) (entries : List LogEntry) :
    (log.addAll entries).capacity = log.capacity := by
  induction entries generalizing log with
  | nil => rfl
  | cons entry entries ih => exact ih (log.add entry)

/-- What is not in the end of a list cannot be in the end of a longer one. -/
theorem rtake_rtake_append {xs ys : List α} (n : Nat) :
    (xs.rtake n ++ ys).rtake n = (xs ++ ys).rtake n := by
  unfold List.rtake
  simp only [List.length_append, List.length_drop, List.drop_append, List.drop_drop]
  congr 2 <;> omega

/-- The log keeps the end of everything that was added. -/
theorem entries_addAll (log : StatementLog) (entries : List LogEntry) :
    (log.addAll entries).entries = (log.entries ++ entries).rtake log.capacity := by
  induction entries generalizing log with
  | nil =>
      have hlength := log.length_le
      rw [addAll_nil, List.append_nil, List.rtake, Nat.sub_eq_zero_of_le hlength, List.drop_zero]
  | cons entry entries ih =>
      have hadd : (log.add entry).entries = (log.entries ++ [entry]).rtake log.capacity :=
        log.entries_add entry
      rw [addAll, List.foldl_cons, ← addAll, ih, hadd, capacity_add, rtake_rtake_append,
        List.append_assoc, List.singleton_append]

end StatementLog

/-! ## Accounts -/

namespace Action

/-- In this session the action makes these calls and these attempts. -/
structure Account (c : Client σ) (a : Action σ α) (s : Session σ) (calls : List Exchange)
    (attempts : List Attempt) : Prop where
  client : c.Follows s.client calls (a.run s).2.client
  log : (a.run s).2.log = s.log.addAll (attempts.map Attempt.entry)
  sent : calls.filter (·.request.isStatement) = attempts.filterMap Attempt.exchange?

/-- The action has an account in every session, and outcome, calls and attempts are as `P` says. -/
def Goes (c : Client σ) (a : Action σ α)
    (P : Except DatabaseError α → List Exchange → List Attempt → Prop) : Prop :=
  ∀ s, ∃ calls attempts, Account c a s calls attempts ∧ P (a.run s).1 calls attempts

namespace Account

variable {c : Client σ} {a : Action σ α} {f : α → Action σ β} {s : Session σ}
  {calls more : List Exchange} {attempts others : List Attempt}

theorem bind_error (h : Account c a s calls attempts) {e : DatabaseError}
    (he : (a.run s).1 = .error e) : Account c (a >>= f) s calls attempts := by
  have hrun := run_bind_error (f := f) he
  exact ⟨hrun ▸ h.client, hrun ▸ h.log, h.sent⟩

theorem bind_ok (h : Account c a s calls attempts) {x : α} (hx : (a.run s).1 = .ok x)
    (hf : Account c (f x) (a.run s).2 more others) :
    Account c (a >>= f) s (calls ++ more) (attempts ++ others) := by
  have hrun := run_bind_ok (f := f) hx
  refine ⟨?_, ?_, ?_⟩
  · rw [hrun]
    exact h.client.append hf.client
  · rw [hrun, hf.log, h.log, List.map_append, StatementLog.addAll_append]
  · rw [List.filter_append, List.filterMap_append, h.sent, hf.sent]

end Account

/-! ## Rules -/

namespace Goes

variable {c : Client σ} {a : Action σ α}
  {P Q : Except DatabaseError α → List Exchange → List Attempt → Prop}

theorem mono (h : Goes c a P) (hPQ : ∀ y calls attempts, P y calls attempts → Q y calls attempts) :
    Goes c a Q := by
  intro s
  obtain ⟨calls, attempts, haccount, hP⟩ := h s
  exact ⟨calls, attempts, haccount, hPQ _ _ _ hP⟩

/-- An action that leaves client and log alone. -/
theorem of_silent {y : Except DatabaseError α} (hresult : ∀ s, (a.run s).1 = y)
    (hclient : ∀ s, (a.run s).2.client = s.client) (hlog : ∀ s, (a.run s).2.log = s.log) :
    Goes c a fun x calls attempts => x = y ∧ calls = [] ∧ attempts = [] := by
  intro s
  refine ⟨[], [], ⟨?_, hlog s, rfl⟩, hresult s, rfl, rfl⟩
  rw [hclient]
  exact .nil _

theorem pure (x : α) :
    Goes c (Pure.pure x : Action σ α) fun y calls attempts =>
      y = .ok x ∧ calls = [] ∧ attempts = [] :=
  of_silent (fun _ => rfl) (fun _ => rfl) fun _ => rfl

theorem throw (e : DatabaseError) :
    Goes c (MonadExcept.throw e : Action σ α) fun y calls attempts =>
      y = .error e ∧ calls = [] ∧ attempts = [] :=
  of_silent (fun _ => rfl) (fun _ => rfl) fun _ => rfl

theorem emit (e : Event) :
    Goes c (Database.emit e : Action σ Unit) fun y calls attempts =>
      y = .ok () ∧ calls = [] ∧ attempts = [] :=
  of_silent (fun _ => rfl) (fun _ => rfl) fun _ => rfl

theorem settle (x : Except DatabaseError α) :
    Goes c (Select.settle x : Action σ α) fun y calls attempts =>
      y = x ∧ calls = [] ∧ attempts = [] := by
  cases x with
  | ok a => exact pure a
  | error e => exact throw e

/-- What the first action and the second one do, each by its own rule, is put together. -/
theorem bind {f : α → Action σ β}
    {Q : α → Except DatabaseError β → List Exchange → List Attempt → Prop}
    {R : Except DatabaseError β → List Exchange → List Attempt → Prop}
    (ha : Goes c a P) (hf : ∀ x, Goes c (f x) (Q x))
    (herror : ∀ e calls attempts, P (.error e) calls attempts → R (.error e) calls attempts)
    (hok : ∀ x y calls more attempts others, P (.ok x) calls attempts → Q x y more others →
      R y (calls ++ more) (attempts ++ others)) : Goes c (a >>= f) R := by
  intro s
  obtain ⟨calls, attempts, haccount, hP⟩ := ha s
  cases hr : (a.run s).1 with
  | error e =>
      rw [hr] at hP
      refine ⟨calls, attempts, haccount.bind_error hr, ?_⟩
      rw [run_bind_error hr]
      exact herror e calls attempts hP
  | ok x =>
      rw [hr] at hP
      obtain ⟨more, others, hmore, hQ⟩ := hf x (a.run s).2
      refine ⟨calls ++ more, attempts ++ others, haccount.bind_ok hr hmore, ?_⟩
      rw [run_bind_ok hr]
      exact hok x _ calls more attempts others hP hQ

/-- What is computed from the outcome asks nothing and hands nothing in. -/
theorem map (h : Goes c a P) (f : α → β) :
    Goes c (a >>= fun x => Pure.pure (f x)) fun y calls attempts =>
      ∃ x, y = x.map f ∧ P x calls attempts := by
  refine h.bind (fun x => pure (f x)) ?_ ?_
  · intro e calls attempts hP
    exact ⟨.error e, rfl, hP⟩
  · rintro x y calls more attempts others hP ⟨rfl, rfl, rfl⟩
    rw [List.append_nil, List.append_nil]
    exact ⟨.ok x, rfl, hP⟩

theorem attempt (h : Goes c a P) :
    Goes c (Database.attempt a) fun y calls attempts => ∃ x, y = .ok x ∧ P x calls attempts := by
  intro s
  obtain ⟨calls, attempts, haccount, hP⟩ := h s
  exact ⟨calls, attempts, ⟨haccount.client, haccount.log, haccount.sent⟩, _, rfl, hP⟩

/-- A command is an exchange, and no attempt. -/
theorem ask (db : Database σ) (request : Request) (hrequest : request.isStatement = false)
    (call : σ → Except DatabaseError α × σ) {wrap : α → Answer}
    (hcall : ∀ s, db.client.respond s request = ((call s).1.map wrap, (call s).2)) :
    Goes db.client (db.ask call) fun y calls attempts =>
      calls = [⟨request, y.map wrap⟩] ∧ attempts = [] := by
  intro s
  refine ⟨[⟨request, (call s.client).1.map wrap⟩], [], ⟨?_, rfl, ?_⟩, rfl, rfl⟩
  · have hstep := Client.Follows.single db.client s.client request
    rw [hcall] at hstep
    exact hstep
  · simp [hrequest]

end Goes

/-! ## Statements -/

/-- A report writes one entry and hands the result on. -/
theorem run_report (stmt : Statement) (n : Nat) (x : Except DatabaseError α) (s : Session σ) :
    ∃ events, (Database.report stmt n x).run s = (x,
      { s with
        log := s.log.add (stmt.logEntry ((errorOf x).map DatabaseError.message))
        events := events }) := by
  cases x with
  | ok a => exact ⟨_, rfl⟩
  | error e => exact ⟨_, rfl⟩

/-- A numbered statement goes to the client, and the outcome into the log. -/
theorem run_sent (db : Database σ) (stmt : Statement) (n : Nat)
    (call : σ → Except DatabaseError α × σ) (s : Session σ) :
    ∃ events, (Database.attempt (db.ask call) >>= fun x => Database.report stmt n x).run s
      = ((call s.client).1,
        { client := (call s.client).2
          log := s.log.add (stmt.logEntry ((errorOf (call s.client).1).map DatabaseError.message))
          events := events }) := by
  rw [run_bind, Database.run_attempt, Database.run_ask]
  exact run_report stmt n (call s.client).1 _

namespace Goes

theorem perform (db : Database σ) (stmt : Statement) (fetch : Bool)
    {call : String → List Value → σ → Except DatabaseError α × σ}
    (hcall : ∀ (p : NumberedStatement) s, ∃ y,
      db.client.respond s (p.request fetch) = (y, (call p.sql p.values s).2) ∧
        errorOf y = errorOf (call p.sql p.values s).1) :
    Goes db.client (db.perform stmt call) (Tried stmt) := by
  intro s
  unfold Database.perform
  cases hnumber : numberParameters stmt.sql stmt.params with
  | error e =>
      exact ⟨[], [.refused stmt e hnumber], ⟨.nil _, rfl, rfl⟩, _, rfl, rfl, rfl, rfl⟩
  | ok p =>
      obtain ⟨y, hrespond, herror⟩ := hcall p s.client
      have hfollows : db.client.Follows s.client [⟨p.request fetch, y⟩]
          (call p.sql p.values s.client).2 := by
        have hstep := Client.Follows.single db.client s.client (p.request fetch)
        rwa [hrespond] at hstep
      let a := Attempt.sent stmt p hnumber fetch y
      refine ⟨[⟨p.request fetch, y⟩], [a], ?_⟩
      obtain ⟨events, hrun⟩ := run_sent db stmt p.values.length (call p.sql p.values) s
      refine ⟨⟨?_, ?_, ?_⟩, a, rfl, rfl, rfl, ?_⟩
      · rw [hrun]
        exact hfollows
      · rw [hrun, ← herror]
        rfl
      · simp [a, Attempt.exchange?]
      · rw [hrun]
        exact herror

theorem rows (db : Database σ) (stmt : Statement) :
    Goes db.client (db.rows stmt) (Tried stmt) :=
  perform db stmt true fun _ _ => ⟨_, rfl, errorOf_map _ _⟩

theorem firstRow (db : Database σ) (stmt : Statement) :
    Goes db.client (db.firstRow stmt) (Tried stmt) :=
  perform db stmt true fun _ _ => ⟨_, rfl, (errorOf_map _ _).trans (errorOf_map _ _).symm⟩

theorem execute (db : Database σ) (stmt : Statement) :
    Goes db.client (db.execute stmt) (Tried stmt) :=
  perform db stmt false fun _ _ => ⟨_, rfl, errorOf_map _ _⟩

/-- A statement that is handed in, and something computed from the answer that may fail. -/
theorem single {c : Client σ} {a : Action σ α} {stmt : Statement} (h : Goes c a (Tried stmt))
    {f : α → Action σ β} (read : α → Except DatabaseError β) {Misread : DatabaseError → Prop}
    (hf : ∀ x, f x = Select.settle (read x)) (hread : ∀ x e, read x = .error e → Misread e) :
    Goes c (a >>= f) (OneAttempt (.ok stmt) Misread) := by
  refine h.bind (fun x => (hf x) ▸ settle (read x)) ?_ ?_
  · rintro e calls attempts ⟨a, rfl, rfl, rfl, ha⟩
    exact .failed rfl ha
  · rintro x y calls more attempts others ⟨a, rfl, rfl, rfl, ha⟩ ⟨rfl, rfl, rfl⟩
    rw [List.append_nil, List.append_nil]
    exact .answered rfl ha (hread x)

/-- The same for a statement that may fail to be written. -/
theorem written {c : Client σ} {stmt : Except DatabaseError Statement} {f : Statement → Action σ α}
    {Misread : DatabaseError → Prop}
    (hf : ∀ stmt', stmt = .ok stmt' → Goes c (f stmt') (OneAttempt (.ok stmt') Misread)) :
    Goes c (Select.settle stmt >>= f) (OneAttempt stmt Misread) := by
  cases stmt with
  | error e =>
      refine (throw (c := c) e).mono ?_
      rintro y calls attempts ⟨rfl, rfl, rfl⟩
      exact .unwritten rfl
  | ok stmt' => exact hf stmt' rfl

end Goes

end Action

end SqlBuilder
