import SqlBuilder.Database.Write

/-!
# What a client is asked

A client that passes every call on and writes it down with its answer (`Client.recorded`) shows what
an operation sends, in order, whatever the client behind it does.

`Action.Traces a r P` ties an operation `a` on a database to the same operation `r` on the recorded
one: both have the same outcome and leave the same session, and the calls written down meanwhile go
with that outcome as `P` says.  There is one rule for each way operations are put together, so no
later proof opens them.
-/

namespace SqlBuilder

variable {σ α β : Type}

/-! ## Computations that may fail -/

/-- Both succeed. -/
theorem bind_eq_ok {x : Except DatabaseError α} {f : α → Except DatabaseError β} {b : β}
    (h : x >>= f = .ok b) : ∃ a, x = .ok a ∧ f a = .ok b := by
  cases x with
  | error e => cases h
  | ok a => exact ⟨a, rfl, h⟩

/-- One of the two fails. -/
theorem bind_eq_error {x : Except DatabaseError α} {f : α → Except DatabaseError β}
    {e : DatabaseError} (h : x >>= f = .error e) : x = .error e ∨ ∃ a, x = .ok a ∧ f a = .error e := by
  cases x with
  | error e' =>
      cases h
      exact .inl rfl
  | ok a => exact .inr ⟨a, rfl, h⟩

/-! ## Recorded clients -/

/-- A call to a client. -/
inductive Request where
  | query (sql : String) (values : List Value)
  | execute (sql : String) (values : List Value)
  | script (sql : String)
  | begin
  | commit
  | rollback

/-- What a client returns. -/
inductive Answer where
  | rows (rows : List Row)
  | affected (count : Nat)
  | done
  deriving DecidableEq

/-- A call with its answer. -/
structure Exchange where
  request : Request
  answer : Except DatabaseError Answer

/-- The state of a client beside the calls so far, oldest first. -/
abbrev Recorded (σ : Type) := σ × List Exchange

/-- Passes a call on and writes it down. -/
def Client.noted (request : Request) (wrap : α → Answer)
    (call : σ → Except DatabaseError α × σ) (s : Recorded σ) :
    Except DatabaseError α × Recorded σ :=
  let (result, client) := call s.1
  (result, client, s.2 ++ [⟨request, result.map wrap⟩])

/-- The client that writes down what it is asked. -/
def Client.recorded (c : Client σ) : Client (Recorded σ) where
  query sql values := noted (.query sql values) .rows (c.query sql values)
  execute sql values := noted (.execute sql values) .affected (c.execute sql values)
  script sql := noted (.script sql) (fun _ => .done) (c.script sql)
  begin := noted .begin (fun _ => .done) c.begin
  commit := noted .commit (fun _ => .done) c.commit
  rollback := noted .rollback (fun _ => .done) c.rollback

/-- The database with its client recorded. -/
def Database.recorded (db : Database σ) : Database (Recorded σ) where
  client := db.client.recorded
  settings := db.settings
  ended s := db.ended s.1

/-- The session with a record that is still empty. -/
def Session.recorded (s : Session σ) : Session (Recorded σ) :=
  { client := (s.client, []), log := s.log, events := s.events }

/-- The session without the record. -/
def Session.plain (s : Session (Recorded σ)) : Session σ :=
  { client := s.client.1, log := s.log, events := s.events }

/-- A client that accepts everything and has no rows. -/
def Client.accepting : Client Unit where
  query _ _ s := (.ok [], s)
  execute _ _ s := (.ok 1, s)
  script _ s := (.ok (), s)
  begin s := (.ok (), s)
  commit s := (.ok (), s)
  rollback s := (.ok (), s)

/-- The calls of an operation in a session. -/
def callsOf (r : Action (Recorded σ) α) (s : Session σ) : List Exchange :=
  (r.run s.recorded).2.client.2

/-! ## Rules -/

namespace Action

theorem run_bind_ok {a : Action σ α} {f : α → Action σ β} {s : Session σ} {x : α}
    (h : (a.run s).1 = .ok x) : (a >>= f).run s = (f x).run (a.run s).2 := by
  have hpair : a.run s = (.ok x, (a.run s).2) := Prod.ext h rfl
  rw [run_bind, hpair]

theorem run_bind_error {a : Action σ α} {f : α → Action σ β} {s : Session σ} {e : DatabaseError}
    (h : (a.run s).1 = .error e) : (a >>= f).run s = (.error e, (a.run s).2) := by
  have hpair : a.run s = (.error e, (a.run s).2) := Prod.ext h rfl
  rw [run_bind, hpair]

/-- The recorded operation does what the other one does, and outcome and calls are as `P` says. -/
def Traces (a : Action σ α) (r : Action (Recorded σ) α)
    (P : Except DatabaseError α → List Exchange → Prop) : Prop :=
  ∀ s : Session (Recorded σ),
    (r.run s).1 = (a.run s.plain).1 ∧ (r.run s).2.plain = (a.run s.plain).2 ∧
      ∃ calls, (r.run s).2.client.2 = s.client.2 ++ calls ∧ P (r.run s).1 calls

namespace Traces

/-- What the operation sends in a session whose record is still empty. -/
theorem calls {a : Action σ α} {r : Action (Recorded σ) α}
    {P : Except DatabaseError α → List Exchange → Prop} (h : Traces a r P) (s : Session σ) :
    P (r.run s.recorded).1 (callsOf r s) := by
  obtain ⟨-, -, calls, hcalls, hP⟩ := h s.recorded
  have hrecord : callsOf r s = calls := hcalls
  rwa [hrecord]

theorem mono {a : Action σ α} {r : Action (Recorded σ) α}
    {P Q : Except DatabaseError α → List Exchange → Prop} (h : Traces a r P)
    (hPQ : ∀ x calls, P x calls → Q x calls) : Traces a r Q := by
  intro s
  obtain ⟨hresult, hplain, calls, hcalls, hP⟩ := h s
  exact ⟨hresult, hplain, calls, hcalls, hPQ _ _ hP⟩

theorem pure (x : α) :
    Traces (Pure.pure x : Action σ α) (Pure.pure x) fun y calls => y = .ok x ∧ calls = [] :=
  fun _ => ⟨rfl, rfl, [], (List.append_nil _).symm, rfl, rfl⟩

theorem throw (e : DatabaseError) :
    Traces (MonadExcept.throw e : Action σ α) (MonadExcept.throw e) fun y calls =>
      y = .error e ∧ calls = [] :=
  fun _ => ⟨rfl, rfl, [], (List.append_nil _).symm, rfl, rfl⟩

/-- What the first operation and the second one do, each by its own rule, is put together. -/
theorem bind {a : Action σ α} {r : Action (Recorded σ) α} {f : α → Action σ β}
    {g : α → Action (Recorded σ) β} {P : Except DatabaseError α → List Exchange → Prop}
    {Q : α → Except DatabaseError β → List Exchange → Prop}
    {R : Except DatabaseError β → List Exchange → Prop}
    (ha : Traces a r P) (hf : ∀ x, Traces (f x) (g x) (Q x))
    (herror : ∀ e calls, P (.error e) calls → R (.error e) calls)
    (hok : ∀ x y before after, P (.ok x) before → Q x y after → R y (before ++ after)) :
    Traces (a >>= f) (r >>= g) R := by
  intro s
  obtain ⟨hresult, hplain, before, hbefore, hP⟩ := ha s
  cases hr : (r.run s).1 with
  | error e =>
      rw [hr] at hresult hP
      rw [run_bind_error hr, run_bind_error hresult.symm]
      exact ⟨rfl, hplain, before, hbefore, herror e before hP⟩
  | ok x =>
      rw [hr] at hresult hP
      rw [run_bind_ok hr, run_bind_ok hresult.symm]
      -- the second operation starts where the first one left both sessions
      obtain ⟨hresult', hplain', after, hafter, hQ⟩ := hf x (r.run s).2
      rw [hplain] at hresult' hplain'
      refine ⟨hresult', hplain', before ++ after, ?_, hok x _ before after hP hQ⟩
      rw [hafter, hbefore, List.append_assoc]

/-- What is computed from the outcome changes no call. -/
theorem map {a : Action σ α} {r : Action (Recorded σ) α}
    {P : Except DatabaseError α → List Exchange → Prop} (h : Traces a r P) (f : α → β) :
    Traces (a >>= fun x => Pure.pure (f x)) (r >>= fun x => Pure.pure (f x)) fun y calls =>
      ∃ x, y = x.map f ∧ P x calls := by
  refine h.bind (fun x => pure (f x)) ?_ ?_
  · intro e calls hP
    exact ⟨.error e, rfl, hP⟩
  · rintro x y before after hP ⟨rfl, rfl⟩
    rw [List.append_nil]
    exact ⟨.ok x, rfl, hP⟩

theorem attempt {a : Action σ α} {r : Action (Recorded σ) α}
    {P : Except DatabaseError α → List Exchange → Prop} (h : Traces a r P) :
    Traces (Database.attempt a) (Database.attempt r) fun y calls => ∃ x, y = .ok x ∧ P x calls := by
  intro s
  obtain ⟨hresult, hplain, calls, hcalls, hP⟩ := h s
  rw [Database.run_attempt, Database.run_attempt]
  exact ⟨congrArg Except.ok hresult, hplain, calls, hcalls, _, rfl, hP⟩

theorem emit (e : Event) :
    Traces (Database.emit e : Action σ Unit) (Database.emit e) fun y calls =>
      y = .ok () ∧ calls = [] :=
  fun _ => ⟨rfl, rfl, [], (List.append_nil _).symm, rfl, rfl⟩

theorem logOutcome (stmt : Statement) (error : Option String) :
    Traces (Database.logOutcome stmt error : Action σ Unit) (Database.logOutcome stmt error)
      fun y calls => y = .ok () ∧ calls = [] :=
  fun _ => ⟨rfl, rfl, [], (List.append_nil _).symm, rfl, rfl⟩

theorem settle (x : Except DatabaseError α) :
    Traces (Select.settle x : Action σ α) (Select.settle x) fun y calls => y = x ∧ calls = [] := by
  cases x with
  | ok a => exact pure a
  | error e => exact throw e

/-- A call is written down with what the client answers. -/
theorem ask (db : Database σ) (request : Request) (wrap : α → Answer)
    (call : σ → Except DatabaseError α × σ) :
    Traces (db.ask call) (db.recorded.ask (Client.noted request wrap call)) fun y calls =>
      calls = [⟨request, y.map wrap⟩] :=
  fun _ => ⟨rfl, rfl, [_], rfl, rfl⟩

/-! ## Statements -/

theorem report (stmt : Statement) (paramCount : Nat) (x : Except DatabaseError α) :
    Traces (Database.report stmt paramCount x : Action σ α) (Database.report stmt paramCount x)
      fun y calls => y = x ∧ calls = [] := by
  cases x with
  | ok a => exact fun _ => ⟨rfl, rfl, [], (List.append_nil _).symm, rfl, rfl⟩
  | error e => exact fun _ => ⟨rfl, rfl, [], (List.append_nil _).symm, rfl, rfl⟩

/-- A statement is refused without a call, or its numbered form is handed to the client. -/
theorem perform (db : Database σ) (stmt : Statement)
    {call : String → List Value → σ → Except DatabaseError α × σ}
    {note : String → List Value → Recorded σ → Except DatabaseError α × Recorded σ}
    {P : NumberedStatement → Except DatabaseError α → List Exchange → Prop}
    (hcall : ∀ p, Traces (db.ask (call p.sql p.values))
      (db.recorded.ask (note p.sql p.values)) (P p)) :
    Traces (db.perform stmt call) (db.recorded.perform stmt note) fun y calls =>
      (∃ e, numberParameters stmt.sql stmt.params = .error e ∧ y = .error e ∧ calls = []) ∨
        ∃ p, numberParameters stmt.sql stmt.params = .ok p ∧ P p y calls := by
  unfold Database.perform
  cases hnumber : numberParameters stmt.sql stmt.params with
  | error e =>
      -- a refusal is logged, and the client is not asked
      refine (logOutcome stmt (some e.message)).bind (fun _ => throw e) ?_ ?_
      · rintro e' calls ⟨h, -⟩
        exact nomatch h
      · rintro _ y before after ⟨-, rfl⟩ ⟨rfl, rfl⟩
        exact .inl ⟨e, rfl, rfl, rfl⟩
  | ok p =>
      refine (hcall p).attempt.bind (fun x => report stmt p.values.length x) ?_ ?_
      · rintro e calls ⟨x, h, -⟩
        exact nomatch h
      · rintro x y before after ⟨x', hx, hP⟩ ⟨rfl, rfl⟩
        cases hx
        rw [List.append_nil]
        exact .inr ⟨p, rfl, hP⟩

theorem rows (db : Database σ) (stmt : Statement) :
    Traces (db.rows stmt) (db.recorded.rows stmt) fun y calls =>
      (∃ e, numberParameters stmt.sql stmt.params = .error e ∧ y = .error e ∧ calls = []) ∨
        ∃ p, numberParameters stmt.sql stmt.params = .ok p ∧
          calls = [⟨.query p.sql p.values, y.map .rows⟩] :=
  perform db stmt fun p => ask db (.query p.sql p.values) .rows (db.client.query p.sql p.values)

theorem execute (db : Database σ) (stmt : Statement) :
    Traces (db.execute stmt) (db.recorded.execute stmt) fun y calls =>
      (∃ e, numberParameters stmt.sql stmt.params = .error e ∧ y = .error e ∧ calls = []) ∨
        ∃ p, numberParameters stmt.sql stmt.params = .ok p ∧
          calls = [⟨.execute p.sql p.values, y.map .affected⟩] :=
  perform db stmt fun p =>
    ask db (.execute p.sql p.values) .affected (db.client.execute p.sql p.values)

/-- The first row is that of all the rows that the client returns. -/
theorem firstRow (db : Database σ) (stmt : Statement) :
    Traces (db.firstRow stmt) (db.recorded.firstRow stmt) fun y calls =>
      (∃ e, numberParameters stmt.sql stmt.params = .error e ∧ y = .error e ∧ calls = []) ∨
        ∃ p, numberParameters stmt.sql stmt.params = .ok p ∧
          ∃ rows : Except DatabaseError (List Row), y = rows.map List.head? ∧
            calls = [⟨.query p.sql p.values, rows.map .rows⟩] :=
  perform db stmt fun _ _ => ⟨rfl, rfl, [_], rfl, _, rfl, rfl⟩

end Traces

end Action

end SqlBuilder
