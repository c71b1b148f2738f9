import Mathlib.Data.List.Forall2
import SqlBuilder.Proofs.Database.Trace
import SqlBuilder.Proofs.SortedMap

/-!
# Two runs of one operation

Two runs that differ only in bound values are told apart by nothing that a client is sent but those
values.  `InStep` compares what two clients were asked, as long as they answered alike: the requests
are the same but for their values, and if all answers were the same, so are the outcomes.

`Action.Alike r r'` says this of two recorded operations, each run in any session of its own.  There
is one rule for each way operations are put together, and none of them looks into a value.
-/

namespace SqlBuilder

variable {σ τ ι κ α β : Type}

/-! ## Requests without their values -/

/-- The request with `NULL` for every value. -/
def Request.masked : Request → Request
  | .query sql values => .query sql (values.map fun _ => .null)
  | .execute sql values => .execute sql (values.map fun _ => .null)
  | request => request

theorem masked_query {sql : String} {values values' : List Value}
    (h : values.length = values'.length) :
    (Request.query sql values).masked = (Request.query sql values').masked := by
  simp only [Request.masked, List.map_const', h]

theorem masked_execute {sql : String} {values values' : List Value}
    (h : values.length = values'.length) :
    (Request.execute sql values).masked = (Request.execute sql values').masked := by
  simp only [Request.masked, List.map_const', h]

/-- The calls of two runs, as long as the answers are the same: the requests are the same but for
their values, and `P` holds if no answer differs to the end. -/
inductive InStep (P : Prop) : List Exchange → List Exchange → Prop
  | nil : P → InStep P [] []
  | cons {x y : Exchange} {xs ys : List Exchange} :
    x.request.masked = y.request.masked → x.answer = y.answer → InStep P xs ys →
      InStep P (x :: xs) (y :: ys)
  /-- Behind answers that differ, the runs have nothing to do with each other. -/
  | parted {x y : Exchange} {xs ys : List Exchange} :
    x.request.masked = y.request.masked → x.answer ≠ y.answer → InStep P (x :: xs) (y :: ys)

namespace InStep

variable {P Q : Prop} {xs ys us vs : List Exchange}

theorem append (h : InStep P xs ys) (hmore : P → InStep Q us vs) :
    InStep Q (xs ++ us) (ys ++ vs) := by
  induction h with
  | nil hP => exact hmore hP
  | cons hrequest hanswer _ ih => exact .cons hrequest hanswer ih
  | parted hrequest hanswer => exact .parted hrequest hanswer

theorem mono (h : InStep P xs ys) (hPQ : P → Q) : InStep Q xs ys := by
  have hmore := h.append (Q := Q) fun hP => .nil (hPQ hP)
  rwa [List.append_nil, List.append_nil] at hmore

/-- After any number of answers that are the same, the next request is the same too. -/
theorem requests_eq (h : InStep P xs ys) {n : Nat}
    (hanswers : (xs.take n).map (·.answer) = (ys.take n).map (·.answer)) :
    (xs.take (n + 1)).map (·.request.masked) = (ys.take (n + 1)).map (·.request.masked) := by
  induction h generalizing n with
  | nil => rfl
  | cons hrequest _ _ ih =>
      cases n with
      | zero => simpa using hrequest
      | succ n =>
          rw [List.take_succ_cons, List.take_succ_cons, List.map_cons, List.map_cons] at hanswers ⊢
          rw [hrequest, ih (List.cons.inj hanswers).2]
  | parted hrequest hanswer =>
      cases n with
      | zero => simpa using hrequest
      | succ n =>
          rw [List.take_succ_cons, List.take_succ_cons, List.map_cons, List.map_cons] at hanswers
          exact absurd (List.cons.inj hanswers).1 hanswer

/-- If all answers are the same, so are all requests. -/
theorem all_requests_eq (h : InStep P xs ys) (hanswers : xs.map (·.answer) = ys.map (·.answer)) :
    xs.map (·.request.masked) = ys.map (·.request.masked) := by
  have hlength : xs.length = ys.length := by simpa using congrArg List.length hanswers
  have htake : (xs.take xs.length).map (·.answer) = (ys.take xs.length).map (·.answer) := by
    rw [List.take_length, hlength, List.take_length, hanswers]
  have hrequests := h.requests_eq htake
  rwa [List.take_of_length_le (Nat.le_succ _), List.take_of_length_le (by omega)] at hrequests

end InStep

/-! ## Outcomes -/

/-- Both results are there and correspond, or both are missing for one reason. -/
inductive SameOutcome (R : ι → κ → Prop) :
    Except DatabaseError ι → Except DatabaseError κ → Prop
  | ok {a : ι} {b : κ} : R a b → SameOutcome R (.ok a) (.ok b)
  | error (e : DatabaseError) : SameOutcome R (.error e) (.error e)

namespace SameOutcome

variable {R : ι → κ → Prop} {x : Except DatabaseError ι} {x' : Except DatabaseError κ}

theorem map {S : α → β → Prop} (h : SameOutcome R x x') {f : ι → α} {f' : κ → β}
    (hf : ∀ a a', R a a' → S (f a) (f' a')) : SameOutcome S (x.map f) (x'.map f') := by
  cases h with
  | ok h => exact .ok (hf _ _ h)
  | error e => exact .error e

theorem bind {S : α → β → Prop} (h : SameOutcome R x x') {f : ι → Except DatabaseError α}
    {f' : κ → Except DatabaseError β} (hf : ∀ a a', R a a' → SameOutcome S (f a) (f' a')) :
    SameOutcome S (x >>= f) (x' >>= f') := by
  cases h with
  | ok h => exact hf _ _ h
  | error e => exact .error e

end SameOutcome

/-! ## Names that are bound -/

/-- The same names are bound, whatever they are bound to. -/
def Bindings.SameNames (params params' : Bindings) : Prop :=
  ∀ name, params.contains name = params'.contains name

theorem valuesOf_sameNames {params params' : Bindings} (h : params.SameNames params')
    (names : List String) :
    (∃ name, Placeholder.valuesOf params names = .error name ∧
        Placeholder.valuesOf params' names = .error name) ∨
      ∃ values values', Placeholder.valuesOf params names = .ok values ∧
        Placeholder.valuesOf params' names = .ok values' ∧ values.length = values'.length := by
  induction names with
  | nil => exact .inr ⟨[], [], rfl, rfl, rfl⟩
  | cons name names ih =>
      have hname := h name
      unfold SortedMap.contains at hname
      unfold Placeholder.valuesOf
      cases hv : params.get? name <;> cases hv' : params'.get? name <;> rw [hv, hv'] at hname
      · exact .inl ⟨name, rfl, rfl⟩
      · exact nomatch hname
      · exact nomatch hname
      · rcases ih with
          ⟨missing, hmissing, hmissing'⟩ | ⟨values, values', hvalues, hvalues', hlength⟩
        · rw [hmissing, hmissing']
          exact .inl ⟨missing, rfl, rfl⟩
        · rw [hvalues, hvalues']
          exact .inr ⟨_, _, rfl, rfl, congrArg (· + 1) hlength⟩

/-- What a template is numbered as depends on the names that are bound, not on their values. -/
theorem numberParameters_sameOutcome (template : String) {params params' : Bindings}
    (h : params.SameNames params') :
    SameOutcome (fun p p' => p.sql = p'.sql ∧ p.values.length = p'.values.length)
      (numberParameters template params) (numberParameters template params') := by
  unfold numberParameters
  rcases valuesOf_sameNames h (Placeholder.numbered [] (Placeholder.pieces template)).2 with
    ⟨name, hname, hname'⟩ | ⟨values, values', hvalues, hvalues', hlength⟩
  · simp only [hname, hname']
    exact .error _
  · simp only [hvalues, hvalues']
    exact .ok ⟨rfl, hlength⟩

/-- The statements have one text and bind the same names. -/
structure Statement.Alike (stmt stmt' : Statement) : Prop where
  sql : stmt.sql = stmt'.sql
  names : stmt.params.SameNames stmt'.params

/-! ## Operations -/

namespace Action

/-- Whatever two clients the operations are run on, as long as these answer alike they are asked
alike, and in the end the outcomes are the same. -/
def Alike (r : Action (Recorded σ) α) (r' : Action (Recorded τ) α) : Prop :=
  ∀ s s', ∃ calls calls', (r.run s).2.client.2 = s.client.2 ++ calls ∧
    (r'.run s').2.client.2 = s'.client.2 ++ calls' ∧
    InStep ((r.run s).1 = (r'.run s').1) calls calls'

/-- An operation goes on behind the outcome of the one before it. -/
theorem run_bind_settle (a : Action σ α) (f : α → Action σ β) (s : Session σ) :
    (a >>= f).run s = (Select.settle (a.run s).1 >>= f).run (a.run s).2 := by
  cases h : (a.run s).1 with
  | ok x => exact run_bind_ok h
  | error e => exact run_bind_error h

namespace Alike

variable {r : Action (Recorded σ) α} {r' : Action (Recorded τ) α}

/-- Operations that ask nothing and have one outcome. -/
theorem of_silent (hr : ∀ s, (r.run s).2.client.2 = s.client.2)
    (hr' : ∀ s, (r'.run s).2.client.2 = s.client.2) (h : ∀ s s', (r.run s).1 = (r'.run s').1) :
    Alike r r' := by
  intro s s'
  refine ⟨[], [], ?_, ?_, .nil (h s s')⟩
  · rw [List.append_nil, hr]
  · rw [List.append_nil, hr']

theorem pure (x : α) :
    Alike (Pure.pure x : Action (Recorded σ) α) (Pure.pure x : Action (Recorded τ) α) :=
  of_silent (fun _ => rfl) (fun _ => rfl) fun _ _ => rfl

theorem throw (e : DatabaseError) :
    Alike (MonadExcept.throw e : Action (Recorded σ) α)
      (MonadExcept.throw e : Action (Recorded τ) α) :=
  of_silent (fun _ => rfl) (fun _ => rfl) fun _ _ => rfl

theorem emit (e e' : Event) :
    Alike (Database.emit e : Action (Recorded σ) Unit)
      (Database.emit e' : Action (Recorded τ) Unit) :=
  of_silent (fun _ => rfl) (fun _ => rfl) fun _ _ => rfl

theorem logOutcome (stmt stmt' : Statement) (error error' : Option String) :
    Alike (Database.logOutcome stmt error : Action (Recorded σ) Unit)
      (Database.logOutcome stmt' error' : Action (Recorded τ) Unit) :=
  of_silent (fun _ => rfl) (fun _ => rfl) fun _ _ => rfl

/-- What comes behind outcomes: each run goes on by itself, and if the outcomes are the same the
runs go on alike. -/
theorem behind {f : α → Action (Recorded σ) β} {f' : α → Action (Recorded τ) β}
    (hf : ∀ x, Alike (f x) (f' x)) (y y' : Except DatabaseError α) (s : Session (Recorded σ))
    (s' : Session (Recorded τ)) :
    ∃ calls calls', ((Select.settle y >>= f).run s).2.client.2 = s.client.2 ++ calls ∧
      ((Select.settle y' >>= f').run s').2.client.2 = s'.client.2 ++ calls' ∧
      (y = y' → InStep (((Select.settle y >>= f).run s).1 = ((Select.settle y' >>= f').run s').1)
        calls calls') := by
  cases y with
  | error e =>
      cases y' with
      | error e' =>
          refine ⟨[], [], (List.append_nil _).symm, (List.append_nil _).symm, fun h => ?_⟩
          exact .nil (congrArg Except.error (Except.error.inj h))
      | ok x' =>
          obtain ⟨-, calls', -, hcalls', -⟩ := hf x' s s'
          exact ⟨[], calls', (List.append_nil _).symm, hcalls', fun h => nomatch h⟩
  | ok x =>
      obtain ⟨calls, calls', hcalls, hcalls', hstep⟩ := hf x s s'
      cases y' with
      | error e' => exact ⟨calls, [], hcalls, (List.append_nil _).symm, fun h => nomatch h⟩
      | ok x' =>
          by_cases hx : x = x'
          · subst hx
            exact ⟨calls, calls', hcalls, hcalls', fun _ => hstep⟩
          · obtain ⟨-, calls', -, hcalls', -⟩ := hf x' s s'
            exact ⟨calls, calls', hcalls, hcalls', fun h => absurd (Except.ok.inj h) hx⟩

theorem bind {f : α → Action (Recorded σ) β} {f' : α → Action (Recorded τ) β} (h : Alike r r')
    (hf : ∀ x, Alike (f x) (f' x)) : Alike (r >>= f) (r' >>= f') := by
  intro s s'
  obtain ⟨first, first', hfirst, hfirst', hstep⟩ := h s s'
  obtain ⟨rest, rest', hrest, hrest', hbehind⟩ :=
    behind hf (r.run s).1 (r'.run s').1 (r.run s).2 (r'.run s').2
  rw [run_bind_settle r f s, run_bind_settle r' f' s']
  refine ⟨first ++ rest, first' ++ rest', ?_, ?_, hstep.append hbehind⟩
  · rw [hrest, hfirst, List.append_assoc]
  · rw [hrest', hfirst', List.append_assoc]

theorem attempt (h : Alike r r') : Alike (Database.attempt r) (Database.attempt r') := by
  intro s s'
  obtain ⟨calls, calls', hcalls, hcalls', hstep⟩ := h s s'
  exact ⟨calls, calls', hcalls, hcalls', hstep.mono (congrArg Except.ok)⟩

/-- A result that was computed before, which the two runs may know in two forms. -/
theorem settle {x : Except DatabaseError ι} {x' : Except DatabaseError κ} {R : ι → κ → Prop}
    (hx : SameOutcome R x x') {f : ι → Action (Recorded σ) α} {f' : κ → Action (Recorded τ) α}
    (hf : ∀ a a', R a a' → Alike (f a) (f' a')) :
    Alike (Select.settle x >>= f) (Select.settle x' >>= f') := by
  cases hx with
  | ok h => exact hf _ _ h
  | error e => exact throw e

theorem settled (x : Except DatabaseError α) :
    Alike (Select.settle x : Action (Recorded σ) α) (Select.settle x : Action (Recorded τ) α) := by
  cases x with
  | ok a => exact pure a
  | error e => exact throw e

/-- A call is answered alike or not; if it is, both runs get the same result. -/
theorem ask (db : Database σ) (db' : Database τ) {request request' : Request} {wrap : α → Answer}
    (hrequest : request.masked = request'.masked) (hwrap : ∀ a b, wrap a = wrap b → a = b)
    (call : σ → Except DatabaseError α × σ) (call' : τ → Except DatabaseError α × τ) :
    Alike (db.recorded.ask (Client.noted request wrap call))
      (db'.recorded.ask (Client.noted request' wrap call')) := by
  intro s s'
  refine ⟨[_], [_], rfl, rfl, ?_⟩
  by_cases hanswer : (call s.client.1).1.map wrap = (call' s'.client.1).1.map wrap
  · refine .cons hrequest hanswer (.nil ?_)
    show (call s.client.1).1 = (call' s'.client.1).1
    cases hx : (call s.client.1).1 <;> cases hx' : (call' s'.client.1).1 <;> rw [hx, hx'] at hanswer
    · exact congrArg Except.error (Except.error.inj hanswer)
    · exact nomatch hanswer
    · exact nomatch hanswer
    · exact congrArg Except.ok (hwrap _ _ (Except.ok.inj hanswer))
  · exact .parted hrequest hanswer

/-! ## Statements -/

theorem report (stmt stmt' : Statement) (n n' : Nat) (x : Except DatabaseError α) :
    Alike (Database.report stmt n x : Action (Recorded σ) α)
      (Database.report stmt' n' x : Action (Recorded τ) α) := by
  cases x with
  | ok a => exact of_silent (fun _ => rfl) (fun _ => rfl) fun _ _ => rfl
  | error e => exact of_silent (fun _ => rfl) (fun _ => rfl) fun _ _ => rfl

variable {stmt stmt' : Statement}

theorem perform (db : Database σ) (db' : Database τ) (h : stmt.Alike stmt')
    {call : String → List Value → Recorded σ → Except DatabaseError α × Recorded σ}
    {call' : String → List Value → Recorded τ → Except DatabaseError α × Recorded τ}
    (hcall : ∀ sql values values', values.length = values'.length →
      Alike (db.recorded.ask (call sql values)) (db'.recorded.ask (call' sql values'))) :
    Alike (db.recorded.perform stmt call) (db'.recorded.perform stmt' call') := by
  unfold Database.perform
  rw [← h.sql]
  have hnumber := numberParameters_sameOutcome stmt.sql h.names
  revert hnumber
  cases numberParameters stmt.sql stmt.params <;>
    cases numberParameters stmt.sql stmt'.params <;> intro hnumber <;> cases hnumber
  · exact (logOutcome _ _ _ _).bind fun _ => throw _
  · next p p' hp =>
    obtain ⟨hsql, hvalues⟩ := hp
    refine Alike.bind ?_ fun x => report _ _ _ _ x
    rw [hsql]
    exact (hcall _ _ _ hvalues).attempt

theorem rows (db : Database σ) (db' : Database τ) (h : stmt.Alike stmt') :
    Alike (db.recorded.rows stmt) (db'.recorded.rows stmt') :=
  perform db db' h fun _ _ _ hvalues =>
    ask db db' (masked_query hvalues) (fun _ _ => Answer.rows.inj) _ _

theorem execute (db : Database σ) (db' : Database τ) (h : stmt.Alike stmt') :
    Alike (db.recorded.execute stmt) (db'.recorded.execute stmt') :=
  perform db db' h fun _ _ _ hvalues =>
    ask db db' (masked_execute hvalues) (fun _ _ => Answer.affected.inj) _ _

/-- The first row is read off the same rows. -/
theorem firstRow (db : Database σ) (db' : Database τ) (h : stmt.Alike stmt') :
    Alike (db.recorded.firstRow stmt) (db'.recorded.firstRow stmt') := by
  refine perform db db' h fun sql values values' hvalues s s' => ?_
  obtain ⟨calls, calls', hcalls, hcalls', hstep⟩ :=
    ask db db' (masked_query hvalues) (fun _ _ => Answer.rows.inj) (db.client.query sql values)
      (db'.client.query sql values') s s'
  exact ⟨calls, calls', hcalls, hcalls', hstep.mono (congrArg (Except.map List.head?))⟩

/-! ## Units of work -/

theorem openBatch (db : Database σ) (db' : Database τ) :
    Alike db.recorded.openBatch db'.recorded.openBatch :=
  (emit _ _).bind fun _ => ask db db' rfl (fun _ _ _ => rfl) _ _

theorem dropBatch (db : Database σ) (db' : Database τ) (completed : Nat) (cause : DatabaseError) :
    Alike (db.recorded.dropBatch completed cause : Action (Recorded σ) α)
      (db'.recorded.dropBatch completed cause) := by
  refine (ask db db' rfl (fun _ _ _ => rfl) _ _).attempt.bind fun x => ?_
  cases x with
  | ok a => exact throw _
  | error e => exact (emit _ _).bind fun _ => throw _

theorem keepBatch (db : Database σ) (db' : Database τ) (completed : Nat) :
    Alike (db.recorded.keepBatch completed) (db'.recorded.keepBatch completed) := by
  refine (ask db db' rfl (fun _ _ _ => rfl) _ _).attempt.bind fun x => ?_
  cases x with
  | ok a => exact emit _ _
  | error e => exact dropBatch db db' completed e

/-- Induction on the items: the first one fails in both runs, or both go on with the others. -/
theorem batchItems (db : Database σ) (db' : Database τ) {work : ι → Action (Recorded σ) α}
    {work' : κ → Action (Recorded τ) α} {T : ι → κ → Prop} {items : List ι} {items' : List κ}
    (hwork : ∀ item item', T item item' → Alike (work item) (work' item'))
    (hitems : List.Forall₂ T items items') (completed : Nat) :
    Alike (db.recorded.batchItems work completed items)
      (db'.recorded.batchItems work' completed items') := by
  induction hitems generalizing completed with
  | nil => exact pure []
  | cons hitem _ ih =>
      refine (hwork _ _ hitem).attempt.bind fun x => ?_
      cases x with
      | ok a => exact (ih (completed + 1)).bind fun results => pure (a :: results)
      | error e => exact dropBatch db db' completed e

theorem batch (db : Database σ) (db' : Database τ) {work : ι → Action (Recorded σ) α}
    {work' : κ → Action (Recorded τ) α} {T : ι → κ → Prop} {items : List ι} {items' : List κ}
    (hwork : ∀ item item', T item item' → Alike (work item) (work' item'))
    (hitems : List.Forall₂ T items items') :
    Alike (db.recorded.batch work items) (db'.recorded.batch work' items') := by
  unfold Database.batch
  rw [← hitems.length_eq]
  refine (openBatch db db').bind fun _ => (batchItems db db' hwork hitems 0).bind fun results => ?_
  exact (keepBatch db db' items.length).bind fun _ => pure results

end Alike

end Action

end SqlBuilder
