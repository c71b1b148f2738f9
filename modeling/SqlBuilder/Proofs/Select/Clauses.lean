import SqlBuilder.Proofs.Database.Operation

/-!
# Clauses

A query is built up clause by clause, and every step writes to one clause.  The part of a query that
belongs to a clause (`Select.part`) moves with the steps of that clause and stands still under all
others, so after any steps it is what the clause's own steps make of it, in their order
(`Select.part_applyAll`).

Hence it does not matter how the steps of different clauses are interleaved: two programs with the
same steps for each clause build the same query, and every operation on it sends the same
(`clauses_are_independent`).
-/

namespace SqlBuilder

variable {σ : Type}

/-- The clauses of a query. -/
inductive Clause where
  | columns
  | distinct
  | joins
  | condition
  | having
  | grouping
  | ordering
  /-- How many rows at most, in either of its forms. -/
  | limit
  | offset
  deriving DecidableEq, Repr

/-- The clause that a step writes to. -/
def SelectStep.clause : SelectStep → Clause
  | .columns _ | .addColumns _ | .expression _ => .columns
  | .distinct => .distinct
  | .joinOn .. => .joins
  | .having .. => .having
  | .groupBy _ => .grouping
  | .orderBy .. => .ordering
  | .limit _ | .limitSkip .. => .limit
  | .offset _ => .offset
  | .condition _ => .condition

/-- The steps that write to a clause, in order. -/
def stepsOf (clause : Clause) (steps : List SelectStep) : List SelectStep :=
  steps.filter (·.clause = clause)

namespace Select

/-! ## The part of a clause -/

/-- The query with one of its clauses and nothing else. -/
def part (q : Select) : Clause → Select
  | .columns => { table := q.table, columns := q.columns }
  | .distinct => { table := q.table, isDistinct := q.isDistinct }
  | .joins => { table := q.table, joins := q.joins }
  | .condition => { table := q.table, condition := q.condition }
  | .having => { table := q.table, having := q.having }
  | .grouping => { table := q.table, grouping := q.grouping }
  | .ordering => { table := q.table, ordering := q.ordering }
  | .limit => { table := q.table, limit := q.limit, limitSkip := q.limitSkip }
  | .offset => { table := q.table, offset := q.offset }

/-- There is nothing in a query but its table and its clauses. -/
theorem ext_part {q r : Select} (h : ∀ clause, q.part clause = r.part clause) : q = r := by
  have hfield : ∀ {α : Type} (field : Select → α) (clause : Clause),
      (∀ q : Select, field (q.part clause) = field q) → field q = field r := by
    intro α field clause hpart
    rw [← hpart q, ← hpart r, h clause]
  have htable := hfield table .columns fun _ => rfl
  have hcolumns := hfield columns .columns fun _ => rfl
  have hdistinct := hfield isDistinct .distinct fun _ => rfl
  have hjoins := hfield joins .joins fun _ => rfl
  have hcondition := hfield condition .condition fun _ => rfl
  have hhaving := hfield having .having fun _ => rfl
  have hgrouping := hfield grouping .grouping fun _ => rfl
  have hordering := hfield ordering .ordering fun _ => rfl
  have hlimit := hfield limit .limit fun _ => rfl
  have hskip := hfield limitSkip .limit fun _ => rfl
  have hoffset := hfield offset .offset fun _ => rfl
  cases q
  cases r
  cases htable; cases hcolumns; cases hdistinct; cases hjoins; cases hcondition; cases hhaving
  cases hgrouping; cases hordering; cases hlimit; cases hskip; cases hoffset
  rfl

/-! ## One step -/

variable {tablePrefix : String}

/-- A step does to its clause what it does to that clause alone, and leaves every other as it is. -/
theorem part_apply (q : Select) (step : SelectStep) (clause : Clause) :
    (q.apply tablePrefix step).part clause
      = if step.clause = clause then (q.part clause).apply tablePrefix step
        else q.part clause := by
  -- what some steps write depends on their arguments, but never on the query
  cases step with
  | orderBy column direction =>
      simp only [apply, sortBy]
      rcases Text.words column with _ | ⟨name, _ | ⟨own, rest⟩⟩ <;> cases clause <;> rfl
  | limit n =>
      simp only [apply, setLimit]
      cases natural? n <;> cases clause <;> rfl
  | limitSkip n m =>
      simp only [apply, setLimitSkip]
      cases natural? n <;> cases clause <;> rfl
  | offset n =>
      simp only [apply, setOffset]
      cases natural? n <;> cases clause <;> rfl
  | _ => cases clause <;> rfl

/-! ## Any steps -/

/-- **The part of a clause is made by the clause's own steps**, in their order. -/
theorem part_applyAll (q : Select) (steps : List SelectStep) (clause : Clause) :
    (q.applyAll tablePrefix steps).part clause
      = (q.part clause).applyAll tablePrefix (stepsOf clause steps) := by
  induction steps generalizing q with
  | nil => rfl
  | cons step steps ih =>
      show ((q.apply tablePrefix step).applyAll tablePrefix steps).part clause = _
      rw [ih, part_apply]
      by_cases h : step.clause = clause
      · rw [if_pos h, stepsOf, stepsOf, List.filter_cons_of_pos (by simpa using h)]
        rfl
      · rw [if_neg h, stepsOf, stepsOf, List.filter_cons_of_neg (by simpa using h)]

/-- A query on a table has nothing in any clause, so a clause's steps alone make that clause. -/
theorem part_build (db : Database σ) (name : String) (steps : List SelectStep) (clause : Clause) :
    (db.build name steps).part clause = db.build name (stepsOf clause steps) := by
  have htable : (db.table name).part clause = db.table name := by cases clause <;> rfl
  rw [Database.build, part_applyAll, htable]
  rfl

end Select

/-! ## The theorem -/

/-- **Steps on different clauses are independent.**  Each clause of a query is what the clause's own
steps make of it, in their order.  So two programs on one table that have the same steps for each
clause build the same query, however the steps of different clauses are interleaved: it is written
alike, binds the same values, and every operation that ends it makes the same calls. -/
theorem clauses_are_independent (db : Database σ) (name : String) (steps steps' : List SelectStep)
    (h : ∀ clause, stepsOf clause steps = stepsOf clause steps') :
    let q := db.build name steps
    let q' := db.build name steps'
    (∀ clause, q.part clause = db.build name (stepsOf clause steps)) ∧
      q = q' ∧ q.render = q'.render ∧ q.params = q'.params ∧
      ∀ (op : Select → Operation) (s : Session σ),
        callsOf ((op q).run db.recorded) s = callsOf ((op q').run db.recorded) s := by
  intro q q'
  have hpart : ∀ clause, q.part clause = db.build name (stepsOf clause steps) :=
    Select.part_build db name steps
  have hquery : q = q' := by
    refine Select.ext_part fun clause => ?_
    rw [hpart, Select.part_build, h]
  rw [hquery] at hpart ⊢
  exact ⟨hpart, rfl, rfl, rfl, fun _ _ => rfl⟩

/-- Two programs that say the same clause by clause, one of them from the last clause to the first.
Each has two steps for the limit, two for the ordering and two conditions, which stay in order. -/
theorem interleaved_programs_agree :
    let db : Database Unit := ⟨.accepting, {}, fun _ => none⟩
    let published : SelectStep := .condition (.equality .and "published" (.bool true))
    let byAuthor : SelectStep := .condition (.equality .or "author" (.int 1))
    let popular : SelectStep := .having .and "COUNT(*)" ">" (.int 1)
    let steps : List SelectStep :=
      [.columns ["author"], published, byAuthor, .groupBy ["author"], popular,
        .orderBy "author" "asc", .orderBy "author DESC" "asc", .limit 5, .limitSkip 7 2, .offset 3]
    let steps' : List SelectStep :=
      [.offset 3, .limit 5, .orderBy "author" "asc", .limitSkip 7 2, popular, published,
        .orderBy "author DESC" "asc", .groupBy ["author"], byAuthor, .columns ["author"]]
    (∀ clause, stepsOf clause steps = stepsOf clause steps') ∧
      (db.build "posts" steps).render
        = "SELECT author FROM posts WHERE published = :published OR author = :author" ++
          " HAVING COUNT(*) > 1 GROUP BY author ORDER BY author DESC LIMIT 7, 2 OFFSET 3" ∧
      db.build "posts" steps = db.build "posts" steps' := by
  intro db published byAuthor popular steps steps'
  have h : ∀ clause, stepsOf clause steps = stepsOf clause steps' := by
    intro clause
    cases clause <;> rfl
  exact ⟨h, by decide +kernel, (clauses_are_independent db "posts" steps steps' h).2.1⟩

end SqlBuilder
