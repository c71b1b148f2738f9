import SqlBuilder.Proofs.Select.Clauses

/-!
# Limits

A query may be limited again and again, in two forms that share what they write to, and told how
many rows to skip apart from that.  What it is limited to in the end is told by the last step with a
number of rows that is not negative, whatever came before (`Limits`): a later limit takes the
numbers of an earlier one away, both of them, and a negative number takes nothing away.

Hence the numbers in the query are the very numbers of that step, and the clause shows them all:
there is never a number to skip without a number of rows (`limits_are_those_last_set`).
-/

namespace SqlBuilder

variable {σ : Type}

/-- What a step limits the query to, if it limits it: the number of rows, and the number of rows to
skip, which is none in the short form. -/
def SelectStep.limit? : SelectStep → Option (Int × Int)
  | .limit n => if 0 ≤ n then some (n, 0) else none
  | .limitSkip n m => if 0 ≤ n then some (n, m) else none
  | _ => none

/-- The offset that a step sets, if it sets it. -/
def SelectStep.offset? : SelectStep → Option Int
  | .offset n => if 0 ≤ n then some n else none
  | _ => none

/-- What is told by the last of the steps that tell something. -/
def lastOf {α : Type} (told : SelectStep → Option α) (steps : List SelectStep) : Option α :=
  (steps.filterMap told).getLast?

/-- The clause for what a query is limited to: the rows to skip are shown if there are any. -/
def limitText : Option (Int × Int) → String
  | some (n, m) =>
    if 0 < m then " LIMIT " ++ toString n ++ ", " ++ toString m else " LIMIT " ++ toString n
  | none => ""

/-- The clause for the offset. -/
def offsetText : Option Int → String
  | some n => " OFFSET " ++ toString n
  | none => ""

theorem lastOf_cons {α : Type} (told : SelectStep → Option α) (step : SelectStep)
    (steps : List SelectStep) :
    lastOf told (step :: steps) = (lastOf told steps).or (told step) := by
  unfold lastOf
  cases htold : told step with
  | none => rw [List.filterMap_cons_none htold, Option.or_none]
  | some a =>
      rw [List.filterMap_cons_some htold, ← List.singleton_append, List.getLast?_append]
      rfl

theorem lastOf_eq_none_iff {α : Type} {told : SelectStep → Option α} {steps : List SelectStep} :
    lastOf told steps = none ↔ ∀ step ∈ steps, told step = none := by
  rw [lastOf, List.getLast?_eq_none_iff, List.filterMap_eq_nil_iff]

namespace Select

/-! ## One step -/

/-- The numbers of a query are those it is limited to, as they were given. -/
structure Limits (q : Select) (limit : Option (Int × Int)) (offset : Option Int) : Prop where
  rows : q.limit.map Int.ofNat = limit.map Prod.fst
  skipped : q.limitSkip.map Int.ofNat = limit.bind fun p => if 0 < p.2 then some p.2 else none
  offset : q.offset.map Int.ofNat = offset

theorem ofNat_natural? {n : Int} (h : 0 ≤ n) : ∃ k : Nat, natural? n = some k ∧ (k : Int) = n :=
  ⟨n.toNat, if_pos h, Int.toNat_of_nonneg h⟩

theorem natural?_of_neg {n : Int} (h : n < 0) : natural? n = none :=
  if_neg (Int.not_le.mpr h)

/-- A number of rows to skip is kept if it is positive. -/
theorem map_positive_natural? (m : Int) :
    ((natural? m).filter (0 < ·)).map Int.ofNat = if 0 < m then some m else none := by
  rcases Int.lt_or_le m 0 with hneg | hpos
  · rw [natural?_of_neg hneg, if_neg (by omega)]
    rfl
  · obtain ⟨k, hk, rfl⟩ := ofNat_natural? hpos
    rw [hk, Option.filter_some]
    by_cases hskip : 0 < k
    · rw [decide_eq_true hskip, if_pos (Int.natCast_pos.mpr hskip)]
      rfl
    · rw [decide_eq_false hskip, if_neg (mt Int.natCast_pos.mp hskip)]
      rfl

variable {q : Select} {limit : Option (Int × Int)} {offset : Option Int}

theorem Limits.setLimit (h : Limits q limit offset) (n : Int) :
    Limits (q.setLimit n) ((SelectStep.limit n).limit?.or limit) offset := by
  rcases Int.lt_or_le n 0 with hneg | hpos
  · rw [Select.setLimit, natural?_of_neg hneg, SelectStep.limit?, if_neg (Int.not_le.mpr hneg)]
    exact h
  · obtain ⟨k, hk, rfl⟩ := ofNat_natural? hpos
    rw [Select.setLimit, hk, SelectStep.limit?, if_pos hpos]
    exact ⟨rfl, rfl, h.offset⟩

theorem Limits.setLimitSkip (h : Limits q limit offset) (n m : Int) :
    Limits (q.setLimitSkip n m) ((SelectStep.limitSkip n m).limit?.or limit) offset := by
  rcases Int.lt_or_le n 0 with hneg | hpos
  · rw [Select.setLimitSkip, natural?_of_neg hneg, SelectStep.limit?, if_neg (Int.not_le.mpr hneg)]
    exact h
  · obtain ⟨k, hk, rfl⟩ := ofNat_natural? hpos
    rw [Select.setLimitSkip, hk, SelectStep.limit?, if_pos hpos]
    exact ⟨rfl, map_positive_natural? m, h.offset⟩

theorem Limits.setOffset (h : Limits q limit offset) (n : Int) :
    Limits (q.setOffset n) limit ((SelectStep.offset n).offset?.or offset) := by
  rcases Int.lt_or_le n 0 with hneg | hpos
  · rw [Select.setOffset, natural?_of_neg hneg, SelectStep.offset?, if_neg (Int.not_le.mpr hneg)]
    exact h
  · obtain ⟨k, hk, rfl⟩ := ofNat_natural? hpos
    rw [Select.setOffset, hk, SelectStep.offset?, if_pos hpos]
    exact ⟨h.rows, h.skipped, rfl⟩

/-- **One more step** limits the query to what it tells, if it tells something. -/
theorem Limits.apply (h : Limits q limit offset) (tablePrefix : String) (step : SelectStep) :
    Limits (q.apply tablePrefix step) (step.limit?.or limit) (step.offset?.or offset) := by
  have hlimit : (q.apply tablePrefix step).part .limit = _ := part_apply q step .limit
  have hoffset : (q.apply tablePrefix step).part .offset = _ := part_apply q step .offset
  cases step with
  | limit n => exact h.setLimit n
  | limitSkip n m => exact h.setLimitSkip n m
  | offset n => exact h.setOffset n
  | _ =>
      exact ⟨(congrArg (fun r : Select => r.limit.map Int.ofNat) hlimit).trans h.rows,
        (congrArg (fun r : Select => r.limitSkip.map Int.ofNat) hlimit).trans h.skipped,
        (congrArg (fun r : Select => r.offset.map Int.ofNat) hoffset).trans h.offset⟩

/-- A negative number changes nothing. -/
theorem apply_of_neg (q : Select) (tablePrefix : String) {n : Int} (h : n < 0) (m : Int) :
    q.apply tablePrefix (.limit n) = q ∧ q.apply tablePrefix (.limitSkip n m) = q ∧
      q.apply tablePrefix (.offset n) = q := by
  simp only [Select.apply, Select.setLimit, Select.setLimitSkip, Select.setOffset,
    natural?_of_neg h, and_self]

/-! ## Any steps -/

theorem Limits.applyAll (h : Limits q limit offset) (tablePrefix : String)
    (steps : List SelectStep) :
    Limits (q.applyAll tablePrefix steps) ((lastOf SelectStep.limit? steps).or limit)
      ((lastOf SelectStep.offset? steps).or offset) := by
  induction steps generalizing q limit offset with
  | nil => exact h
  | cons step steps ih =>
      rw [lastOf_cons, lastOf_cons, Option.or_assoc, Option.or_assoc]
      exact ih (h.apply tablePrefix step)

/-- **After any steps** a query on a table is limited to what the last of them told. -/
theorem limits_build (db : Database σ) (table : String) (steps : List SelectStep) :
    Limits (db.build table steps) (lastOf SelectStep.limit? steps)
      (lastOf SelectStep.offset? steps) := by
  have hnone : Limits (db.table table) none none := ⟨rfl, rfl, rfl⟩
  have hsteps := hnone.applyAll db.settings.tablePrefix steps
  rwa [Option.or_none, Option.or_none] at hsteps

/-! ## What is written -/

theorem Limits.limitClause_eq (h : Limits q limit offset) : q.limitClause = limitText limit := by
  cases limit with
  | none =>
      have hrows : q.limit = none := Option.map_eq_none_iff.mp h.rows
      rw [limitClause, hrows]
      rfl
  | some p =>
      obtain ⟨n, m⟩ := p
      obtain ⟨k, hrows, rfl⟩ := Option.map_eq_some_iff.mp h.rows
      have hskipped : q.limitSkip.map Int.ofNat = if 0 < m then some m else none := h.skipped
      by_cases hm : 0 < m
      · rw [if_pos hm] at hskipped
        obtain ⟨j, hskip, rfl⟩ := Option.map_eq_some_iff.mp hskipped
        rw [limitClause, hrows, hskip, limitText, if_pos hm]
        rfl
      · rw [if_neg hm] at hskipped
        rw [limitClause, hrows, Option.map_eq_none_iff.mp hskipped, limitText, if_neg hm]
        rfl

theorem Limits.offsetClause_eq (h : Limits q limit offset) :
    q.offsetClause = offsetText offset := by
  rw [offsetClause, ← h.offset]
  cases q.offset with
  | none => rfl
  | some n => rfl

/-- There is no number to skip without a number of rows, and it is not zero. -/
theorem Limits.of_limitSkip (h : Limits q limit offset) {m : Nat} (hm : q.limitSkip = some m) :
    q.limit.isSome = true ∧ 0 < m := by
  have hskipped := h.skipped
  have hrows := congrArg Option.isSome h.rows
  rw [hm] at hskipped
  rw [Option.isSome_map, Option.isSome_map] at hrows
  obtain ⟨p, rfl, hp⟩ := Option.bind_eq_some_iff.mp hskipped.symm
  refine ⟨hrows, ?_⟩
  split at hp
  · next hpos =>
    rw [Option.some.inj hp] at hpos
    exact Int.natCast_pos.mp hpos
  · exact nomatch hp

/-- **The clause shows every number that the query has.** -/
theorem Limits.limitClause_shows (h : Limits q limit offset) : q.limitClause
    = (q.limit.elim "" fun n => " LIMIT " ++ toString n)
      ++ q.limitSkip.elim "" fun m => ", " ++ toString m := by
  rw [limitClause]
  cases hskip : q.limitSkip with
  | none => cases q.limit <;> simp
  | some m =>
      obtain ⟨n, hn⟩ := Option.isSome_iff_exists.mp (h.of_limitSkip hskip).1
      rw [hn]
      simp [String.append_assoc]

theorem limitText_eq_empty_iff {limit : Option (Int × Int)} :
    limitText limit = "" ↔ limit = none := by
  cases limit with
  | none => exact iff_of_true rfl rfl
  | some p =>
      obtain ⟨n, m⟩ := p
      refine iff_of_false (fun h => ?_) (Option.some_ne_none _)
      by_cases hm : 0 < m
      · simp [limitText, hm] at h
      · simp [limitText, hm] at h

/-- The query without limits. -/
def unlimited (q : Select) : Select := { q with limit := none, limitSkip := none, offset := none }

/-- The two clauses stand at the end of the statement. -/
theorem render_eq_append_limits (q : Select) :
    q.render = q.unlimited.render ++ q.limitClause ++ q.offsetClause := by
  have hfront : q.unlimited.render = "SELECT " ++ q.distinctClause ++ q.columnsClause ++ " FROM "
      ++ q.table ++ q.joinsClause ++ q.whereClause ++ q.havingClause ++ q.groupByClause
      ++ q.orderByClause ++ "" ++ "" := rfl
  rw [String.append_empty, String.append_empty] at hfront
  exact congrArg (· ++ q.limitClause ++ q.offsetClause) hfront.symm

end Select

/-! ## The theorem -/

/-- The query is limited to what steps told last, in the numbers that it holds and in its text.  The
two clauses stand at the end.  There is a number to skip only beside a number of rows, it is never
zero, and every number is shown. -/
structure LimitedBy (q : Select) (steps : List SelectStep) : Prop
    extends Select.Limits q (lastOf SelectStep.limit? steps) (lastOf SelectStep.offset? steps) where
  limit_clause : q.limitClause = limitText (lastOf SelectStep.limit? steps)
  offset_clause : q.offsetClause = offsetText (lastOf SelectStep.offset? steps)
  render_eq : q.render = q.unlimited.render ++ limitText (lastOf SelectStep.limit? steps)
    ++ offsetText (lastOf SelectStep.offset? steps)
  no_clause_iff : q.limitClause = "" ↔ ∀ step ∈ steps, step.limit? = none
  skip_beside_limit : ∀ m, q.limitSkip = some m → q.limit.isSome = true ∧ 0 < m
  all_shown : q.limitClause = (q.limit.elim "" fun n => " LIMIT " ++ toString n)
    ++ (q.limitSkip.elim "" fun m => ", " ++ toString m)

theorem Select.Limits.limitedBy {q : Select} {steps : List SelectStep}
    (h : Select.Limits q (lastOf SelectStep.limit? steps) (lastOf SelectStep.offset? steps)) :
    LimitedBy q steps where
  toLimits := h
  limit_clause := h.limitClause_eq
  offset_clause := h.offsetClause_eq
  render_eq := by rw [Select.render_eq_append_limits, h.limitClause_eq, h.offsetClause_eq]
  no_clause_iff := by
    rw [h.limitClause_eq, Select.limitText_eq_empty_iff]
    exact lastOf_eq_none_iff
  skip_beside_limit _ hm := h.of_limitSkip hm
  all_shown := h.limitClause_shows

/-- **The last limit counts, and the last offset.**  After any steps on a table the clause for the
limit is that of the last step with a number of rows that is not negative, and there is none without
such a step; the clause for the offset is that of the last offset that is not negative, whatever the
limits.  The numbers in the query are the numbers that these steps gave, and all of them are shown.
A negative number changes nothing. -/
theorem limits_are_those_last_set (db : Database σ) (table : String) (steps : List SelectStep) :
    LimitedBy (db.build table steps) steps ∧
      ∀ (r : Select) (tablePrefix : String) (n m : Int), n < 0 →
        r.apply tablePrefix (.limit n) = r ∧ r.apply tablePrefix (.limitSkip n m) = r ∧
          r.apply tablePrefix (.offset n) = r := by
  constructor
  · exact (Select.limits_build db table steps).limitedBy
  · intro r tablePrefix n m hn
    exact r.apply_of_neg tablePrefix hn m

/-- Two of the limits and one of the offsets are negative. -/
theorem limits_last_set_of_six :
    let db : Database Unit := ⟨.accepting, {}, fun _ => none⟩
    let steps : List SelectStep :=
      [.limitSkip 3 9, .offset 20, .limitSkip 10 5, .limit (-1), .limitSkip (-2) 7, .offset (-5)]
    let q := db.build "posts" steps
    q.limitClause = " LIMIT 10, 5" ∧ q.offsetClause = " OFFSET 20" ∧
      q.render = q.unlimited.render ++ " LIMIT 10, 5" ++ " OFFSET 20" ∧
      q.unlimited.render = "SELECT * FROM posts" ∧ q.limit.map Int.ofNat = some 10 ∧
      q.limitSkip.map Int.ofNat = some 5 ∧ q.offset.map Int.ofNat = some 20 ∧
      q.apply "" (.limit (-1)) = q := by
  intro db steps q
  obtain ⟨hlimited, hneg⟩ := limits_are_those_last_set db "posts" steps
  exact ⟨hlimited.limit_clause.trans (by decide +kernel),
    hlimited.offset_clause.trans (by decide +kernel), hlimited.render_eq, by decide +kernel,
    hlimited.rows, hlimited.skipped, hlimited.offset, (hneg q "" (-1) 0 (by decide)).1⟩

end SqlBuilder
