import SqlBuilder.Proofs.Condition.Building
import SqlBuilder.Proofs.Database.TwoRuns

/-!
# Programs that differ in bound values

`SelectStep.masked` leaves of a step all but the values that it binds.  Programs with the same masks
build queries that differ in nothing but the values bound to names (`Select.alike_applyAll`): the
clauses are the same texts, and the same names are bound.
-/

namespace SqlBuilder

/-! ## Masks -/

mutual

/-- The call with `NULL` for every value that it binds.  Values that are written out as literals
stay. -/
def WhereCall.masked : WhereCall → WhereCall
  | .compare c column operator _ => .compare c column operator .null
  | .all pairs => .all (pairs.map fun p => (p.1, .null))
  | .among c negated column values => .among c negated column values
  | .null c negated column => .null c negated column
  | .raw c sql bindings => .raw c sql (bindings.map fun p => (p.1, .null))
  | .group c calls => .group c (maskedCalls calls)

def maskedCalls : List WhereCall → List WhereCall
  | [] => []
  | call :: calls => call.masked :: maskedCalls calls

end

/-- The step with `NULL` for every value that it binds. -/
def SelectStep.masked : SelectStep → SelectStep
  | .condition call => .condition call.masked
  | step => step

/-- The names stay. -/
theorem map_fst_masked (pairs : List (String × Value)) :
    pairs.map Prod.fst = (pairs.map fun p => (p.1, Value.null)).map Prod.fst := by
  rw [List.map_map]
  rfl

/-! ## Names -/

namespace Bindings.SameNames

variable {params params' : Bindings}

theorem symm (h : params.SameNames params') : params'.SameNames params :=
  fun name => (h name).symm

theorem trans {params'' : Bindings} (h : params.SameNames params')
    (h' : params'.SameNames params'') : params.SameNames params'' :=
  fun name => (h name).trans (h' name)

theorem insert (h : params.SameNames params') (key : String) (v v' : Value) :
    SameNames (SortedMap.insert params key v) (SortedMap.insert params' key v') := by
  intro name
  rw [Bool.eq_iff_iff, SortedMap.contains_insert, SortedMap.contains_insert, h name]

theorem merge {inner inner' : Bindings} (h : params.SameNames params')
    (hinner : inner.SameNames inner') :
    SameNames (SortedMap.merge params inner) (SortedMap.merge params' inner') := by
  intro name
  rw [Bool.eq_iff_iff, SortedMap.contains_merge, SortedMap.contains_merge, h name, hinner name]

end Bindings.SameNames

/-! ## Conditions -/

namespace Condition

/-- The conditions are written alike and bind the same names. -/
structure Alike (g g' : Condition) : Prop where
  fragments : SqlBuilder.fragments g.members = SqlBuilder.fragments g'.members
  names : g.params.SameNames g'.params

namespace Alike

variable {g g' : Condition}

theorem refl (g : Condition) : g.Alike g := ⟨rfl, fun _ => rfl⟩

theorem symm (h : g.Alike g') : g'.Alike g := ⟨h.fragments.symm, h.names.symm⟩

theorem trans {g'' : Condition} (h : g.Alike g') (h' : g'.Alike g'') : g.Alike g'' :=
  ⟨h.fragments.trans h'.fragments, h.names.trans h'.names⟩

theorem render (h : g.Alike g') : g.render = g'.render := by
  rw [Condition.render, Condition.render, h.fragments]

theorem whereClause (h : g.Alike g') : g.whereClause = g'.whereClause := by
  rw [Condition.whereClause, Condition.whereClause, h.render]

theorem bind (h : g.Alike g') (name : String) (v v' : Value) :
    (g.bind name v).Alike (g'.bind name v') :=
  ⟨h.fragments, h.names.insert name v v'⟩

/-- A predicate that is written alike. -/
theorem add (h : g.Alike g') (c : Connective) {p p' : Predicate} (hrender : p.render = p'.render)
    (hnames : (g.add c p).params.SameNames (g'.add c p').params) :
    (g.add c p).Alike (g'.add c p') := by
  refine ⟨?_, hnames⟩
  have hlast : SqlBuilder.fragments [(c, p)] = SqlBuilder.fragments [(c, p')] := by
    unfold SqlBuilder.fragments
    rw [hrender]
  rw [members_add, members_add, fragments_append, fragments_append, h.fragments, hlast]

theorem addComparison (h : g.Alike g') (c : Connective) (column operator : String) (v v' : Value) :
    (g.addComparison c column operator v).Alike (g'.addComparison c column operator v') :=
  have hbind := h.bind (Placeholder.keyOf column) v v'
  hbind.add c rfl hbind.names

theorem addEqualities {pairs pairs' : List (String × Value)} (h : g.Alike g')
    (hcolumns : pairs.map Prod.fst = pairs'.map Prod.fst) :
    (g.addEqualities pairs).Alike (g'.addEqualities pairs') := by
  induction pairs generalizing g g' pairs' with
  | nil =>
      obtain rfl := List.map_eq_nil_iff.mp hcolumns.symm
      exact h
  | cons p pairs ih =>
      obtain ⟨⟨column', v'⟩, rest, rfl, hp, hrest⟩ := List.map_eq_cons_iff.mp hcolumns.symm
      obtain ⟨column, v⟩ := p
      obtain rfl : column' = column := hp
      have hall := ih (h.addComparison .and column' "=" v v') hrest.symm
      exact hall

theorem bindAll {bindings bindings' : List (String × Value)} (h : g.Alike g')
    (hnames : bindings.map Prod.fst = bindings'.map Prod.fst) :
    (bindings.foldl (fun g p => g.bind p.1 p.2) g).Alike
      (bindings'.foldl (fun g p => g.bind p.1 p.2) g') := by
  induction bindings generalizing g g' bindings' with
  | nil =>
      obtain rfl := List.map_eq_nil_iff.mp hnames.symm
      exact h
  | cons p bindings ih =>
      obtain ⟨⟨name', v'⟩, rest, rfl, hp, hrest⟩ := List.map_eq_cons_iff.mp hnames.symm
      obtain ⟨name, v⟩ := p
      obtain rfl : name' = name := hp
      have hall := ih (h.bind name' v v') hrest.symm
      exact hall

theorem addNested (h : g.Alike g') (c : Connective) {inner inner' : Condition}
    (hinner : inner.Alike inner') : (g.add c inner.nested).Alike (g'.add c inner'.nested) := by
  refine h.add c ?_ (h.names.merge hinner.names)
  show parenthesised inner.render = parenthesised inner'.render
  rw [hinner.render]

mutual

theorem apply_masked : (call : WhereCall) → {g g' : Condition} → g.Alike g' →
    (g.apply call).Alike (g'.apply call.masked)
  | .compare c column operator v, _, _, h => h.addComparison c column operator v .null
  | .all pairs, _, _, h => h.addEqualities (map_fst_masked pairs)
  | .among c _ _ [], _, _, h => h.add c rfl h.names
  | .among c _ _ (_ :: _), _, _, h => h.add c rfl h.names
  | .null c _ _, _, _, h => h.add c rfl h.names
  | .raw c _ bindings, _, _, h =>
      have hbind := h.bindAll (map_fst_masked bindings)
      hbind.add c rfl hbind.names
  | .group c calls, _, _, h => h.addNested c (applyAll_masked calls (.refl empty))

theorem applyAll_masked : (calls : List WhereCall) → {g g' : Condition} → g.Alike g' →
    (g.applyAll calls).Alike (g'.applyAll (maskedCalls calls))
  | [], _, _, h => h
  | call :: calls, _, _, h => applyAll_masked calls (apply_masked call h)

end

end Alike

end Condition

/-! ## Queries -/

namespace Select

/-- The queries differ in their conditions only, and these are written alike and bind the same
names. -/
def Alike (q q' : Select) : Prop :=
  ∃ g, q' = { q with condition := g } ∧ q.condition.Alike g

namespace Alike

variable {q q' : Select}

theorem refl (q : Select) : q.Alike q := ⟨q.condition, rfl, .refl _⟩

/-- Queries that are alike to one are alike. -/
theorem of_common {r : Select} (h : q.Alike r) (h' : q'.Alike r) : q.Alike q' := by
  obtain ⟨g, rfl, hg⟩ := h
  obtain ⟨g', heq, hg'⟩ := h'
  have hcondition : g = g' := congrArg Select.condition heq
  have hclauses := congrArg (fun r : Select => { r with condition := q'.condition }) heq
  refine ⟨q'.condition, hclauses.symm, hg.trans ?_⟩
  rw [hcondition]
  exact hg'.symm

theorem render (h : q.Alike q') : q.render = q'.render := by
  obtain ⟨g, rfl, hg⟩ := h
  have hwhere : q.whereClause = ({ q with condition := g } : Select).whereClause := hg.whereClause
  unfold Select.render
  rw [hwhere]
  rfl

theorem setLimit (h : q.Alike q') (n : Int) : (q.setLimit n).Alike (q'.setLimit n) := by
  obtain ⟨g, rfl, hg⟩ := h
  unfold Select.setLimit
  split <;> exact ⟨g, rfl, hg⟩

theorem addCondition (h : q.Alike q') {call call' : WhereCall}
    (hcall : ∀ g g' : Condition, g.Alike g' → (g.apply call).Alike (g'.apply call')) :
    (q.addCondition call).Alike (q'.addCondition call') := by
  obtain ⟨g, rfl, hg⟩ := h
  exact ⟨g.apply call', rfl, hcall _ _ hg⟩

theorem apply_masked (h : q.Alike q') (tablePrefix : String) (step : SelectStep) :
    (q.apply tablePrefix step).Alike (q'.apply tablePrefix step.masked) := by
  cases step with
  | condition call =>
      exact h.addCondition fun _ _ hg => Condition.Alike.apply_masked call hg
  | limit n => exact h.setLimit n
  | limitSkip n m =>
      obtain ⟨g, rfl, hg⟩ := h
      show (q.setLimitSkip n m).Alike (Select.setLimitSkip _ n m)
      unfold Select.setLimitSkip
      split <;> exact ⟨g, rfl, hg⟩
  | offset n =>
      obtain ⟨g, rfl, hg⟩ := h
      show (q.setOffset n).Alike (Select.setOffset _ n)
      unfold Select.setOffset
      split <;> exact ⟨g, rfl, hg⟩
  | orderBy column direction =>
      obtain ⟨g, rfl, hg⟩ := h
      show (q.sortBy column direction).Alike (Select.sortBy _ column direction)
      unfold Select.sortBy
      split <;> exact ⟨g, rfl, hg⟩
  | _ =>
      obtain ⟨g, rfl, hg⟩ := h
      exact ⟨g, rfl, hg⟩

theorem applyAll_masked (h : q.Alike q') (tablePrefix : String) (steps : List SelectStep) :
    (q.applyAll tablePrefix steps).Alike
      (q'.applyAll tablePrefix (steps.map SelectStep.masked)) := by
  induction steps generalizing q q' with
  | nil => exact h
  | cons step steps ih => exact ih (h.apply_masked tablePrefix step)

end Alike

/-- **Programs with the same masks build alike queries.** -/
theorem alike_applyAll (q : Select) (tablePrefix : String) {steps steps' : List SelectStep}
    (h : steps.map SelectStep.masked = steps'.map SelectStep.masked) :
    (q.applyAll tablePrefix steps).Alike (q.applyAll tablePrefix steps') := by
  have hsteps := (Alike.refl q).applyAll_masked tablePrefix steps
  rw [h] at hsteps
  exact hsteps.of_common ((Alike.refl q).applyAll_masked tablePrefix steps')

end Select

end SqlBuilder
