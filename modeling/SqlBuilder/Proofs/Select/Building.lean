import SqlBuilder.Proofs.Select.Rendering

/-!
# Queries as they are built

Steps whose texts are tidy keep a query sound, in any order (`extends_applyAll`).  A step of the
condition adds its comparisons, and no other step adds or removes any.  The values of conditions on
groups are written as literals, so they need not be tidy.
-/

namespace SqlBuilder

open Placeholder

/-! ## Steps -/

namespace SelectStep

/-- The texts of a step are inert as they will be written, with the table prefix in its place; those
to sort by hold neither quotes nor colons. -/
def Tidy (tablePrefix : String) : SelectStep → Prop
  | .columns names => ∀ s ∈ names, Inert s
  | .addColumns names => ∀ s ∈ names, Inert s
  | .expression text => Inert (Text.replaceAll text Select.prefixMark tablePrefix)
  | .distinct => True
  | .joinOn _ table text => Inert (tablePrefix ++ table) ∧ Inert text
  | .having _ column operator _ => Inert column ∧ Inert operator
  | .groupBy names => ∀ s ∈ names, Inert s
  | .orderBy column direction => Plain column ∧ Plain direction
  | .limit _ => True
  | .limitSkip _ _ => True
  | .offset _ => True
  | .condition call => call.Tidy

/-- The comparisons that a step adds. -/
def comparisons : SelectStep → List Comparison
  | .condition call => call.comparisons
  | _ => []

/-- A join on a comparison is tidy if its texts are, each alone. -/
theorem tidy_join {tablePrefix table first operator second : String} (kind : JoinKind)
    (htable : Inert (tablePrefix ++ table)) (hfirst : Inert first) (hoperator : Inert operator)
    (hsecond : Inert second) : (join kind table first operator second).Tidy tablePrefix :=
  ⟨htable, inert_comparison hfirst hoperator hsecond⟩

end SelectStep

namespace Select

/-- A query goes on from another one: it is sound, and some comparisons were added. -/
structure Extends (q r : Select) (added : List Comparison) : Prop where
  sound : Sound r
  comparisons : comparisonsOf r.condition.members = comparisonsOf q.condition.members ++ added

/-- A step that leaves the condition alone. -/
theorem extends_of_condition {q r : Select} (hr : r.Sound) (h : r.condition = q.condition) :
    q.Extends r [] := by
  refine ⟨hr, ?_⟩
  rw [h, List.append_nil]

/-! ## One step -/

variable {q : Select}

theorem isClause_join {table condition : String} (kind : JoinKind) (htable : Inert table)
    (hcondition : Inert condition) :
    IsClause (" " ++ kind.keyword ++ " JOIN " ++ table ++ " ON (" ++ Text.trimEnd condition
      ++ ")") := by
  -- put together from the back, so that every text stands behind one that ends before it
  have hkeyword : IsDivider (" " ++ kind.keyword ++ " JOIN ") := by cases kind <;> decide +kernel
  have htrimmed : Inert (Text.trimEnd condition ++ ")") :=
    (Text.inert_trimEnd hcondition).append isDivider_close.plain.inert isDivider_close.continues
  have hon : IsClause (" ON (" ++ (Text.trimEnd condition ++ ")")) :=
    isClause_keyword (by decide +kernel) htrimmed
  have hbody := htable.append hon.inert hon.continues
  have htext : " " ++ kind.keyword ++ " JOIN " ++ table ++ " ON (" ++ Text.trimEnd condition
      ++ ")" = " " ++ kind.keyword ++ " JOIN " ++ (table ++ (" ON (" ++ (Text.trimEnd condition
        ++ ")"))) := by simp only [String.append_assoc]
  rw [htext]
  exact isClause_keyword hkeyword hbody

theorem Sound.addJoin (h : q.Sound) (kind : JoinKind) {table condition : String}
    (htable : Inert table) (hcondition : Inert condition) :
    (q.addJoin kind table condition).Sound := by
  refine { h with joins := fun s hs => ?_ }
  rcases List.mem_append.mp hs with hs | hs
  · exact h.joins s hs
  · rw [List.mem_singleton.mp hs]
    exact isClause_join kind htable hcondition

theorem Sound.addHaving (h : q.Sound) (c : Connective) {fragment : String}
    (hfragment : Inert fragment) : (q.addHaving c fragment).Sound := by
  have hmore : IsClause (" " ++ c.keyword ++ " " ++ fragment) :=
    isClause_keyword (isDivider_connective c) hfragment
  refine { h with having := ?_ }
  show Inert (if q.having.isEmpty then fragment
    else q.having ++ " " ++ c.keyword ++ " " ++ fragment)
  split
  · exact hfragment
  · have htext : q.having ++ " " ++ c.keyword ++ " " ++ fragment
        = q.having ++ (" " ++ c.keyword ++ " " ++ fragment) := by
      simp only [String.append_assoc]
    rw [htext]
    exact h.having.append hmore.inert hmore.continues

/-- Sorting by another column, or by one in another direction, leaves plain entries. -/
theorem plain_orderEntries {name direction : String} {entries : List (String × String)}
    (hname : Plain name) (hdirection : Plain direction)
    (h : ∀ p ∈ entries, Plain p.1 ∧ Plain p.2) :
    ∀ p ∈ orderEntries name direction entries, Plain p.1 ∧ Plain p.2 := by
  induction entries with
  | nil =>
      intro p hp
      rw [List.mem_singleton.mp hp]
      exact ⟨hname, hdirection⟩
  | cons e rest ih =>
      obtain ⟨n, d⟩ := e
      have hhead := h (n, d) List.mem_cons_self
      have hrest : ∀ p ∈ rest, Plain p.1 ∧ Plain p.2 := fun p hp =>
        h p (List.mem_cons_of_mem _ hp)
      intro p hp
      unfold orderEntries at hp
      split at hp
      · rcases List.mem_cons.mp hp with rfl | hp
        · exact ⟨hhead.1, hdirection⟩
        · exact hrest p hp
      · rcases List.mem_cons.mp hp with rfl | hp
        · exact hhead
        · exact ih hrest p hp

theorem Sound.sortBy (h : q.Sound) {column direction : String} (hcolumn : Plain column)
    (hdirection : Plain direction) : (q.sortBy column direction).Sound := by
  have hwords : ∀ w ∈ Text.words column, Plain w := fun w hw =>
    Text.plain_of_mem_words hcolumn hw
  -- a direction in the column's text wins, and it is plain because the text is
  unfold Select.sortBy
  split
  · exact h
  · next name hname =>
    have hplain : Plain name := hwords name (by rw [hname]; exact List.mem_cons_self)
    exact { h with
      ordering := plain_orderEntries hplain (Text.plain_toUpper hdirection) h.ordering }
  · next name own _ hname =>
    have hplain : Plain name := hwords name (by rw [hname]; exact List.mem_cons_self)
    have hown : Plain own :=
      hwords own (by rw [hname]; exact List.mem_cons_of_mem _ List.mem_cons_self)
    exact { h with
      ordering := plain_orderEntries hplain (Text.plain_toUpper hown) h.ordering }

/-- How many rows are asked for changes no text. -/
theorem extends_paging (h : q.Sound) (limit skip offset : Option Nat) :
    q.Extends { q with limit := limit, limitSkip := skip, offset := offset } [] :=
  extends_of_condition { h with } rfl

theorem extends_setLimit (h : q.Sound) (n : Int) : q.Extends (q.setLimit n) [] := by
  unfold Select.setLimit
  split
  · exact extends_paging h _ _ _
  · exact extends_of_condition h rfl

theorem extends_setLimitSkip (h : q.Sound) (n m : Int) : q.Extends (q.setLimitSkip n m) [] := by
  unfold Select.setLimitSkip
  split
  · exact extends_paging h _ _ _
  · exact extends_of_condition h rfl

theorem extends_setOffset (h : q.Sound) (n : Int) : q.Extends (q.setOffset n) [] := by
  unfold Select.setOffset
  split
  · exact extends_paging h _ _ _
  · exact extends_of_condition h rfl

theorem condition_sortBy (q : Select) (column direction : String) :
    (q.sortBy column direction).condition = q.condition := by
  unfold Select.sortBy
  split <;> rfl

/-! ## Any steps -/

theorem extends_apply (h : q.Sound) {tablePrefix : String} {step : SelectStep}
    (hstep : step.Tidy tablePrefix) : q.Extends (q.apply tablePrefix step) step.comparisons := by
  cases step with
  | columns names => exact extends_of_condition { h with columns := hstep } rfl
  | addColumns names =>
      refine extends_of_condition { h with columns := fun s hs => ?_ } rfl
      exact (List.mem_append.mp hs).elim (h.columns s) (hstep s)
  | expression text =>
      refine extends_of_condition { h with columns := fun s hs => ?_ } rfl
      rcases List.mem_append.mp hs with hs | hs
      · exact h.columns s hs
      · rw [List.mem_singleton.mp hs]
        exact hstep
  | distinct => exact extends_of_condition { h with } rfl
  | joinOn kind table condition =>
      exact extends_of_condition (h.addJoin kind hstep.1 hstep.2) rfl
  | having c column operator v =>
      -- the literal is inert whatever the value is
      have hfragment := inert_comparison hstep.1 hstep.2 v.inert_literal
      exact extends_of_condition (h.addHaving c hfragment) rfl
  | groupBy names =>
      refine extends_of_condition { h with grouping := fun s hs => ?_ } rfl
      exact (List.mem_append.mp hs).elim (h.grouping s) (hstep s)
  | orderBy column direction =>
      exact extends_of_condition (h.sortBy hstep.1 hstep.2) (condition_sortBy q column direction)
  | limit n => exact extends_setLimit h n
  | limitSkip n m => exact extends_setLimitSkip h n m
  | offset n => exact extends_setOffset h n
  | condition call =>
      have hcondition := Condition.extends_apply call h.condition hstep
      exact ⟨{ h with condition := hcondition.sound }, hcondition.comparisons⟩

/-- **Tidy steps keep a query sound**, and what they add are the comparisons of the condition. -/
theorem extends_applyAll (h : q.Sound) {tablePrefix : String} {steps : List SelectStep}
    (hsteps : ∀ step ∈ steps, step.Tidy tablePrefix) :
    q.Extends (q.applyAll tablePrefix steps) (steps.flatMap SelectStep.comparisons) := by
  induction steps generalizing q with
  | nil => exact ⟨h, (List.append_nil _).symm⟩
  | cons step steps ih =>
      have hfirst := extends_apply h (hsteps step List.mem_cons_self)
      have hrest := ih hfirst.sound fun s hs => hsteps s (List.mem_cons_of_mem step hs)
      refine ⟨hrest.sound, ?_⟩
      show comparisonsOf ((q.apply tablePrefix step).applyAll tablePrefix steps).condition.members
        = _
      rw [hrest.comparisons, hfirst.comparisons, List.flatMap_cons, List.append_assoc]

end Select

end SqlBuilder
