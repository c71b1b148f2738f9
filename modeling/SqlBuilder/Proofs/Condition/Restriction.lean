import SqlBuilder.Condition.Call
import SqlBuilder.Proofs.Condition.Structure

/-!
# Conditions with equalities behind them

An operation that looks for a key appends the key's equality to a condition that may already hold
anything.  The rows that it finds are always among those of the condition before
(`Condition.admits_of_admits_addEqualities`), but `AND` binds tighter than `OR`, so the equality
goes with the last conjunction alone: it holds for every row that is found exactly if the condition
before is a single conjunction (`Condition.enforces_addEqualities_iff`).
-/

namespace SqlBuilder

open Placeholder

/-! ## Rows -/

mutual

/-- A row that meets the tests in `row` makes an operand true. -/
def Formula.Holds (row : Atom → Prop) : Formula → Prop
  | .test a => row a
  | .nested ds => AnyHolds row ds

/-- All operands of a conjunction are true. -/
def AllHold (row : Atom → Prop) : List Formula → Prop
  | [] => True
  | f :: fs => f.Holds row ∧ AllHold row fs

/-- One of the conjunctions is true. -/
def AnyHolds (row : Atom → Prop) : List (List Formula) → Prop
  | [] => False
  | fs :: ds => AllHold row fs ∨ AnyHolds row ds

end

theorem allHold_iff {row : Atom → Prop} {fs : List Formula} :
    AllHold row fs ↔ ∀ f ∈ fs, f.Holds row := by
  induction fs with
  | nil => simp [AllHold]
  | cons f fs ih => rw [AllHold, ih, List.forall_mem_cons]

theorem anyHolds_iff {row : Atom → Prop} {ds : List (List Formula)} :
    AnyHolds row ds ↔ ∃ fs ∈ ds, ∀ f ∈ fs, f.Holds row := by
  induction ds with
  | nil => simp [AnyHolds]
  | cons fs ds ih => rw [AnyHolds, ih, allHold_iff, List.exists_mem_cons_iff]

namespace Condition

/-- The rows of a condition: those for which what is written is true as it is read, and all rows if
nothing is written. -/
def Admits (g : Condition) (row : Atom → Prop) : Prop :=
  g.tokens = [] ∨ ∃ ds, ReadsCondition g.tokens ds ∧ AnyHolds row ds

theorem admits_iff {g : Condition} {row : Atom → Prop} :
    g.Admits row ↔ g.isEmpty = true ∨ AnyHolds row g.reading := by
  unfold Admits
  rw [g.tokens_eq_nil_iff]
  constructor
  · rintro (hempty | ⟨ds, hread, hholds⟩)
    · exact .inl hempty
    · rw [(readsCondition_iff.mp hread).2] at hholds
      exact .inr hholds
  · rintro (hempty | hholds)
    · exact .inl hempty
    · by_cases hempty : g.isEmpty = true
      · exact .inl hempty
      · exact .inr ⟨g.reading, reads_tokens (Bool.eq_false_iff.mpr hempty), hholds⟩

/-- Every row of the condition meets the tests. -/
def Enforces (g : Condition) (tests : List Atom) : Prop :=
  ∀ row, g.Admits row → ∀ a ∈ tests, row a

/-- What is left of the condition is joined with `AND` throughout. -/
def IsConjunction (g : Condition) : Prop :=
  ∀ m ∈ (pruneAll g.members).tail, m.1 = .and

end Condition

/-! ## Lists of predicates -/

theorem pruneAll_append (ms ns : List (Connective × Predicate)) :
    pruneAll (ms ++ ns) = pruneAll ms ++ pruneAll ns := by
  induction ms with
  | nil => rfl
  | cons m ms ih =>
      obtain ⟨c, p⟩ := m
      rw [List.cons_append, pruneAll, pruneAll, ih]
      split <;> rfl

theorem formulas_eq_map (ms : List (Connective × Predicate)) :
    formulas ms = ms.map fun m => (m.1, m.2.formula) := by
  induction ms with
  | nil => rfl
  | cons m ms ih =>
      obtain ⟨c, p⟩ := m
      rw [formulas, ih]
      rfl

theorem pruneAll_eq_nil_iff {ms : List (Connective × Predicate)} :
    pruneAll ms = [] ↔ allEmpty ms = true := by
  induction ms with
  | nil => simp [pruneAll, allEmpty]
  | cons m ms ih =>
      obtain ⟨c, p⟩ := m
      by_cases h : p.isEmpty = true <;> simp [pruneAll, allEmpty, h, ih]

theorem mem_of_mem_alternatives {α : Type} {ms : List (Connective × α)} {conjunction : List α}
    {x : α} (hmem : conjunction ∈ alternatives ms) (hx : x ∈ conjunction) :
    ∃ m ∈ ms, m.2 = x := by
  obtain ⟨segment, hsegment, rfl⟩ := List.mem_map.mp hmem
  obtain ⟨m, hm, rfl⟩ := List.mem_map.mp hx
  refine ⟨m, ?_, rfl⟩
  rw [← List.flatten_splitBy (fun _ m => decide (m.1 = .and)) ms]
  exact List.mem_flatten_of_mem hsegment hm

/-- Where all operands are true, so is the condition, whatever joins them. -/
theorem anyHolds_alternatives {row : Atom → Prop} {fs : List (Connective × Formula)}
    (hne : fs ≠ []) (h : ∀ f ∈ fs, f.2.Holds row) : AnyHolds row (alternatives fs) := by
  obtain ⟨f, fs, rfl⟩ := List.exists_cons_of_ne_nil hne
  obtain ⟨xs, ds, hfirst⟩ := exists_alternatives_cons f fs
  have hmem : (f.2 :: xs) ∈ alternatives (f :: fs) := by simp [hfirst]
  refine anyHolds_iff.mpr ⟨f.2 :: xs, hmem, fun x hx => ?_⟩
  obtain ⟨m, hm, rfl⟩ := mem_of_mem_alternatives hmem hx
  exact h m hm

/-! ## Equalities -/

/-- The test that a column equals the value bound to its key. -/
def keyTest (column : String) : Atom :=
  .comparison column "=" (.bound (keyOf column))

/-- No comparison of the condition binds the name of the column's placeholder. -/
def Condition.Spares (g : Condition) (column : String) : Prop :=
  ∀ c ∈ comparisonsOf g.members, keyOf c.column ≠ keyOf column

-- A row that fails no test but the column's own: it makes every tree true that spares the column.
mutual

theorem Predicate.holds_of_ne_keyTest {column : String} : (p : Predicate) → p.isEmpty = false →
    (∀ c ∈ p.comparisons, keyOf c.column ≠ keyOf column) →
      p.prune.formula.Holds (· ≠ keyTest column)
  | .basic c o operand, _, h => by
      show Atom.comparison c o operand ≠ keyTest column
      intro heq
      cases heq
      exact h _ List.mem_cons_self rfl
  | .raw sql, _, _ => by
      show Atom.text sql ≠ keyTest column
      exact nofun
  | .group members _, hempty, h => by
      have hne : formulas (pruneAll members) ≠ [] := by
        rw [formulas_eq_map, Ne, List.map_eq_nil_iff, pruneAll_eq_nil_iff]
        exact Bool.eq_false_iff.mp hempty
      exact anyHolds_alternatives hne (holds_of_mem_formulas members h)

theorem holds_of_mem_formulas {column : String} : (ms : List (Connective × Predicate)) →
    (∀ c ∈ comparisonsOf ms, keyOf c.column ≠ keyOf column) →
      ∀ f ∈ formulas (pruneAll ms), f.2.Holds (· ≠ keyTest column)
  | [], _ => by simp [pruneAll, formulas]
  | (c, p) :: ms, h => by
      have hp := fun d hd => h d (List.mem_append_left (comparisonsOf ms) hd)
      have hms := holds_of_mem_formulas ms fun d hd => h d (List.mem_append_right p.comparisons hd)
      by_cases hempty : p.isEmpty = true
      · rw [pruneAll, if_pos hempty]
        exact hms
      · rw [pruneAll, if_neg hempty, formulas]
        have hfirst := p.holds_of_ne_keyTest (Bool.eq_false_iff.mpr hempty) hp
        exact List.forall_mem_cons.mpr ⟨hfirst, hms⟩

end

namespace Condition

theorem members_addEqualities (g : Condition) (pairs : List (String × Value)) :
    (g.addEqualities pairs).members
      = g.members ++ pairs.map fun p => (.and, (keyTest p.1).predicate) := by
  induction pairs generalizing g with
  | nil => exact (List.append_nil _).symm
  | cons p pairs ih =>
      have hrest := ih (g.addComparison .and p.1 "=" p.2)
      have hmembers : (g.addComparison .and p.1 "=" p.2).members
          = g.members ++ [(.and, (keyTest p.1).predicate)] := rfl
      rw [hmembers, List.append_assoc] at hrest
      exact hrest

/-- The equalities are operands behind those that were left before. -/
theorem formulas_addEqualities (g : Condition) (pairs : List (String × Value)) :
    formulas (pruneAll (g.addEqualities pairs).members)
      = formulas (pruneAll g.members)
        ++ (pairs.map fun p => Formula.test (keyTest p.1)).map (.and, ·) := by
  have hpairs : pruneAll (pairs.map fun p => (Connective.and, (keyTest p.1).predicate))
      = pairs.map fun p => (.and, (keyTest p.1).predicate) := by
    induction pairs with
    | nil => rfl
    | cons p pairs ih =>
        rw [List.map_cons, pruneAll, ih]
        rfl
  rw [members_addEqualities, pruneAll_append, hpairs, formulas_eq_map, formulas_eq_map,
    List.map_append, List.map_map, List.map_map]
  rfl

/-- How the reading goes on: the equalities stand alone, or they join the last conjunction. -/
theorem reading_addEqualities (g : Condition) {pairs : List (String × Value)}
    (hpairs : pairs ≠ []) :
    (g.isEmpty = true ∧
      (g.addEqualities pairs).reading = [pairs.map fun p => .test (keyTest p.1)]) ∨
    ∃ ds fs, g.reading = ds ++ [fs] ∧
      (g.addEqualities pairs).reading = ds ++ [fs ++ pairs.map fun p => .test (keyTest p.1)] := by
  obtain ⟨p, pairs, rfl⟩ := List.exists_cons_of_ne_nil hpairs
  rw [← g.reading_eq_nil_iff]
  unfold reading
  rw [formulas_addEqualities]
  cases formulas (pruneAll g.members) with
  | nil => exact .inl ⟨rfl, alternatives_ands _ _⟩
  | cons f fs => exact .inr (exists_alternatives_append f fs _)

theorem isConjunction_iff {g : Condition} :
    g.IsConjunction ↔ g.isEmpty = true ∨ ∃ fs, g.reading = [fs] := by
  have htail : g.IsConjunction ↔ ∀ f ∈ (formulas (pruneAll g.members)).tail, f.1 = .and := by
    rw [IsConjunction, formulas_eq_map, ← List.map_tail, List.forall_mem_map]
  rw [htail, ← g.reading_eq_nil_iff, reading]
  cases formulas (pruneAll g.members) with
  | nil => simp
  | cons f fs =>
      rw [alternatives_eq_singleton_iff]
      simp [alternatives_ne_nil]

theorem admits_addEqualities_iff {g : Condition} {pairs : List (String × Value)}
    (hpairs : pairs ≠ []) {row : Atom → Prop} :
    (g.addEqualities pairs).Admits row ↔ AnyHolds row (g.addEqualities pairs).reading := by
  have hne : ¬ (g.addEqualities pairs).isEmpty = true := by
    rw [← reading_eq_nil_iff]
    rcases reading_addEqualities g hpairs with ⟨-, h⟩ | ⟨ds, fs, -, h⟩ <;> simp [h]
  rw [admits_iff, or_iff_right hne]

/-- **Equalities only ever leave rows out.** -/
theorem admits_of_admits_addEqualities {g : Condition} {pairs : List (String × Value)}
    {row : Atom → Prop} (h : (g.addEqualities pairs).Admits row) : g.Admits row := by
  by_cases hpairs : pairs = []
  · subst hpairs
    exact h
  · rw [admits_addEqualities_iff hpairs] at h
    rcases reading_addEqualities g hpairs with ⟨hempty, -⟩ | ⟨ds, fs, hbefore, hafter⟩
    · exact admits_iff.mpr (.inl hempty)
    · rw [hafter] at h
      obtain ⟨conjunction, hmem, hall⟩ := anyHolds_iff.mp h
      refine admits_iff.mpr (.inr ?_)
      rw [hbefore]
      rcases List.mem_append.mp hmem with hmem | hlast
      · exact anyHolds_iff.mpr ⟨conjunction, List.mem_append_left _ hmem, hall⟩
      · rw [List.mem_singleton.mp hlast] at hall
        refine anyHolds_iff.mpr ⟨fs, by simp, fun f hf => ?_⟩
        exact hall f (List.mem_append_left _ hf)

theorem enforces_of_isConjunction {g : Condition} {pairs : List (String × Value)}
    (h : g.IsConjunction) :
    (g.addEqualities pairs).Enforces (pairs.map fun p => keyTest p.1) := by
  by_cases hpairs : pairs = []
  · subst hpairs
    exact fun row _ a ha => nomatch ha
  · -- with one conjunction before them, the equalities are in the only one there is
    have hone : ∃ fs, (g.addEqualities pairs).reading
        = [fs ++ pairs.map fun p => .test (keyTest p.1)] := by
      rcases reading_addEqualities g hpairs with ⟨-, hafter⟩ | ⟨ds, fs, hbefore, hafter⟩
      · exact ⟨[], hafter⟩
      · rcases isConjunction_iff.mp h with hempty | ⟨fs', hsingle⟩
        · rw [← reading_eq_nil_iff, hbefore] at hempty
          simp at hempty
        · have hds : ds = [] := by
            have hlength := congrArg List.length (hbefore.symm.trans hsingle)
            simpa using hlength
          subst hds
          exact ⟨fs, hafter⟩
    obtain ⟨fs, hfs⟩ := hone
    intro row hrow a ha
    rw [admits_addEqualities_iff hpairs, hfs, anyHolds_iff] at hrow
    obtain ⟨conjunction, hmem, hall⟩ := hrow
    rw [List.mem_singleton.mp hmem] at hall
    obtain ⟨p, hp, rfl⟩ := List.mem_map.mp ha
    exact hall (.test (keyTest p.1)) (List.mem_append_right fs (List.mem_map.mpr ⟨p, hp, rfl⟩))

/-- A row that meets all tests but the equality of one column is found by an alternative of the
condition before, and by then the equality does not matter. -/
theorem exists_admits_of_not_isConjunction {g : Condition} {pairs : List (String × Value)}
    {p : String × Value} (hp : p ∈ pairs) (hspares : g.Spares p.1) (h : ¬ g.IsConjunction) :
    (g.addEqualities pairs).Admits (· ≠ keyTest p.1) := by
  have hpairs : pairs ≠ [] := List.ne_nil_of_mem hp
  rw [isConjunction_iff, not_or] at h
  obtain ⟨hempty, hmany⟩ := h
  rcases reading_addEqualities g hpairs with ⟨hnone, -⟩ | ⟨ds, fs, hbefore, hafter⟩
  · exact absurd hnone hempty
  · cases ds with
    | nil => exact absurd ⟨fs, hbefore⟩ hmany
    | cons first ds =>
        rw [admits_addEqualities_iff hpairs, hafter]
        refine anyHolds_iff.mpr ⟨first, by simp, fun f hf => ?_⟩
        have hmem : first ∈ g.reading := by simp [hbefore]
        obtain ⟨m, hm, rfl⟩ := mem_of_mem_alternatives hmem hf
        exact holds_of_mem_formulas g.members hspares m hm

/-- **Equalities hold for all rows that are found exactly if the condition before them is one
conjunction.** -/
theorem enforces_addEqualities_iff {g : Condition} {pairs : List (String × Value)}
    (hpairs : pairs ≠ []) (hspares : ∀ p ∈ pairs, g.Spares p.1) :
    (g.addEqualities pairs).Enforces (pairs.map fun p => keyTest p.1) ↔ g.IsConjunction := by
  constructor
  · intro henforces
    by_contra hmany
    obtain ⟨p, rest, rfl⟩ := List.exists_cons_of_ne_nil hpairs
    have hmem : p ∈ p :: rest := List.mem_cons_self
    have hrow := exists_admits_of_not_isConjunction hmem (hspares p hmem) hmany
    exact henforces _ hrow (keyTest p.1) List.mem_cons_self rfl
  · exact enforces_of_isConjunction

theorem enforces_congr {g : Condition} {tests tests' : List Atom}
    (h : ∀ a, a ∈ tests ↔ a ∈ tests') : g.Enforces tests ↔ g.Enforces tests' := by
  simp only [Enforces, h]

end Condition

end SqlBuilder
