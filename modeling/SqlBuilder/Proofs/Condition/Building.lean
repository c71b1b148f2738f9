import SqlBuilder.Proofs.Condition.Rendering
import SqlBuilder.Proofs.SortedMap

/-!
# Conditions as they are built

A condition is `Sound` if its texts are tidy and every name that it uses is bound.  Calls whose
texts are tidy keep it so, at any depth: the values of a nested condition join those of the enclosing
one, and what is bound once stays bound (`extends_applyAll`).  The comparisons of the tree are those
of the calls, in order.
-/

namespace SqlBuilder

open Placeholder

/-! ## Calls -/

mutual

/-- The texts of a call close their quotes, and placeholders stand only in raw texts, which bind
those that they use.  A column that is compared with a value has a name. -/
def WhereCall.Tidy : WhereCall → Prop
  | .compare _ column operator _ => Inert column ∧ Inert operator ∧ column ≠ ""
  | .all pairs => ∀ p ∈ pairs, Inert p.1 ∧ p.1 ≠ ""
  | .among _ _ column _ => Inert column
  | .null _ _ column => Inert column
  | .raw _ sql bindings => Closes sql ∧ ∀ name ∈ names (pieces sql), name ∈ bindings.map Prod.fst
  | .group _ calls => TidyCalls calls

def TidyCalls : List WhereCall → Prop
  | [] => True
  | call :: calls => call.Tidy ∧ TidyCalls calls

end

mutual

/-- The comparisons that a call adds. -/
def WhereCall.comparisons : WhereCall → List Comparison
  | .compare _ column operator _ => [⟨column, operator⟩]
  | .all pairs => pairs.map fun p => ⟨p.1, "="⟩
  | .among .. => []
  | .null .. => []
  | .raw .. => []
  | .group _ calls => comparisonsOfCalls calls

def comparisonsOfCalls : List WhereCall → List Comparison
  | [] => []
  | call :: calls => call.comparisons ++ comparisonsOfCalls calls

end

/-! ## Sound conditions -/

namespace Condition

/-- The texts are tidy and the names that they use are bound. -/
structure Sound (g : Condition) : Prop where
  tidy : TidyAll g.members
  bound : ∀ name ∈ usedNamesOf g.members, g.params.contains name = true

theorem sound_empty : Sound empty :=
  ⟨trivial, fun _ h => nomatch h⟩

/-- One condition goes on from another: it has more predicates, and what was bound stays so. -/
structure Extends (g h : Condition) (added : List Comparison) : Prop where
  sound : Sound h
  comparisons : comparisonsOf h.members = comparisonsOf g.members ++ added
  contains : ∀ name, g.params.contains name = true → h.params.contains name = true

end Condition

theorem tidyAll_append {ms ns : List (Connective × Predicate)} :
    TidyAll (ms ++ ns) ↔ TidyAll ms ∧ TidyAll ns := by
  induction ms with
  | nil => simp [TidyAll]
  | cons m ms ih => simp [TidyAll, ih, and_assoc]

theorem usedNamesOf_append (ms ns : List (Connective × Predicate)) :
    usedNamesOf (ms ++ ns) = usedNamesOf ms ++ usedNamesOf ns := by
  induction ms with
  | nil => rfl
  | cons m ms ih => simp [usedNamesOf, ih]

theorem comparisonsOf_append (ms ns : List (Connective × Predicate)) :
    comparisonsOf (ms ++ ns) = comparisonsOf ms ++ comparisonsOf ns := by
  induction ms with
  | nil => rfl
  | cons m ms ih => simp [comparisonsOf, ih]

namespace Condition

theorem Extends.refl {g : Condition} (h : g.Sound) : g.Extends g [] :=
  ⟨h, (List.append_nil _).symm, fun _ hname => hname⟩

theorem Extends.trans {g h k : Condition} {cs ds : List Comparison} (hg : g.Extends h cs)
    (hh : h.Extends k ds) : g.Extends k (cs ++ ds) := by
  refine ⟨hh.sound, ?_, fun name hname => hh.contains name (hg.contains name hname)⟩
  rw [hh.comparisons, hg.comparisons, List.append_assoc]

/-- Whatever predicate is added, the condition before it is still there. -/
theorem contains_add {g : Condition} (c : Connective) (p : Predicate) {name : String}
    (h : g.params.contains name = true) : (g.add c p).params.contains name = true := by
  cases p with
  | group members inner => exact SortedMap.contains_merge.mpr (.inr h)
  | basic column operator operand => exact h
  | raw sql => exact h

/-- A tidy predicate may be added once its names are bound. -/
theorem extends_add {g : Condition} (hg : g.Sound) (c : Connective) {p : Predicate} (hp : p.Tidy)
    (hbound : ∀ name ∈ p.usedNames, (g.add c p).params.contains name = true) :
    g.Extends (g.add c p) p.comparisons := by
  refine ⟨⟨?_, ?_⟩, ?_, fun name => contains_add c p⟩
  · rw [members_add, tidyAll_append]
    exact ⟨hg.tidy, hp, trivial⟩
  · intro name hname
    rw [members_add, usedNamesOf_append, List.mem_append] at hname
    rcases hname with hname | hname
    · exact contains_add c p (hg.bound name hname)
    · exact hbound name (by simpa [usedNamesOf] using hname)
  · rw [members_add, comparisonsOf_append]
    simp [comparisonsOf]

/-- Binding more names leaves a condition as it is. -/
theorem extends_bind {g : Condition} (hg : g.Sound) (name : String) (v : Value) :
    g.Extends (g.bind name v) [] := by
  have hkeep : ∀ n, g.params.contains n = true → (g.bind name v).params.contains n = true :=
    fun n hn => SortedMap.contains_insert.mpr (.inr hn)
  exact ⟨⟨hg.tidy, fun n hn => hkeep n (hg.bound n hn)⟩, (List.append_nil _).symm, hkeep⟩

theorem members_bindAll (g : Condition) (bindings : List (String × Value)) :
    (bindings.foldl (fun g p => g.bind p.1 p.2) g).members = g.members := by
  induction bindings generalizing g with
  | nil => rfl
  | cons p bindings ih => exact ih (g.bind p.1 p.2)

theorem extends_bindAll {g : Condition} (hg : g.Sound) (bindings : List (String × Value)) :
    g.Extends (bindings.foldl (fun g p => g.bind p.1 p.2) g) [] ∧
      ∀ name ∈ bindings.map Prod.fst,
        (bindings.foldl (fun g p => g.bind p.1 p.2) g).params.contains name = true := by
  induction bindings generalizing g with
  | nil => exact ⟨.refl hg, fun _ h => nomatch h⟩
  | cons p bindings ih =>
      -- the names behind `p` do not unbind it
      have hbind := extends_bind hg p.1 p.2
      obtain ⟨hrest, hnames⟩ := ih hbind.sound
      refine ⟨hbind.trans hrest, fun name hname => ?_⟩
      rcases List.mem_cons.mp hname with rfl | hname
      · exact hrest.contains _ (SortedMap.contains_insert.mpr (.inl rfl))
      · exact hnames name hname

/-! ## One call -/

theorem extends_addComparison {g : Condition} (hg : g.Sound) (c : Connective)
    {column operator : String} (v : Value) (hcolumn : Inert column) (hoperator : Inert operator)
    (hne : column ≠ "") :
    g.Extends (g.addComparison c column operator v) [⟨column, operator⟩] := by
  -- the value is bound before the predicate that uses its name is there
  have hbind := extends_bind hg (keyOf column) v
  refine hbind.trans (extends_add hbind.sound c ⟨hcolumn, hoperator, hne, rfl⟩ ?_)
  intro name hname
  rw [List.mem_singleton.mp hname]
  exact SortedMap.contains_insert.mpr (.inl rfl)

theorem extends_addEqualities {g : Condition} (hg : g.Sound) {pairs : List (String × Value)}
    (h : ∀ p ∈ pairs, Inert p.1 ∧ p.1 ≠ "") :
    g.Extends (g.addEqualities pairs) (pairs.map fun p => ⟨p.1, "="⟩) := by
  induction pairs generalizing g with
  | nil => exact .refl hg
  | cons p pairs ih =>
      obtain ⟨hcolumn, hne⟩ := h p List.mem_cons_self
      have hfirst := extends_addComparison hg .and p.2 hcolumn
        (by decide +kernel : Inert "=") hne
      exact hfirst.trans (ih hfirst.sound fun q hq => h q (List.mem_cons_of_mem p hq))

/-- An empty list of values needs no column; it is a raw text without placeholders. -/
theorem extends_addMembership {g : Condition} (hg : g.Sound) (c : Connective) (negated : Bool)
    {column : String} (values : List Value) (hcolumn : Inert column) :
    g.Extends (g.addMembership c negated column values) [] := by
  cases values with
  | nil =>
      have hconstant : Inert (if negated then "1=1" else "1=0") := by
        cases negated <;> decide +kernel
      refine extends_add hg c hconstant.closes fun name hname => ?_
      have hname : name ∈ names (pieces (if negated then "1=1" else "1=0")) := hname
      rw [hconstant.noNames] at hname
      exact nomatch hname
  | cons v values =>
      have hoperator : Inert (if negated then "NOT IN" else "IN") := by
        cases negated <;> decide +kernel
      exact extends_add hg c ⟨hcolumn, hoperator⟩ fun name hname => nomatch hname

theorem extends_addNullTest {g : Condition} (hg : g.Sound) (c : Connective) (negated : Bool)
    {column : String} (hcolumn : Inert column) :
    g.Extends (g.addNullTest c negated column) [] := by
  have hoperator : Inert (if negated then "IS NOT NULL" else "IS NULL") := by
    cases negated <;> decide +kernel
  exact extends_add hg c ⟨hcolumn, hoperator⟩ fun name hname => nomatch hname

theorem extends_addText {g : Condition} (hg : g.Sound) (c : Connective) {sql : String}
    {bindings : List (String × Value)} (hsql : Closes sql)
    (hnames : ∀ name ∈ names (pieces sql), name ∈ bindings.map Prod.fst) :
    g.Extends (g.addText c sql bindings) [] := by
  obtain ⟨hbind, hbound⟩ := extends_bindAll hg bindings
  refine hbind.trans (extends_add hbind.sound c hsql fun name hname => ?_)
  exact hbound name (hnames name hname)

/-- A nested condition brings its values with it. -/
theorem extends_addNested {g h : Condition} (hg : g.Sound) (hh : h.Sound) (c : Connective) :
    g.Extends (g.add c h.nested) (comparisonsOf h.members) := by
  refine extends_add hg c hh.tidy fun name hname => ?_
  exact SortedMap.contains_merge.mpr (.inl (hh.bound name hname))

/-! ## Any calls -/

mutual

theorem extends_apply : (call : WhereCall) → {g : Condition} → g.Sound → call.Tidy →
    g.Extends (g.apply call) call.comparisons
  | .compare c column operator v, g, hg, h => extends_addComparison hg c v h.1 h.2.1 h.2.2
  | .all pairs, g, hg, h => extends_addEqualities hg h
  | .among c negated column values, g, hg, h => extends_addMembership hg c negated values h
  | .null c negated column, g, hg, h => extends_addNullTest hg c negated h
  | .raw c sql bindings, g, hg, h => extends_addText hg c h.1 h.2
  | .group c calls, g, hg, h => by
      -- the calls inside start from nothing, whatever the condition around them holds
      have hinner := extends_applyAll calls sound_empty h
      have hnested := extends_addNested hg hinner.sound c
      rwa [hinner.comparisons] at hnested

/-- **Tidy calls keep a condition sound**, and what they add are their comparisons, in order. -/
theorem extends_applyAll : (calls : List WhereCall) → {g : Condition} → g.Sound →
    TidyCalls calls → g.Extends (g.applyAll calls) (comparisonsOfCalls calls)
  | [], g, hg, _ => .refl hg
  | call :: calls, g, hg, h => by
      have hfirst := extends_apply call hg h.1
      exact hfirst.trans (extends_applyAll calls hfirst.sound h.2)

end

/-! ## The clause -/

/-- What a sound condition adds to a statement. -/
theorem Sound.carries_whereClause {g : Condition} (h : g.Sound) :
    Carries g.whereClause (usedNamesOf g.members) (comparisonsOf g.members) ∧
      Continues g.whereClause := by
  have hrender : Carries g.render (usedNamesOf g.members) (comparisonsOf g.members) :=
    carries_joinFragments g.members h.tidy
  have hclause : g.whereClause = if g.render.isEmpty then "" else " WHERE " ++ g.render := rfl
  rw [hclause]
  split
  · next hempty =>
    rw [String.isEmpty_iff.mp hempty] at hrender
    exact ⟨hrender, fun c hc => nomatch hc⟩
  · have hwhere : IsDivider " WHERE " := by decide +kernel
    exact ⟨.plain_append hwhere.plain hrender, hwhere.continues_append _⟩

end Condition

end SqlBuilder
