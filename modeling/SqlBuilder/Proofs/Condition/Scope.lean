import SqlBuilder.Proofs.Condition.Building
import SqlBuilder.Proofs.Condition.Restriction

/-!
# What a condition binds

A whole tree of conditions shares one set of names.  A nested condition is built apart, with values
of its own, and they join those of the enclosing one where it is attached, so the outcome is that of
binding one name after the other in the order in which the calls are read, whatever is nested
(`Condition.params_applyAll`).  A later value replaces an earlier one.

So a name that is bound somewhere in the tree is bound in every condition around that place, and
every comparison of the tree finds a value at its root (`Condition.bindings_in_reading_order`).
-/

namespace SqlBuilder

open Placeholder

/-! ## Calls in reading order -/

mutual

/-- The names that a call binds with their values, in the order in which they are read. -/
def WhereCall.bindings : WhereCall → List (String × Value)
  | .compare _ column _ v => [(keyOf column, v)]
  | .all pairs => pairs.map fun p => (keyOf p.1, p.2)
  | .among .. => []
  | .null .. => []
  | .raw _ _ bindings => bindings
  | .group _ calls => bindingsOfCalls calls

def bindingsOfCalls : List WhereCall → List (String × Value)
  | [] => []
  | call :: calls => call.bindings ++ bindingsOfCalls calls

end

/-- The calls inside `calls`: all of them, or those of a nested condition, at any depth. -/
inductive Nests : List WhereCall → List WhereCall → Prop
  | refl (calls : List WhereCall) : Nests calls calls
  | group {calls inner innermost : List WhereCall} {c : Connective} :
    .group c inner ∈ calls → Nests inner innermost → Nests calls innermost

theorem bindings_sublist {call : WhereCall} {calls : List WhereCall} (h : call ∈ calls) :
    call.bindings.Sublist (bindingsOfCalls calls) := by
  induction calls with
  | nil => exact nomatch h
  | cons first calls ih =>
      rw [bindingsOfCalls]
      rcases List.mem_cons.mp h with rfl | h
      · exact List.sublist_append_left _ _
      · exact (ih h).trans (List.sublist_append_right _ _)

/-- What calls inside bind is bound in its place among the others. -/
theorem Nests.bindings_sublist {calls inner : List WhereCall} (h : Nests calls inner) :
    (bindingsOfCalls inner).Sublist (bindingsOfCalls calls) := by
  induction h with
  | refl => exact .refl _
  | group hmem _ ih => exact ih.trans (SqlBuilder.bindings_sublist hmem)

namespace Condition

/-! ## The values of a tree -/

theorem params_bindAll (g : Condition) (bindings : List (String × Value)) :
    (bindings.foldl (fun g p => g.bind p.1 p.2) g).params = g.params.insertAll bindings := by
  induction bindings generalizing g with
  | nil => rfl
  | cons p bindings ih => exact ih (g.bind p.1 p.2)

theorem params_addEqualities (g : Condition) (pairs : List (String × Value)) :
    (g.addEqualities pairs).params
      = g.params.insertAll (pairs.map fun p => (keyOf p.1, p.2)) := by
  induction pairs generalizing g with
  | nil => rfl
  | cons p pairs ih => exact ih (g.addComparison .and p.1 "=" p.2)

/-- Literals in a list are written out, so nothing is bound for them. -/
theorem params_addMembership (g : Condition) (c : Connective) (negated : Bool) (column : String)
    (values : List Value) : (g.addMembership c negated column values).params = g.params := by
  cases values <;> rfl

mutual

theorem params_apply : (call : WhereCall) → (g : Condition) →
    (g.apply call).params = g.params.insertAll call.bindings
  | .compare c column operator v, g => params_addComparison g c column operator v
  | .all pairs, g => params_addEqualities g pairs
  | .among c negated column values, g => params_addMembership g c negated column values
  | .null c negated column, g => rfl
  | .raw c sql bindings, g => params_bindAll g bindings
  | .group c calls, g => by
      -- the nested condition has gathered its values before they join those of `g`
      have hinner : (applyAll empty calls).params = .ofList (bindingsOfCalls calls) :=
        params_applyAll calls empty
      show g.params.merge (applyAll empty calls).params = _
      rw [hinner, SortedMap.merge_ofList, WhereCall.bindings]

/-- **Calls bind their names one after the other**, those of a nested condition in its place. -/
theorem params_applyAll : (calls : List WhereCall) → (g : Condition) →
    (g.applyAll calls).params = g.params.insertAll (bindingsOfCalls calls)
  | [], g => rfl
  | call :: calls, g => by
      rw [applyAll, params_applyAll calls, params_apply call, bindingsOfCalls, SortedMap.insertAll_append]

end

/-! ## The predicates of a tree -/

/-- A call appends its own predicates, whatever is there before. -/
theorem members_apply (g : Condition) (call : WhereCall) :
    (g.apply call).members = g.members ++ (empty.apply call).members := by
  cases call with
  | compare c column operator v => rfl
  | all pairs => rw [apply, apply, members_addEqualities, members_addEqualities]; rfl
  | among c negated column values => cases values <;> rfl
  | null c negated column => rfl
  | raw c sql bindings =>
      rw [apply, apply, addText, addText, members_add, members_add, members_bindAll,
        members_bindAll]
      rfl
  | group c calls => rfl

theorem members_applyAll (g : Condition) (calls : List WhereCall) :
    (g.applyAll calls).members
      = g.members ++ calls.flatMap fun call => (empty.apply call).members := by
  induction calls generalizing g with
  | nil => exact (List.append_nil _).symm
  | cons call calls ih =>
      rw [applyAll, ih, members_apply, List.flatMap_cons, List.append_assoc]

theorem mem_members_applyAll {calls : List WhereCall} {m : Connective × Predicate} :
    m ∈ (empty.applyAll calls).members ↔ ∃ call ∈ calls, m ∈ (empty.apply call).members := by
  rw [members_applyAll, empty, List.nil_append, List.mem_flatMap]

theorem nested_inj {g h : Condition} : g.nested = h.nested ↔ g = h := by
  cases g
  cases h
  simp [nested]

/-- Only the call that nests a condition adds one. -/
theorem nested_mem_apply {call : WhereCall} {c : Connective} {h : Condition} :
    (c, h.nested) ∈ (empty.apply call).members
      ↔ ∃ inner, call = .group c inner ∧ h = empty.applyAll inner := by
  cases call with
  | compare d column operator v => simp [apply, addComparison, bind, empty, nested]
  | all pairs => simp [apply, members_addEqualities, keyTest, Atom.predicate, empty, nested]
  | among d negated column values => cases values <;> simp [apply, addMembership, empty, nested]
  | null d negated column => simp [apply, addNullTest, empty, nested]
  | raw d sql bindings => simp [apply, addText, members_bindAll, empty, nested]
  | group d inner =>
      have hmembers : (empty.apply (.group d inner)).members
          = [(d, (empty.applyAll inner).nested)] := rfl
      rw [hmembers, List.mem_singleton, Prod.mk.injEq, nested_inj]
      constructor
      · rintro ⟨rfl, rfl⟩
        exact ⟨inner, rfl, rfl⟩
      · rintro ⟨_, ⟨⟩, rfl⟩
        exact ⟨rfl, rfl⟩

/-- The comparisons that a call adds use the names of their columns, and those are bound. -/
theorem bound_mem_apply {call : WhereCall} {c : Connective} {column operator key : String}
    (h : (c, .basic column operator (.bound key)) ∈ (empty.apply call).members) :
    key = keyOf column ∧ key ∈ call.bindings.map Prod.fst := by
  cases call with
  | compare d other operator v =>
      cases List.mem_singleton.mp h
      exact ⟨rfl, List.mem_singleton.mpr rfl⟩
  | all pairs =>
      rw [apply, members_addEqualities, empty, List.nil_append] at h
      obtain ⟨p, hp, heq⟩ := List.mem_map.mp h
      cases heq
      exact ⟨rfl, List.mem_map_of_mem (List.mem_map_of_mem hp)⟩
  | among d negated other values => cases values <;> cases List.mem_singleton.mp h
  | null d negated other => cases List.mem_singleton.mp h
  | raw d sql bindings =>
      rw [apply, addText, members_add, members_bindAll] at h
      cases List.mem_singleton.mp h
  | group d inner => cases List.mem_singleton.mp h

/-! ## Conditions inside a condition -/

/-- `h` is the condition itself or one nested in it, at any depth. -/
inductive Encloses : Condition → Condition → Prop
  | refl (g : Condition) : Encloses g g
  | nested {g h k : Condition} {c : Connective} :
    (c, h.nested) ∈ g.members → Encloses h k → Encloses g k

/-- What is nested in a condition was built by the calls inside those that built it. -/
theorem encloses_applyAll_iff {calls : List WhereCall} {h : Condition} :
    (empty.applyAll calls).Encloses h ↔ ∃ inner, Nests calls inner ∧ h = empty.applyAll inner := by
  constructor
  · intro henc
    generalize hg : empty.applyAll calls = g at henc
    induction henc generalizing calls with
    | refl => exact ⟨calls, .refl calls, hg.symm⟩
    | nested hmem _ ih =>
        obtain ⟨call, hcall, hmem⟩ := mem_members_applyAll.mp (hg ▸ hmem)
        obtain ⟨inner, rfl, rfl⟩ := nested_mem_apply.mp hmem
        obtain ⟨innermost, hnests, hk⟩ := ih rfl
        exact ⟨innermost, .group hcall hnests, hk⟩
  · rintro ⟨inner, hnests, rfl⟩
    induction hnests with
    | refl calls => exact .refl _
    | group hmem _ ih =>
        exact .nested (mem_members_applyAll.mpr ⟨_, hmem, nested_mem_apply.mpr ⟨_, rfl, rfl⟩⟩) ih

theorem contains_applyAll {calls : List WhereCall} {name : String} :
    (empty.applyAll calls).params.contains name = true
      ↔ name ∈ (bindingsOfCalls calls).map Prod.fst := by
  rw [params_applyAll, SortedMap.contains_insertAll]
  exact or_iff_left Bool.false_ne_true

/-- A name that is bound inside a condition is bound in the condition. -/
theorem contains_of_encloses {calls : List WhereCall} {h : Condition}
    (henc : (empty.applyAll calls).Encloses h) {name : String}
    (hname : h.params.contains name = true) :
    (empty.applyAll calls).params.contains name = true := by
  obtain ⟨inner, hnests, rfl⟩ := encloses_applyAll_iff.mp henc
  rw [contains_applyAll] at hname ⊢
  exact (hnests.bindings_sublist.map Prod.fst).subset hname

/-- A comparison anywhere in the tree finds its value in the condition that it stands in. -/
theorem bound_of_mem_members {calls : List WhereCall} {c : Connective}
    {column operator key : String}
    (h : (c, .basic column operator (.bound key)) ∈ (empty.applyAll calls).members) :
    key = keyOf column ∧ (empty.applyAll calls).params.contains key = true := by
  obtain ⟨call, hcall, hmem⟩ := mem_members_applyAll.mp h
  obtain ⟨hkey, hbound⟩ := bound_mem_apply hmem
  refine ⟨hkey, contains_applyAll.mpr ?_⟩
  exact ((bindings_sublist hcall).map Prod.fst).subset hbound

/-! ## The theorem -/

/-- **A tree has one set of names, bound in reading order.**  The values of a condition that is built
from nothing are those of its calls, read from the left with nested calls in their place, and of two
values for one name the later counts.  The conditions nested in it are those of the calls inside, so
this holds of each of them.  What one of them binds is bound in every condition around it, the
comparisons of the tree use the names of their columns and find values up to the root, and lists of
literals and tests for null bind nothing. -/
theorem bindings_in_reading_order (calls : List WhereCall) :
    let g := empty.applyAll calls
    g.params = .ofList (bindingsOfCalls calls) ∧
    (∀ name, g.params.get? name = SortedMap.lastValue? name (bindingsOfCalls calls)) ∧
    (∀ h, g.Encloses h ↔ ∃ inner, Nests calls inner ∧ h = empty.applyAll inner) ∧
    (∀ h k, g.Encloses h → h.Encloses k →
      ∀ name, k.params.contains name = true → h.params.contains name = true) ∧
    (∀ h c column operator key, g.Encloses h →
      (c, .basic column operator (.bound key)) ∈ h.members →
        key = keyOf column ∧ ∃ v, g.params.get? key = some v) ∧
    ∀ f c negated column values, (apply f (.among c negated column values)).params = f.params ∧
      (apply f (.null c negated column)).params = f.params := by
  intro g
  have hparams : g.params = .ofList (bindingsOfCalls calls) := params_applyAll calls empty
  refine ⟨hparams, fun name => ?_, fun h => encloses_applyAll_iff, ?_, ?_, ?_⟩
  · rw [hparams, SortedMap.get?_ofList]
  · intro h k hh hk name hname
    obtain ⟨inner, -, rfl⟩ := encloses_applyAll_iff.mp hh
    exact contains_of_encloses hk hname
  · intro h c column operator key hh hmem
    obtain ⟨inner, -, rfl⟩ := encloses_applyAll_iff.mp hh
    obtain ⟨hkey, hbound⟩ := bound_of_mem_members hmem
    exact ⟨hkey, Option.isSome_iff_exists.mp (contains_of_encloses hh hbound)⟩
  · intro f c negated column values
    exact ⟨params_addMembership f c negated column values, rfl⟩

/-- What is bound two levels down replaces what stood before it, and is found at every level. -/
theorem nested_bindings_replace_earlier :
    let innermost : List WhereCall := [.equality .and "b" (.int 4)]
    let inner : List WhereCall :=
      [.raw .and "b = :b AND c = :a" [("b", .int 2), ("a", .int 3)], .group .or innermost]
    let calls : List WhereCall :=
      [.equality .and "a" (.int 1), .group .or inner, .among .and false "d" [.text "x"]]
    let g := empty.applyAll calls
    let h := empty.applyAll inner
    let k := empty.applyAll innermost
    bindingsOfCalls calls = [("a", .int 1), ("b", .int 2), ("a", .int 3), ("b", .int 4)] ∧
      g.params.get? "a" = some (.int 3) ∧ g.params.get? "b" = some (.int 4) ∧
      g.Encloses h ∧ h.Encloses k ∧ k.params.contains "b" = true ∧
      h.params.contains "b" = true ∧ ∃ v, g.params.get? "b" = some v := by
  intro innermost inner calls g h k
  obtain ⟨-, hvalues, hencloses, hcontains, hbound, -⟩ := bindings_in_reading_order calls
  have hinner : .group .or inner ∈ calls := List.mem_cons_of_mem _ List.mem_cons_self
  have hinnermost : .group .or innermost ∈ inner := List.mem_cons_of_mem _ List.mem_cons_self
  have hgh : g.Encloses h := (hencloses h).mpr ⟨inner, .group hinner (.refl inner), rfl⟩
  have hgk : g.Encloses k :=
    (hencloses k).mpr ⟨innermost, .group hinner (.group hinnermost (.refl innermost)), rfl⟩
  have hhk : h.Encloses k :=
    .nested (List.mem_cons_of_mem _ List.mem_cons_self) (.refl k)
  have hb : k.params.contains "b" = true := by decide +kernel
  refine ⟨rfl, ?_, ?_, hgh, hhk, hb, hcontains h k hgh hhk "b" hb, ?_⟩
  · rw [hvalues]
    rfl
  · rw [hvalues]
    rfl
  · exact (hbound k .and "b" "=" "b" hgk List.mem_cons_self).2

end Condition

end SqlBuilder
