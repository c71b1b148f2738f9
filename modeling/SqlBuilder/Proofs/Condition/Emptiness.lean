import Mathlib.Logic.Relation
import SqlBuilder.Proofs.Condition.Structure

/-!
# Predicates that are not written

A predicate is empty exactly if nothing is written for it, and so is a condition
(`Predicate.render_eq_empty_iff`).  Empty predicates may be put in and taken out anywhere in a tree,
with either connective: the fragments that are left are the same ones (`fragments_of_padded`), and
the first of them stands without its connective whatever was before it.  So `WHERE` is written once
in front of the fragments if there are any, and not at all without one
(`Condition.emptiness_agrees_with_rendering`).
-/

namespace SqlBuilder

/-! ## Empty predicates put in -/

/-- The second list is the first with an empty predicate put in: in the list, or in one nested in
it. -/
inductive Padded : List (Connective × Predicate) → List (Connective × Predicate) → Prop
  | here {before behind : List (Connective × Predicate)} {c : Connective} {p : Predicate} :
    p.isEmpty = true → Padded (before ++ behind) (before ++ (c, p) :: behind)
  | inside {before behind ms ns : List (Connective × Predicate)} {c : Connective}
      {params params' : Bindings} :
    Padded ms ns →
      Padded (before ++ (c, .group ms params) :: behind) (before ++ (c, .group ns params') :: behind)

/-- Predicates that are written alike are the same fragment. -/
theorem fragments_cons_congr {c : Connective} {p q : Predicate}
    (h : p.render = q.render) (rest : List (Connective × Predicate)) :
    fragments ((c, p) :: rest) = fragments ((c, q) :: rest) := by
  rw [fragments, fragments, h]

/-- One empty predicate more makes no fragment. -/
theorem fragments_of_padded {ms ns : List (Connective × Predicate)} (h : Padded ms ns) :
    fragments ms = fragments ns := by
  induction h with
  | here hempty =>
      rw [fragments_append, fragments_append,
        fragments_cons_of_empty (Predicate.render_eq_empty_iff _ |>.mpr hempty)]
  | @inside before behind ms ns c params params' _ ih =>
      have hrender : (Predicate.group ms params).render = (Predicate.group ns params').render := by
        rw [Predicate.render, Predicate.render, ih]
      rw [fragments_append, fragments_append, fragments_cons_congr hrender]

/-- Nor do any number of them, put in or taken out one after the other. -/
theorem fragments_of_eqvGen_padded {ms ns : List (Connective × Predicate)}
    (h : Relation.EqvGen Padded ms ns) : fragments ms = fragments ns := by
  induction h with
  | rel _ _ h => exact fragments_of_padded h
  | refl => rfl
  | symm _ _ _ ih => exact ih.symm
  | trans _ _ _ _ _ ih ih' => exact ih.trans ih'

/-! ## Tests -/

mutual

/-- The texts of the tests in a predicate, at any depth. -/
def Predicate.testTexts : Predicate → List String
  | .basic column operator operand => [column ++ " " ++ operator ++ operand.render]
  | .raw sql => [sql]
  | .group members _ => testTextsOf members

def testTextsOf : List (Connective × Predicate) → List String
  | [] => []
  | (_, p) :: rest => p.testTexts ++ testTextsOf rest

end

mutual

/-- A predicate is empty if all its tests are. -/
theorem Predicate.isEmpty_iff_testTexts : (p : Predicate) →
    (p.isEmpty = true ↔ ∀ text ∈ p.testTexts, text = "")
  | .basic column operator operand => by
      simp [Predicate.isEmpty, Predicate.testTexts]
  | .raw sql => by simp [Predicate.isEmpty, Predicate.testTexts]
  | .group members _ => by
      rw [Predicate.isEmpty, Predicate.testTexts, allEmpty_iff_testTexts members]

theorem allEmpty_iff_testTexts : (ms : List (Connective × Predicate)) →
    (allEmpty ms = true ↔ ∀ text ∈ testTextsOf ms, text = "")
  | [] => by simp [allEmpty, testTextsOf]
  | (_, p) :: rest => by
      rw [allEmpty, Bool.and_eq_true, p.isEmpty_iff_testTexts, allEmpty_iff_testTexts rest,
        testTextsOf, List.forall_mem_append]

end

/-! ## Occurrences of a word -/

/-- How many places of a text the word begins at. -/
def occurrences (word : List Char) : List Char → Nat
  | [] => 0
  | c :: cs => (if word.isPrefixOf (c :: cs) then 1 else 0) + occurrences word cs

section Occurrences

variable {word : List Char} {c : Char}

/-- A word does not reach over a character that is not in it. -/
theorem isPrefixOf_append_cons (hc : c ∉ word) (as bs : List Char) :
    word.isPrefixOf (as ++ c :: bs) = word.isPrefixOf as := by
  rw [Bool.eq_iff_iff, List.isPrefixOf_iff_prefix, List.isPrefixOf_iff_prefix]
  refine ⟨fun h => ?_, fun h => h.trans (List.prefix_append _ _)⟩
  rcases List.prefix_or_prefix_of_prefix h (List.prefix_append as (c :: bs)) with h' | ⟨cs, rfl⟩
  · exact h'
  · cases cs with
    | nil => exact (List.append_nil as).symm ▸ List.prefix_refl as
    | cons d cs =>
        rw [List.prefix_append_right_inj, List.cons_prefix_cons] at h
        exact absurd (by simp [h.1]) hc

/-- So the occurrences on both sides of such a character are all there are. -/
theorem occurrences_append_cons (hc : c ∉ word) (hword : word ≠ []) (as bs : List Char) :
    occurrences word (as ++ c :: bs) = occurrences word as + occurrences word bs := by
  induction as with
  | nil =>
      obtain ⟨d, ds, rfl⟩ := List.exists_cons_of_ne_nil hword
      have hnone : (d :: ds).isPrefixOf (c :: bs) = false := isPrefixOf_append_cons hc [] bs
      show (if (d :: ds).isPrefixOf (c :: bs) then 1 else 0) + occurrences (d :: ds) bs
        = 0 + occurrences (d :: ds) bs
      rw [hnone]
      rfl
  | cons a as ih =>
      rw [List.cons_append, occurrences, occurrences, ih, ← List.cons_append,
        isPrefixOf_append_cons hc, Nat.add_assoc]

end Occurrences

/-- How often `WHERE` is written in a text. -/
def wheresIn (text : String) : Nat :=
  occurrences ['W', 'H', 'E', 'R', 'E'] text.toList

/-- How often it is written in several. -/
def wheresInAll : List String → Nat
  | [] => 0
  | text :: texts => wheresIn text + wheresInAll texts

theorem wheresInAll_append (texts more : List String) :
    wheresInAll (texts ++ more) = wheresInAll texts + wheresInAll more := by
  induction texts with
  | nil => exact (Nat.zero_add _).symm
  | cons text texts ih => rw [List.cons_append, wheresInAll, wheresInAll, ih, Nat.add_assoc]

/-- A connective between two texts adds none. -/
theorem wheresIn_connect (a : String) (c : Connective) (b : String) :
    wheresIn (a ++ (" " ++ c.keyword ++ " " ++ b)) = wheresIn a + wheresIn b := by
  have htext : (a ++ (" " ++ c.keyword ++ " " ++ b)).toList
      = a.toList ++ ' ' :: (c.keyword.toList ++ ' ' :: b.toList) := by
    simp [String.toList_append]
  have hkeyword : occurrences ['W', 'H', 'E', 'R', 'E'] c.keyword.toList = 0 := by
    cases c <;> rfl
  rw [wheresIn, htext, occurrences_append_cons (by decide) (by decide),
    occurrences_append_cons (by decide) (by decide), hkeyword, Nat.zero_add]
  rfl

theorem wheresIn_connected (a : String) (fs : List (Connective × String)) :
    wheresIn (a ++ connected fs) = wheresIn a + wheresInAll (fs.map Prod.snd) := by
  induction fs generalizing a with
  | nil => rw [connected, List.map_nil, String.join_nil, String.append_empty]; rfl
  | cons f fs ih =>
      rw [connected_cons, ← String.append_assoc, ih, wheresIn_connect, List.map_cons,
        wheresInAll, Nat.add_assoc]

theorem wheresIn_joinFragments (fs : List (Connective × String)) :
    wheresIn (joinFragments fs) = wheresInAll (fs.map Prod.snd) := by
  cases fs with
  | nil => rfl
  | cons f fs => exact wheresIn_connected f.2 fs

theorem wheresIn_parenthesised (s : String) : wheresIn (parenthesised s) = wheresIn s := by
  unfold parenthesised
  split
  · next h => rw [String.isEmpty_iff.mp h]
  · have htext : ("(" ++ s ++ ")").toList = [] ++ '(' :: (s.toList ++ ')' :: []) := by
      simp [String.toList_append]
    rw [wheresIn, htext, occurrences_append_cons (by decide) (by decide),
      occurrences_append_cons (by decide) (by decide)]
    exact Nat.zero_add _

theorem wheresIn_clause (s : String) : wheresIn (" WHERE " ++ s) = 1 + wheresIn s := by
  have htext : (" WHERE " ++ s).toList
      = [' ', 'W', 'H', 'E', 'R', 'E'] ++ ' ' :: s.toList := by
    simp [String.toList_append]
  rw [wheresIn, htext, occurrences_append_cons (by decide) (by decide)]
  rfl

mutual

/-- A predicate writes the word only where its tests do. -/
theorem Predicate.wheresIn_render : (p : Predicate) →
    wheresIn p.render = wheresInAll p.testTexts
  | .basic .. => (Nat.add_zero _).symm
  | .raw _ => (Nat.add_zero _).symm
  | .group members _ => by
      rw [Predicate.render, wheresIn_parenthesised, wheresIn_joinFragments,
        wheresIn_fragments members, Predicate.testTexts]

theorem wheresIn_fragments : (ms : List (Connective × Predicate)) →
    wheresInAll ((fragments ms).map Prod.snd) = wheresInAll (testTextsOf ms)
  | [] => rfl
  | (c, p) :: rest => by
      have hp := p.wheresIn_render
      rw [testTextsOf, wheresInAll_append, ← hp, ← wheresIn_fragments rest]
      by_cases h : p.render = ""
      · rw [fragments_cons_of_empty h, h]
        exact (Nat.zero_add _).symm
      · rw [fragments_cons_of_ne_empty h, List.map_cons, wheresInAll]

end

/-! ## The theorem -/

namespace Condition

theorem render_eq_empty_iff (g : Condition) : g.render = "" ↔ g.isEmpty = true := by
  rw [render, joinFragments_eq_empty_iff ne_empty_of_mem_fragments, fragments_eq_nil_iff, isEmpty]

theorem whereClause_of_isEmpty {g : Condition} (h : g.isEmpty = true) : g.whereClause = "" := by
  rw [whereClause, g.render_eq_empty_iff.mpr h]
  rfl

theorem whereClause_of_not_isEmpty {g : Condition} (h : ¬ g.isEmpty = true) :
    g.whereClause = " WHERE " ++ g.render := by
  have hrender : ¬ g.render.isEmpty = true := by
    rw [String.isEmpty_iff, g.render_eq_empty_iff]
    exact h
  exact if_neg hrender

/-- The clause is the keyword and the fragments, or nothing. -/
theorem whereClause_eq_ite (g : Condition) :
    g.whereClause = if g.isEmpty then "" else " WHERE " ++ g.render := by
  split
  · next h => exact whereClause_of_isEmpty h
  · next h => exact whereClause_of_not_isEmpty h

theorem whereClause_eq_empty_iff (g : Condition) : g.whereClause = "" ↔ g.isEmpty = true := by
  refine ⟨fun h => ?_, whereClause_of_isEmpty⟩
  by_contra hempty
  rw [whereClause_of_not_isEmpty hempty] at h
  exact absurd (String.append_eq_empty_iff.mp h).1 (by decide)

theorem wheresIn_whereClause (g : Condition) :
    wheresIn g.whereClause
      = (if g.isEmpty then 0 else 1) + wheresInAll (testTextsOf g.members) := by
  have hrender : wheresIn g.render = wheresInAll (testTextsOf g.members) := by
    rw [render, wheresIn_joinFragments, wheresIn_fragments]
  rw [← hrender]
  split
  · next h =>
    rw [whereClause_of_isEmpty h, g.render_eq_empty_iff.mpr h]
    rfl
  · next h => rw [whereClause_of_not_isEmpty h, wheresIn_clause]

/-- **Emptiness agrees with what is written.**  A predicate is empty exactly if its text is, and so
is a condition, whose clause is empty then too; that is so exactly if all tests in it are empty.
Otherwise the clause is `WHERE` in front of the fragments, and the word stands nowhere else but in
the tests themselves.  Empty predicates that are put in or taken out anywhere in the tree change
neither text nor clause. -/
theorem emptiness_agrees_with_rendering :
    (∀ p : Predicate, (p.isEmpty = true ↔ p.render = "") ∧
      (p.isEmpty = true ↔ ∀ text ∈ p.testTexts, text = "")) ∧
    (∀ g : Condition, (g.isEmpty = true ↔ g.render = "") ∧
      (g.isEmpty = true ↔ g.whereClause = "") ∧
      (g.isEmpty = true ↔ ∀ text ∈ testTextsOf g.members, text = "") ∧
      g.whereClause = (if g.isEmpty then "" else " WHERE " ++ g.render) ∧
      wheresIn g.whereClause
        = (if g.isEmpty then 0 else 1) + wheresInAll (testTextsOf g.members)) ∧
    ∀ g h : Condition, Relation.EqvGen Padded g.members h.members →
      g.render = h.render ∧ g.whereClause = h.whereClause ∧ g.isEmpty = h.isEmpty := by
  refine ⟨fun p => ⟨p.render_eq_empty_iff.symm, p.isEmpty_iff_testTexts⟩, fun g => ?_, ?_⟩
  · exact ⟨g.render_eq_empty_iff.symm, g.whereClause_eq_empty_iff.symm,
      allEmpty_iff_testTexts g.members, g.whereClause_eq_ite, g.wheresIn_whereClause⟩
  · intro g h hpadded
    have hrender : g.render = h.render := by
      rw [render, render, fragments_of_eqvGen_padded hpadded]
    refine ⟨hrender, by rw [whereClause, whereClause, hrender], ?_⟩
    rw [Bool.eq_iff_iff, ← g.render_eq_empty_iff, ← h.render_eq_empty_iff, hrender]

/-- A nested group that holds empty predicates only is taken out of the front, and an empty test is
put into the group behind it: `a IS NULL`, connected by `OR`, is the first fragment before and
after. -/
theorem empty_group_before_first_fragment :
    let front := Predicate.group [(.and, .raw ""), (.or, .group [] .empty)] .empty
    let padded : Condition := ⟨[(.and, front), (.or, .group [(.or, .raw "a IS NULL")] .empty)], .empty⟩
    let bare : Condition :=
      ⟨[(.or, .group [(.and, .raw ""), (.or, .raw "a IS NULL")] .empty)], .empty⟩
    Relation.EqvGen Padded padded.members bare.members ∧
      padded.whereClause = " WHERE (a IS NULL)" ∧
      padded.render = bare.render ∧ padded.whereClause = bare.whereClause ∧
      padded.isEmpty = bare.isEmpty := by
  intro front padded bare
  have hfront : Relation.EqvGen Padded padded.members
      [(.or, .group [(.or, .raw "a IS NULL")] .empty)] :=
    .symm _ _ (.rel _ _ (@Padded.here [] _ _ _ (by rfl)))
  have hinside : Relation.EqvGen Padded [(.or, .group [(.or, .raw "a IS NULL")] .empty)]
      bare.members :=
    .rel _ _ (@Padded.inside [] _ _ _ _ _ _ (@Padded.here [] _ _ _ (by rfl)))
  have hpadded := hfront.trans _ _ _ hinside
  exact ⟨hpadded, by rfl, emptiness_agrees_with_rendering.2.2 padded bare hpadded⟩

end Condition

end SqlBuilder
