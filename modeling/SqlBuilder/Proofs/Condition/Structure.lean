import SqlBuilder.Proofs.Condition.Grammar
import SqlBuilder.Proofs.Condition.Rendering

/-!
# Conditions as they are read

What a condition is written as is read back as the tree that was written.  Empty predicates vanish
at every level (`pruneAll`) and take their connectives with them; what remains of a list is split
before each `OR`, and what remains of a nested list is one operand (`Condition.reads_tokens`).  So
the tokens say all about a tree but its empty predicates and the connectives that are not written
(`Condition.skeleton`).
-/

namespace SqlBuilder

/-! ## What is written -/

/-- Each but the first behind its connective. -/
def joinTokens : List (Connective × List Token) → List Token
  | [] => []
  | (_, ts) :: rest => ts ++ rest.flatMap fun p => .connective p.1 :: p.2

/-- A nested list stands in parentheses, unless there is nothing in it. -/
def enclosed (ts : List Token) : List Token :=
  if ts.isEmpty then [] else .opening :: (ts ++ [.closing])

mutual

/-- The tokens of a predicate. -/
def Predicate.tokens : Predicate → List Token
  | .basic column operator operand => [.test (.comparison column operator operand)]
  | .raw sql => if sql.isEmpty then [] else [.test (.text sql)]
  | .group members _ => enclosed (joinTokens (tokenLists members))

/-- The tokens of predicates that have some, with their connectives. -/
def tokenLists : List (Connective × Predicate) → List (Connective × List Token)
  | [] => []
  | (c, p) :: rest =>
    if p.tokens.isEmpty then tokenLists rest else (c, p.tokens) :: tokenLists rest

end

/-- The tokens of a condition. -/
def Condition.tokens (g : Condition) : List Token :=
  joinTokens (tokenLists g.members)

/-! ## Empty predicates -/

theorem joinTokens_eq_nil_iff {l : List (Connective × List Token)} (h : ∀ t ∈ l, t.2 ≠ []) :
    joinTokens l = [] ↔ l = [] := by
  cases l with
  | nil => simp [joinTokens]
  | cons t l =>
      have ht : t.2 ≠ [] := h t List.mem_cons_self
      simp [joinTokens, ht]

theorem enclosed_eq_nil_iff {ts : List Token} : enclosed ts = [] ↔ ts = [] := by
  cases ts <;> simp [enclosed]

theorem tokenLists_cons_of_nil {c : Connective} {p : Predicate}
    {rest : List (Connective × Predicate)} (h : p.tokens = []) :
    tokenLists ((c, p) :: rest) = tokenLists rest := by
  rw [tokenLists, h]
  rfl

theorem tokenLists_cons_of_ne_nil {c : Connective} {p : Predicate}
    {rest : List (Connective × Predicate)} (h : p.tokens ≠ []) :
    tokenLists ((c, p) :: rest) = (c, p.tokens) :: tokenLists rest := by
  rw [tokenLists, if_neg (by simpa using h)]

theorem ne_nil_of_mem_tokenLists {ms : List (Connective × Predicate)} :
    ∀ t ∈ tokenLists ms, t.2 ≠ [] := by
  induction ms with
  | nil => simp [tokenLists]
  | cons m ms ih =>
      obtain ⟨c, p⟩ := m
      by_cases hp : p.tokens = []
      · rw [tokenLists_cons_of_nil hp]
        exact ih
      · rw [tokenLists_cons_of_ne_nil hp]
        exact List.forall_mem_cons.mpr ⟨hp, ih⟩

mutual

theorem Predicate.tokens_eq_nil_iff : (p : Predicate) → p.tokens = [] ↔ p.isEmpty = true
  | .basic .. => by simp [Predicate.tokens, Predicate.isEmpty]
  | .raw sql => by simp [Predicate.tokens, Predicate.isEmpty]
  | .group members _ => by
      rw [Predicate.tokens, Predicate.isEmpty, enclosed_eq_nil_iff,
        joinTokens_eq_nil_iff ne_nil_of_mem_tokenLists, tokenLists_eq_nil_iff members]

theorem tokenLists_eq_nil_iff :
    (ms : List (Connective × Predicate)) → tokenLists ms = [] ↔ allEmpty ms = true
  | [] => by simp [tokenLists, allEmpty]
  | (c, p) :: rest => by
      have hp := p.tokens_eq_nil_iff
      rw [allEmpty, Bool.and_eq_true, ← hp, ← tokenLists_eq_nil_iff rest]
      by_cases h : p.tokens = []
      · rw [tokenLists_cons_of_nil h]
        simp [h]
      · rw [tokenLists_cons_of_ne_nil h]
        simp [h]

end

theorem joinTokens_tokenLists_eq_nil_iff (ms : List (Connective × Predicate)) :
    joinTokens (tokenLists ms) = [] ↔ allEmpty ms = true := by
  rw [joinTokens_eq_nil_iff ne_nil_of_mem_tokenLists, tokenLists_eq_nil_iff]

/-- Nothing is written for a condition exactly if there is nothing to write. -/
theorem Condition.tokens_eq_nil_iff (g : Condition) : g.tokens = [] ↔ g.isEmpty = true :=
  joinTokens_tokenLists_eq_nil_iff g.members

/-! ## The text -/

theorem Predicate.render_basic_ne_empty (column operator : String) (operand : Operand) :
    (Predicate.basic column operator operand).render ≠ "" := by
  intro h
  have hlength := congrArg String.length h
  simp [Predicate.render] at hlength

theorem parenthesised_eq_empty_iff {s : String} : parenthesised s = "" ↔ s = "" := by
  unfold parenthesised
  split
  · next h => simp [String.isEmpty_iff.mp h]
  · next h =>
    have hne : s ≠ "" := fun e => h (String.isEmpty_iff.mpr e)
    simp [hne]

theorem joinFragments_eq_empty_iff {fs : List (Connective × String)} (h : ∀ f ∈ fs, f.2 ≠ "") :
    joinFragments fs = "" ↔ fs = [] := by
  cases fs with
  | nil => simp [joinFragments]
  | cons f fs =>
      have hf : f.2 ≠ "" := h f List.mem_cons_self
      simp [joinFragments, hf]

theorem ne_empty_of_mem_fragments {ms : List (Connective × Predicate)} :
    ∀ f ∈ fragments ms, f.2 ≠ "" := by
  induction ms with
  | nil => simp [fragments]
  | cons m ms ih =>
      obtain ⟨c, p⟩ := m
      by_cases hp : p.render = ""
      · rw [fragments_cons_of_empty hp]
        exact ih
      · rw [fragments_cons_of_ne_empty hp]
        exact List.forall_mem_cons.mpr ⟨hp, ih⟩

mutual

theorem Predicate.render_eq_empty_iff : (p : Predicate) → p.render = "" ↔ p.isEmpty = true
  | .basic column operator operand => by
      simp [Predicate.render_basic_ne_empty column operator operand, Predicate.isEmpty]
  | .raw sql => by simp [Predicate.render, Predicate.isEmpty]
  | .group members _ => by
      rw [Predicate.render, Predicate.isEmpty, parenthesised_eq_empty_iff,
        joinFragments_eq_empty_iff ne_empty_of_mem_fragments, fragments_eq_nil_iff members]

theorem fragments_eq_nil_iff :
    (ms : List (Connective × Predicate)) → fragments ms = [] ↔ allEmpty ms = true
  | [] => by simp [fragments, allEmpty]
  | (c, p) :: rest => by
      have hp := p.render_eq_empty_iff
      rw [allEmpty, Bool.and_eq_true, ← hp, ← fragments_eq_nil_iff rest]
      by_cases h : p.render = ""
      · rw [fragments_cons_of_empty h]
        simp [h]
      · rw [fragments_cons_of_ne_empty h]
        simp [h]

end

theorem spell_flatMap (l : List (Connective × List Token)) :
    spell (l.flatMap fun p => .connective p.1 :: p.2)
      = connected (l.map fun p => (p.1, spell p.2)) := by
  induction l with
  | nil => rfl
  | cons p l ih =>
      rw [List.map_cons, connected_cons, List.flatMap_cons, spell_append, ih, spell_cons]
      rfl

theorem spell_joinTokens (l : List (Connective × List Token)) :
    spell (joinTokens l) = joinFragments (l.map fun p => (p.1, spell p.2)) := by
  cases l with
  | nil => rfl
  | cons p l =>
      rw [joinTokens, spell_append, spell_flatMap]
      rfl

theorem spell_enclosed {ts : List Token} (h : ts ≠ []) (hspell : spell ts ≠ "") :
    spell (enclosed ts) = parenthesised (spell ts) := by
  have hnot : ¬ (spell ts).isEmpty = true := fun e => hspell (String.isEmpty_iff.mp e)
  rw [enclosed, if_neg (by simpa using h), parenthesised, if_neg hnot, spell_cons, spell_append,
    ← String.append_assoc]
  rfl

mutual

theorem Predicate.spell_tokens : (p : Predicate) → spell p.tokens = p.render
  | .basic .. => spell_singleton _
  | .raw sql => by
      rw [Predicate.tokens, Predicate.render]
      split
      · next h => exact (String.isEmpty_iff.mp h).symm
      · exact spell_singleton _
  | .group members params => by
      have htext : spell (joinTokens (tokenLists members)) = joinFragments (fragments members) := by
        rw [spell_joinTokens, map_spell_tokenLists members]
      have hempty :
          joinTokens (tokenLists members) = [] ↔ joinFragments (fragments members) = "" := by
        rw [joinTokens_tokenLists_eq_nil_iff,
          joinFragments_eq_empty_iff ne_empty_of_mem_fragments, fragments_eq_nil_iff]
      rw [Predicate.tokens, Predicate.render]
      by_cases h : joinTokens (tokenLists members) = []
      · rw [h, hempty.mp h]
        rfl
      · rw [spell_enclosed h (htext ▸ mt hempty.mpr h), htext]

theorem map_spell_tokenLists : (ms : List (Connective × Predicate)) →
    (tokenLists ms).map (fun p => (p.1, spell p.2)) = fragments ms
  | [] => rfl
  | (c, p) :: rest => by
      have hp := p.spell_tokens
      have hrest := map_spell_tokenLists rest
      by_cases h : p.isEmpty = true
      · rw [tokenLists_cons_of_nil (p.tokens_eq_nil_iff.mpr h),
          fragments_cons_of_empty (p.render_eq_empty_iff.mpr h), hrest]
      · rw [tokenLists_cons_of_ne_nil (mt p.tokens_eq_nil_iff.mp h),
          fragments_cons_of_ne_empty (mt p.render_eq_empty_iff.mp h), List.map_cons, hp, hrest]

end

/-- The text of a condition is that of its tokens. -/
theorem Condition.spell_tokens (g : Condition) : spell g.tokens = g.render := by
  rw [tokens, spell_joinTokens, map_spell_tokenLists, render]

/-! ## The tree that is left -/

mutual

/-- A predicate without the empty ones in it. -/
def Predicate.prune : Predicate → Predicate
  | .basic column operator operand => .basic column operator operand
  | .raw sql => .raw sql
  | .group members params => .group (pruneAll members) params

/-- The predicates that are not empty, without the empty ones in them. -/
def pruneAll : List (Connective × Predicate) → List (Connective × Predicate)
  | [] => []
  | (c, p) :: rest => if p.isEmpty then pruneAll rest else (c, p.prune) :: pruneAll rest

end

mutual

/-- What a predicate is as an operand: a nested list is one operand, split before each `OR`. -/
def Predicate.formula : Predicate → Formula
  | .basic column operator operand => .test (.comparison column operator operand)
  | .raw sql => .test (.text sql)
  | .group members _ => .nested (alternatives (formulas members))

def formulas : List (Connective × Predicate) → List (Connective × Formula)
  | [] => []
  | (c, p) :: rest => (c, p.formula) :: formulas rest

end

/-- The reading that is meant: the conjunctions of what is left of the list. -/
def Condition.reading (g : Condition) : List (List Formula) :=
  alternatives (formulas (pruneAll g.members))

/-! ## Reading the tokens -/

theorem joinTokens_cons_cons (c d : Connective) (ts us : List Token)
    (l : List (Connective × List Token)) :
    joinTokens ((c, ts) :: (d, us) :: l) = ts ++ .connective d :: joinTokens ((d, us) :: l) := by
  simp [joinTokens]

/-- An operand with others behind it. -/
theorem readsCondition_joinTokens_cons {c : Connective} {ts : List Token} {f : Formula}
    {l : List (Connective × List Token)} {fs : List (Connective × Formula)}
    (hfirst : ReadsOperand ts f)
    (hrest : List.Forall₂ (fun t f => t.1 = f.1 ∧ ReadsOperand t.2 f.2) l fs) :
    ReadsCondition (joinTokens ((c, ts) :: l)) (alternatives ((c, f) :: fs)) := by
  induction hrest generalizing c ts f with
  | nil =>
      rw [joinTokens, List.flatMap_nil, List.append_nil]
      exact .one (.one hfirst)
  | @cons t g l fs hhead _ ih =>
      obtain ⟨d, us⟩ := t
      obtain ⟨e, g⟩ := g
      obtain ⟨rfl, hus⟩ := hhead
      rw [joinTokens_cons_cons]
      cases d with
      | and =>
          rw [alternatives_and]
          exact .and_first hfirst (ih hus)
      | or =>
          rw [alternatives_or]
          exact .or (.one hfirst) (ih hus)

/-- Operands one behind the other are read as the alternatives of what each is read as. -/
theorem readsCondition_joinTokens {l : List (Connective × List Token)}
    {fs : List (Connective × Formula)} (hne : joinTokens l ≠ [])
    (heach : List.Forall₂ (fun t f => t.1 = f.1 ∧ ReadsOperand t.2 f.2) l fs) :
    ReadsCondition (joinTokens l) (alternatives fs) := by
  cases heach with
  | nil => exact absurd rfl hne
  | @cons t f _ _ hhead htail =>
      obtain ⟨c, ts⟩ := t
      obtain ⟨d, f⟩ := f
      obtain ⟨rfl, hfirst⟩ := hhead
      exact readsCondition_joinTokens_cons hfirst htail

mutual

theorem Predicate.reads_tokens : (p : Predicate) → p.isEmpty = false →
    ReadsOperand p.tokens p.prune.formula
  | .basic column operator operand, _ => .test (.comparison column operator operand)
  | .raw sql, h => by
      have hsql : ¬ sql.isEmpty = true := Bool.eq_false_iff.mp h
      rw [Predicate.tokens, if_neg hsql]
      exact .test (.text sql)
  | .group members _, h => by
      have hne : joinTokens (tokenLists members) ≠ [] :=
        mt (joinTokens_tokenLists_eq_nil_iff members).mp (Bool.eq_false_iff.mp h)
      rw [Predicate.tokens, enclosed, if_neg (by simpa using hne)]
      exact .nested (readsCondition_joinTokens hne (reads_tokenLists members))

theorem reads_tokenLists : (ms : List (Connective × Predicate)) →
    List.Forall₂ (fun t f => t.1 = f.1 ∧ ReadsOperand t.2 f.2) (tokenLists ms)
      (formulas (pruneAll ms))
  | [] => .nil
  | (c, p) :: rest => by
      have hrest := reads_tokenLists rest
      by_cases h : p.isEmpty = true
      · rw [tokenLists_cons_of_nil (p.tokens_eq_nil_iff.mpr h), pruneAll, if_pos h]
        exact hrest
      · rw [tokenLists_cons_of_ne_nil (mt p.tokens_eq_nil_iff.mp h), pruneAll, if_neg h]
        exact .cons ⟨rfl, p.reads_tokens (Bool.eq_false_iff.mpr h)⟩ hrest

end

/-- **What is written for a condition has the reading that is meant.** -/
theorem Condition.reads_tokens {g : Condition} (h : g.isEmpty = false) :
    ReadsCondition g.tokens g.reading :=
  readsCondition_joinTokens (mt g.tokens_eq_nil_iff.mp (Bool.eq_false_iff.mp h))
    (reads_tokenLists g.members)

theorem ReadsOperand.ne_nil {ts : List Token} {f : Formula} (h : ReadsOperand ts f) : ts ≠ [] := by
  cases h <;> simp

theorem ReadsCondition.ne_nil {ts : List Token} {ds : List (List Formula)}
    (h : ReadsCondition ts ds) : ts ≠ [] := by
  cases h with
  | or => simp
  | one h =>
      cases h with
      | and => simp
      | one h => exact h.ne_nil

theorem ReadsCondition.reading_ne_nil {ts : List Token} {ds : List (List Formula)}
    (h : ReadsCondition ts ds) : ds ≠ [] := by
  cases h <;> simp

/-- The meant reading is the only one, and a condition has none only if it is empty. -/
theorem Condition.readsCondition_iff {g : Condition} {ds : List (List Formula)} :
    ReadsCondition g.tokens ds ↔ g.isEmpty = false ∧ ds = g.reading := by
  constructor
  · intro h
    have hempty : g.isEmpty = false :=
      Bool.eq_false_iff.mpr (mt g.tokens_eq_nil_iff.mpr h.ne_nil)
    exact ⟨hempty, h.unique (reads_tokens hempty)⟩
  · rintro ⟨hempty, rfl⟩
    exact reads_tokens hempty

theorem Condition.reading_eq_nil_iff (g : Condition) : g.reading = [] ↔ g.isEmpty = true := by
  constructor
  · intro h
    by_contra hempty
    have hread := reads_tokens (Bool.eq_false_iff.mpr hempty)
    exact hread.reading_ne_nil h
  · intro h
    have heach := reads_tokenLists g.members
    rw [(tokenLists_eq_nil_iff g.members).mpr h] at heach
    rw [reading, List.forall₂_nil_left_iff.mp heach, alternatives_nil]

/-- Two conditions are written with the same tokens exactly if they are read alike. -/
theorem Condition.tokens_eq_iff_reading (g h : Condition) :
    g.tokens = h.tokens ↔ g.reading = h.reading := by
  by_cases hg : g.isEmpty = true
  · rw [g.tokens_eq_nil_iff.mpr hg, g.reading_eq_nil_iff.mpr hg, @eq_comm _ [] h.tokens,
      @eq_comm _ [] h.reading, h.tokens_eq_nil_iff, h.reading_eq_nil_iff]
  · have hread := reads_tokens (Bool.eq_false_iff.mpr hg)
    constructor
    · intro htokens
      rw [htokens] at hread
      exact (readsCondition_iff.mp hread).2
    · intro hreading
      rw [hreading] at hread
      have hh : h.isEmpty = false := by
        rw [Bool.eq_false_iff, Ne, ← h.reading_eq_nil_iff, ← hreading, g.reading_eq_nil_iff]
        exact hg
      exact hread.tokens_eq (reads_tokens hh)

/-! ## Trees with one text -/

mutual

/-- A predicate as far as its text shows: the first connective of each list is taken for `AND`, and
values are left out. -/
def Predicate.neutral : Predicate → Predicate
  | .basic column operator operand => .basic column operator operand
  | .raw sql => .raw sql
  | .group members _ => .group (leadingAnd (neutralAll members)) .empty

def neutralAll : List (Connective × Predicate) → List (Connective × Predicate)
  | [] => []
  | (c, p) :: rest => (c, p.neutral) :: neutralAll rest

end

mutual

theorem Predicate.formula_eq_iff :
    (p q : Predicate) → p.formula = q.formula ↔ p.neutral = q.neutral
  | .basic .., .basic .. => by simp [Predicate.formula, Predicate.neutral]
  | .raw _, .raw _ => by simp [Predicate.formula, Predicate.neutral]
  | .group ms _, .group ns _ => by
      have hmembers := leading_formulas_eq_iff ms ns
      simp [Predicate.formula, Predicate.neutral, alternatives_eq_iff, hmembers]
  | .basic .., .raw _ => by simp [Predicate.formula, Predicate.neutral]
  | .basic .., .group _ _ => by simp [Predicate.formula, Predicate.neutral]
  | .raw _, .basic .. => by simp [Predicate.formula, Predicate.neutral]
  | .raw _, .group _ _ => by simp [Predicate.formula, Predicate.neutral]
  | .group _ _, .basic .. => by simp [Predicate.formula, Predicate.neutral]
  | .group _ _, .raw _ => by simp [Predicate.formula, Predicate.neutral]

theorem formulas_eq_iff : (ms ns : List (Connective × Predicate)) →
    (formulas ms = formulas ns ↔ neutralAll ms = neutralAll ns)
  | [], [] => by simp [formulas, neutralAll]
  | [], _ :: _ => by simp [formulas, neutralAll]
  | _ :: _, [] => by simp [formulas, neutralAll]
  | (c, p) :: ms, (d, q) :: ns => by
      simp [formulas, neutralAll, p.formula_eq_iff q, formulas_eq_iff ms ns]

theorem leading_formulas_eq_iff : (ms ns : List (Connective × Predicate)) →
    (leadingAnd (formulas ms) = leadingAnd (formulas ns)
      ↔ leadingAnd (neutralAll ms) = leadingAnd (neutralAll ns))
  | [], [] => by simp [formulas, neutralAll]
  | [], _ :: _ => by simp [formulas, neutralAll, leadingAnd]
  | _ :: _, [] => by simp [formulas, neutralAll, leadingAnd]
  | (c, p) :: ms, (d, q) :: ns => by
      simp [formulas, neutralAll, leadingAnd, p.formula_eq_iff q, formulas_eq_iff ms ns]

end

/-- What is left of a condition without its empty predicates, up to leading connectives. -/
def Condition.skeleton (g : Condition) : List (Connective × Predicate) :=
  leadingAnd (neutralAll (pruneAll g.members))

theorem Condition.reading_eq_iff (g h : Condition) :
    g.reading = h.reading ↔ g.skeleton = h.skeleton := by
  rw [reading, reading, alternatives_eq_iff, leading_formulas_eq_iff, skeleton, skeleton]

theorem Condition.whereClause_eq (g : Condition) :
    g.whereClause = if g.isEmpty then "" else " WHERE " ++ spell g.tokens := by
  have hempty : g.render = "" ↔ g.isEmpty = true := by
    rw [render, joinFragments_eq_empty_iff ne_empty_of_mem_fragments, fragments_eq_nil_iff, isEmpty]
  simp only [whereClause, String.isEmpty_iff, hempty, g.spell_tokens]

/-- **What is written for a condition is the tree that was built.**  The text is that of the tokens;
tests apart, SQL reads them in one way, as the tree without its empty predicates; and two trees are
written with the same tokens exactly if the same is left of them up to leading connectives. -/
theorem Condition.rendering_preserves_structure (g h : Condition) :
    g.render = spell g.tokens
      ∧ g.whereClause = (if g.isEmpty then "" else " WHERE " ++ spell g.tokens)
      ∧ (g.tokens = [] ↔ g.isEmpty = true)
      ∧ (∀ ds, ReadsCondition g.tokens ds ↔ g.isEmpty = false ∧ ds = g.reading)
      ∧ (g.tokens = h.tokens ↔ g.skeleton = h.skeleton) := by
  refine ⟨g.spell_tokens.symm, g.whereClause_eq, g.tokens_eq_nil_iff, ?_, ?_⟩
  · intro ds
    exact readsCondition_iff
  · rw [tokens_eq_iff_reading, reading_eq_iff]

-- The leading `OR` and the empty list are not written; the nested `OR` stays in its parentheses.
example :
    let a := Atom.comparison "a" "=" (.bound "a")
    let b := Atom.comparison "b" "=" (.bound "b")
    let c := Atom.text "c IS NULL"
    let nested := Predicate.group [(.and, b.predicate), (.or, c.predicate)] .empty
    Condition.reading ⟨[(.or, .group [] .empty), (.or, a.predicate), (.and, nested)], .empty⟩
      = [[.test a, .nested [[.test b], [.test c]]]] := by
  rfl

end SqlBuilder
