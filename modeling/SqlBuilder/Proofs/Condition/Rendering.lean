import SqlBuilder.Condition.Call
import SqlBuilder.Proofs.Value.Literal

/-!
# Conditions as they are written

A condition is written as one text, but the scanner must find in it what its predicates put there:
every comparison with a placeholder behind it, no other placeholder than those of comparisons and of
raw texts, and no quote left open.  `Carries` says this of a text in a way that survives being put
beside other texts; the rest is induction over the tree (`carries_render`).
-/

namespace SqlBuilder

open Placeholder

/-! ## What a tree binds -/

/-- A comparison of a column with the value bound to its key. -/
structure Comparison where
  column : String
  operator : String

mutual

/-- The comparisons of a predicate, in order. -/
def Predicate.comparisons : Predicate → List Comparison
  | .basic column operator (.bound _) => [⟨column, operator⟩]
  | .basic .. => []
  | .raw _ => []
  | .group members _ => comparisonsOf members

def comparisonsOf : List (Connective × Predicate) → List Comparison
  | [] => []
  | (_, p) :: rest => p.comparisons ++ comparisonsOf rest

end

mutual

/-- The names that a predicate uses: those of its comparisons and those in raw texts. -/
def Predicate.usedNames : Predicate → List String
  | .basic _ _ (.bound key) => [key]
  | .basic .. => []
  | .raw sql => names (pieces sql)
  | .group members _ => usedNamesOf members

def usedNamesOf : List (Connective × Predicate) → List String
  | [] => []
  | (_, p) :: rest => p.usedNames ++ usedNamesOf rest

end

mutual

/-- The texts in a predicate close their quotes, and only raw ones hold placeholders. -/
def Predicate.Tidy : Predicate → Prop
  | .basic column operator (.bound key) =>
    Inert column ∧ Inert operator ∧ column ≠ "" ∧ key = keyOf column
  | .basic column operator _ => Inert column ∧ Inert operator
  | .raw sql => Closes sql
  | .group members _ => TidyAll members

def TidyAll : List (Connective × Predicate) → Prop
  | [] => True
  | (_, p) :: rest => p.Tidy ∧ TidyAll rest

end

/-! ## Tests without a placeholder -/

theorem isDivider_connective (c : Connective) : IsDivider (" " ++ c.keyword ++ " ") := by
  cases c <;> decide +kernel

theorem inert_columnOperator {column operator : String} (hcolumn : Inert column)
    (hoperator : Inert operator) : Inert (column ++ " " ++ operator) := by
  rw [String.append_assoc]
  exact hcolumn.append (inert_plain_append isDivider_blank.plain hoperator)
    (isDivider_blank.continues_append operator)

theorem inert_test {column operator operand : String} (hcolumn : Inert column)
    (hoperator : Inert operator) (hoperand : Inert operand) (hcont : Continues operand) :
    Inert (column ++ " " ++ operator ++ operand) :=
  (inert_columnOperator hcolumn hoperator).append hoperand hcont

theorem inert_comparison {first operator second : String} (hfirst : Inert first)
    (hoperator : Inert operator) (hsecond : Inert second) :
    Inert (first ++ " " ++ operator ++ " " ++ second) := by
  have h := inert_test hfirst hoperator (inert_plain_append isDivider_blank.plain hsecond)
    (isDivider_blank.continues_append second)
  rwa [← String.append_assoc] at h

/-- Whatever values are listed, their literals hold no placeholder and hide none. -/
theorem inert_inline (values : List Value) :
    Inert (Operand.inline values).render ∧ Continues (Operand.inline values).render := by
  have hvalues : Inert (", ".intercalate (values.map Value.literal)) := by
    refine inert_intercalate isDivider_comma fun s hs => ?_
    obtain ⟨v, -, rfl⟩ := List.mem_map.mp hs
    exact v.inert_literal
  rw [Operand.render, String.append_assoc]
  refine ⟨?_, isDivider_open.continues_append _⟩
  exact inert_plain_append isDivider_open.plain
    (hvalues.append isDivider_close.plain.inert isDivider_close.continues)

/-! ## Texts with comparisons in them -/

/-- The pieces are empty or begin with a separator. -/
def BeginsApart (ps : List Piece) : Prop := ∀ p ∈ ps.head?, ∃ c, p = .copied c ∧ IsSeparator c

/-- The comparisons stand in the pieces one behind the other, each with its placeholder and nothing
that would go on with the placeholder's name. -/
def Occur : List Comparison → List Piece → Prop
  | [], _ => True
  | c :: cs, ps => ∃ before behind, BeginsApart behind ∧ Occur cs behind ∧
    ps = before
      ++ (copy (c.column ++ " " ++ c.operator ++ " ").toList ++ .slot (keyOf c.column) :: behind)

/-- The text closes its quotes, uses the names and holds the comparisons. -/
structure Carries (s : String) (used : List String) (comparisons : List Comparison) : Prop where
  closes : Closes s
  names : names (pieces s) = used
  occur : Occur comparisons (pieces s)

theorem beginsApart_pieces {s : String} (h : Continues s) : BeginsApart (pieces s) := by
  intro p hp
  unfold pieces at hp
  cases hs : s.toList with
  | nil => simp [hs, scan, run, after, finish] at hp
  | cons c cs =>
      have hc : IsSeparator c := h c (by rw [hs]; rfl)
      rw [hs, scan_cons, step_separator outside_code hc] at hp
      exact ⟨c, (Option.some.inj hp).symm, hc⟩

theorem Occur.append_left {cs : List Comparison} {qs : List Piece} (h : Occur cs qs)
    (ps : List Piece) : Occur cs (ps ++ qs) := by
  cases cs with
  | nil => trivial
  | cons c cs =>
      obtain ⟨before, behind, hbehind, hrest, rfl⟩ := h
      exact ⟨ps ++ before, behind, hbehind, hrest, (List.append_assoc _ _ _).symm⟩

theorem Occur.append {cs ds : List Comparison} {ps qs : List Piece} (hps : Occur cs ps)
    (hqs : Occur ds qs) (hapart : BeginsApart qs) : Occur (cs ++ ds) (ps ++ qs) := by
  induction cs generalizing ps with
  | nil => exact hqs.append_left ps
  | cons c cs ih =>
      obtain ⟨before, behind, hbehind, hrest, rfl⟩ := hps
      refine ⟨before, behind ++ qs, ?_, ih hrest, by simp⟩
      -- behind the last placeholder the pieces may now go on with `qs`
      cases behind with
      | nil => exact hapart
      | cons p behind => exact hbehind

/-- Only the empty list of comparisons stands in no pieces. -/
theorem Occur.eq_nil {cs : List Comparison} (h : Occur cs []) : cs = [] := by
  cases cs with
  | nil => rfl
  | cons c cs =>
      obtain ⟨before, behind, -, -, hnil⟩ := h
      simp at hnil

namespace Carries

theorem of_closes {s : String} (h : Closes s) : Carries s (Placeholder.names (pieces s)) [] :=
  ⟨h, rfl, trivial⟩

theorem of_inert {s : String} (h : Inert s) : Carries s [] [] :=
  ⟨h.closes, h.noNames, trivial⟩

theorem append {a b : String} {used more : List String} {cs ds : List Comparison}
    (ha : Carries a used cs) (hb : Carries b more ds) (hcont : Continues b) :
    Carries (a ++ b) (used ++ more) (cs ++ ds) := by
  refine ⟨ha.closes.append hb.closes hcont, ?_, ?_⟩
  · rw [names_pieces_append ha.closes hcont, ha.names, hb.names]
  · rw [pieces_append ha.closes hcont]
    exact ha.occur.append hb.occur (beginsApart_pieces hcont)

theorem plain_append {a b : String} {used : List String} {cs : List Comparison} (ha : Plain a)
    (hb : Carries b used cs) : Carries (a ++ b) used cs := by
  refine ⟨closes_plain_append ha hb.closes, ?_, ?_⟩
  · rw [names_pieces_plain_append ha, hb.names]
  · rw [pieces_plain_append ha]
    exact hb.occur.append_left _

/-- An empty text carries nothing, so what it carries may be left out. -/
theorem empty_append {s : String} {used more : List String} {cs ds : List Comparison}
    (h : Carries "" used cs) (hs : Carries s more ds) : Carries s (used ++ more) (cs ++ ds) := by
  obtain ⟨-, hnames, hoccur⟩ := h
  have hpieces : pieces "" = [] := by decide +kernel
  rw [hpieces] at hnames hoccur
  obtain rfl := hnames
  obtain rfl := hoccur.eq_nil
  exact hs

theorem inert_append {a b : String} {used : List String} {cs : List Comparison} (ha : Inert a)
    (hb : Carries b used cs) (hcont : Continues b) : Carries (a ++ b) used cs :=
  (of_inert ha).append hb hcont

theorem append_inert {a b : String} {used : List String} {cs : List Comparison}
    (ha : Carries a used cs) (hb : Inert b) (hcont : Continues b) : Carries (a ++ b) used cs := by
  have h := ha.append (of_inert hb) hcont
  rwa [List.append_nil, List.append_nil] at h

/-- A column, an operator and the column's placeholder. -/
theorem comparison {column operator : String} (hcolumn : Inert column)
    (hoperator : Inert operator) (hne : column ≠ "") :
    Carries (column ++ " " ++ operator ++ (" :" ++ keyOf column)) [keyOf column]
      [⟨column, operator⟩] := by
  have hkey : IsKey (keyOf column) := isKey_keyOf hne
  have hslot : " :" ++ keyOf column = " " ++ (":" ++ keyOf column) := by
    rw [← String.append_assoc]
    rfl
  have hcont : Continues (" " ++ (":" ++ keyOf column)) :=
    isDivider_blank.continues_append _
  have htext := inert_columnOperator hcolumn hoperator
  have hpieces : pieces (column ++ " " ++ operator ++ (" " ++ (":" ++ keyOf column)))
      = copy (column ++ " " ++ operator ++ " ").toList ++ [.slot (keyOf column)] := by
    rw [pieces_append htext.closes hcont, htext.pieces, pieces_plain_append isDivider_blank.plain,
      pieces_slot hkey, ← List.append_assoc, ← copy_append, ← String.toList_append]
  have hcloses := closes_plain_append isDivider_blank.plain (closes_slot hkey)
  rw [hslot]
  refine ⟨htext.closes.append hcloses hcont, ?_, ?_⟩
  · rw [hpieces, names_append, names_copy]
    rfl
  · rw [hpieces]
    exact ⟨[], [], fun p hp => (nomatch hp), trivial, rfl⟩

theorem parenthesised {s : String} {used : List String} {cs : List Comparison}
    (h : Carries s used cs) : Carries (SqlBuilder.parenthesised s) used cs := by
  unfold SqlBuilder.parenthesised
  split
  · next hempty =>
    rw [String.isEmpty_iff.mp hempty] at h
    exact h
  · rw [String.append_assoc]
    exact plain_append (by decide +kernel)
      (h.append_inert isDivider_close.plain.inert isDivider_close.continues)

end Carries

/-! ## The tree -/

/-- Fragments behind others, each with its connective. -/
def connected (fs : List (Connective × String)) : String :=
  String.join (fs.map fun p => " " ++ p.1.keyword ++ " " ++ p.2)

theorem connected_cons (c : Connective) (text : String) (fs : List (Connective × String)) :
    connected ((c, text) :: fs) = " " ++ c.keyword ++ " " ++ text ++ connected fs :=
  String.join_cons

theorem fragments_cons_of_empty {c : Connective} {p : Predicate}
    {rest : List (Connective × Predicate)} (h : p.render = "") :
    fragments ((c, p) :: rest) = fragments rest := by
  rw [fragments, h]
  rfl

theorem fragments_cons_of_ne_empty {c : Connective} {p : Predicate}
    {rest : List (Connective × Predicate)} (h : p.render ≠ "") :
    fragments ((c, p) :: rest) = (c, p.render) :: fragments rest := by
  have hempty : ¬ p.render.isEmpty = true := fun e => h (String.isEmpty_iff.mp e)
  rw [fragments, if_neg hempty]

theorem fragments_append (ms ns : List (Connective × Predicate)) :
    fragments (ms ++ ns) = fragments ms ++ fragments ns := by
  induction ms with
  | nil => rfl
  | cons m ms ih =>
      obtain ⟨c, p⟩ := m
      rw [List.cons_append]
      by_cases h : p.render = ""
      · rw [fragments_cons_of_empty h, fragments_cons_of_empty h, ih]
      · rw [fragments_cons_of_ne_empty h, fragments_cons_of_ne_empty h, ih, List.cons_append]

theorem continues_connected (fs : List (Connective × String)) : Continues (connected fs) := by
  cases fs with
  | nil =>
      intro c hc
      simp [connected] at hc
  | cons f fs =>
      rw [connected_cons, String.append_assoc]
      exact (isDivider_connective f.1).continues_append _

theorem Carries.connect {c : Connective} {text : String} {fs : List (Connective × String)}
    {used more : List String} {cs ds : List Comparison} (h : Carries text used cs)
    (hrest : Carries (connected fs) more ds) :
    Carries (connected ((c, text) :: fs)) (used ++ more) (cs ++ ds) := by
  rw [connected_cons]
  exact (plain_append (isDivider_connective c).plain h).append hrest (continues_connected fs)

mutual

/-- A tidy predicate's text carries its comparisons and its names, and no others. -/
theorem carries_render : (p : Predicate) → p.Tidy → Carries p.render p.usedNames p.comparisons
  | .basic column operator (.bound key), h => by
      obtain ⟨hcolumn, hoperator, hne, rfl⟩ := h
      exact .comparison hcolumn hoperator hne
  | .basic _ _ (.inline values), h =>
      have hvalues := inert_inline values
      .of_inert (inert_test h.1 h.2 hvalues.1 hvalues.2)
  | .basic _ _ .empty, h => .of_inert (inert_test h.1 h.2 inert_empty fun _ hc => nomatch hc)
  | .raw sql, h => .of_closes h
  | .group members _, h => (carries_joinFragments members h).parenthesised

/-- The predicates behind others. -/
theorem carries_connected : (ms : List (Connective × Predicate)) → TidyAll ms →
    Carries (connected (fragments ms)) (usedNamesOf ms) (comparisonsOf ms)
  | [], _ => .of_inert inert_empty
  | (c, p) :: rest, h => by
      obtain ⟨hp, hrest⟩ := h
      have hrender := carries_render p hp
      have htail := carries_connected rest hrest
      -- a predicate without a text is left out with its connective, and carries nothing
      by_cases hempty : p.render = ""
      · rw [fragments_cons_of_empty hempty]
        rw [hempty] at hrender
        exact hrender.empty_append htail
      · rw [fragments_cons_of_ne_empty hempty]
        exact hrender.connect htail

theorem carries_joinFragments : (ms : List (Connective × Predicate)) → TidyAll ms →
    Carries (joinFragments (fragments ms)) (usedNamesOf ms) (comparisonsOf ms)
  | [], _ => .of_inert inert_empty
  | (c, p) :: rest, h => by
      obtain ⟨hp, hrest⟩ := h
      have hrender := carries_render p hp
      by_cases hempty : p.render = ""
      · rw [fragments_cons_of_empty hempty]
        rw [hempty] at hrender
        exact hrender.empty_append (carries_joinFragments rest hrest)
      · rw [fragments_cons_of_ne_empty hempty]
        exact hrender.append (carries_connected rest hrest) (continues_connected _)

end

end SqlBuilder
