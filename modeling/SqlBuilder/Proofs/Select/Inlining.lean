import SqlBuilder.Proofs.Database.Trace
import SqlBuilder.Proofs.Select.Building
import SqlBuilder.Proofs.Value.StringLiteral

/-!
# Values that are written out

Membership in a list and conditions on groups write their values into the statement as literals.
Wherever a call stands in a program, its literals stand in the statement each behind a blank or an
opening parenthesis and before something that is no quote (`Inlined`), which is all that the
server's reader and the scanner for placeholders need (`inlined_values_are_taken_whole`).
-/

namespace SqlBuilder

open Placeholder

variable {σ : Type}

/-! ## Literals in a text -/

/-- A value that is written out, with the text that is written in front of it. -/
structure Inlining where
  lead : String
  value : Value

/-- The values of a list with commas between them, and the text in front of the first. -/
def listed (lead : String) : List Value → List Inlining
  | [] => []
  | v :: vs => ⟨lead, v⟩ :: listed ", " vs

/-- The literals stand in the text one behind the other, each behind its lead, which ends in a blank
or an opening parenthesis, and before something that is no quote. -/
def Inlined : List Inlining → String → Prop
  | [], _ => True
  | i :: is, s => ∃ before behind, s = before ++ i.lead ++ i.value.literal ++ behind ∧
    EndsOpen i.lead ∧ behind.toList.head? ≠ some '\'' ∧ Inlined is behind

/-- The literals stand in the text one behind the other, each behind its lead, and each is taken for
its value alone: the server reads its text and stops behind it, and the scanner finds what stands
before it and behind it as if it were not there. -/
def TakenWhole : List Inlining → String → Prop
  | [], _ => True
  | i :: is, s => ∃ before behind, s = before ++ i.lead ++ i.value.literal ++ behind ∧
    (i.value.isQuoted = true → readLiteral? (i.value.literal ++ behind).toList
      = some (i.value.display.toList, behind.toList)) ∧
    (Closes (before ++ i.lead) →
      pieces s = pieces (before ++ i.lead) ++ copy i.value.literal.toList ++ pieces behind) ∧
    TakenWhole is behind

theorem EndsOpen.append_left {b : String} (h : EndsOpen b) (a : String) : EndsOpen (a ++ b) := by
  unfold EndsOpen at h ⊢
  rw [String.toList_append, List.getLast?_append]
  rcases h with h | h <;> simp [h]

/-- The text is empty or begins with a blank. -/
def BlankFirst (s : String) : Prop := ∀ c ∈ s.toList.head?, c = ' '

theorem BlankFirst.not_quote {s : String} (h : BlankFirst s) : s.toList.head? ≠ some '\'' := by
  intro hquote
  exact absurd (h '\'' hquote) (by decide)

theorem blankFirst_empty : BlankFirst "" := fun _ hc => nomatch hc

theorem head?_append {a : String} (ha : a ≠ "") (b : String) :
    (a ++ b).toList.head? = a.toList.head? := by
  rw [String.toList_append, List.head?_append_of_ne_nil]
  exact fun h => ha (String.toList_eq_nil_iff.mp h)

theorem BlankFirst.append {a b : String} (ha : BlankFirst a) (hb : BlankFirst b) :
    BlankFirst (a ++ b) := by
  by_cases hempty : a = ""
  · rwa [hempty, String.empty_append]
  · intro c hc
    rw [head?_append hempty] at hc
    exact ha c hc

/-- A clause behind its keyword. -/
theorem blankFirst_clause {keyword : String} (hkeyword : keyword.toList.head? = some ' ')
    (s : String) : BlankFirst (keyword ++ s) := by
  intro c hc
  have hne : keyword ≠ "" := by
    rintro rfl
    exact nomatch hkeyword
  rw [head?_append hne, hkeyword] at hc
  exact (Option.some.inj hc).symm

namespace Inlined

variable {is js : List Inlining} {a b : String}

theorem append_left (h : Inlined is b) (a : String) : Inlined is (a ++ b) := by
  cases is with
  | nil => trivial
  | cons i is =>
      obtain ⟨before, behind, rfl, hend, hnext, hrest⟩ := h
      refine ⟨a ++ before, behind, ?_, hend, hnext, hrest⟩
      simp only [String.append_assoc]

theorem append (ha : Inlined is a) (hb : Inlined js b) (hnext : b.toList.head? ≠ some '\'') :
    Inlined (is ++ js) (a ++ b) := by
  induction is generalizing a with
  | nil => exact hb.append_left a
  | cons i is ih =>
      obtain ⟨before, behind, rfl, hend, hbehind, hrest⟩ := ha
      refine ⟨before, behind ++ b, String.append_assoc, hend, ?_, ih hrest⟩
      -- what stands behind the literal now may be what was appended
      by_cases hempty : behind = ""
      · rwa [hempty, String.empty_append]
      · rwa [head?_append hempty]

theorem append_right (ha : Inlined is a) (hnext : b.toList.head? ≠ some '\'') :
    Inlined is (a ++ b) := by
  have hnone : Inlined [] b := trivial
  have h := ha.append hnone hnext
  rwa [List.append_nil] at h

/-- No literal stands in an empty text. -/
theorem eq_nil (h : Inlined is "") : is = [] := by
  cases is with
  | nil => rfl
  | cons i is =>
      obtain ⟨before, behind, heq, hend, -⟩ := h
      have hlead : i.lead = "" := by
        have hlist := congrArg String.toList heq
        simp only [String.toList_append, List.append_assoc, String.toList_empty,
          List.nil_eq, List.append_eq_nil_iff] at hlist
        exact String.toList_eq_nil_iff.mp hlist.2.1
      rw [hlead] at hend
      exact absurd hend (by decide)

/-- A list of literals with commas between them. -/
theorem intercalate {vs : List Value} (hend : EndsOpen a) (hnext : b.toList.head? ≠ some '\'') :
    Inlined (listed a vs) (a ++ ", ".intercalate (vs.map Value.literal) ++ b) := by
  induction vs generalizing a with
  | nil => trivial
  | cons v vs ih =>
      cases vs with
      | nil => exact ⟨"", b, by rw [String.empty_append]; rfl, hend, hnext, trivial⟩
      | cons w vs =>
          refine ⟨"", ", " ++ ", ".intercalate ((w :: vs).map Value.literal) ++ b, ?_, hend, ?_,
            ih (by decide +kernel)⟩
          · simp only [List.map_cons, String.intercalate_cons_cons, String.append_assoc,
              String.empty_append]
          · rw [String.append_assoc, head?_append (by decide)]
            decide +kernel

theorem takenWhole (h : Inlined is a) : TakenWhole is a := by
  induction is generalizing a with
  | nil => trivial
  | cons i is ih =>
      obtain ⟨before, behind, rfl, hend, hnext, hrest⟩ := h
      refine ⟨before, behind, rfl, fun hquoted => ?_, fun hcloses => ?_, ih hrest⟩
      · rw [String.toList_append]
        exact Value.readLiteral?_literal hquoted hnext
      · exact i.value.pieces_literal hcloses (hend.append_left before) behind

end Inlined

/-! ## Conditions -/

mutual

/-- The values that a predicate writes out, in order. -/
def Predicate.inlined : Predicate → List Inlining
  | .basic column operator (.inline values) => listed (column ++ " " ++ operator ++ " (") values
  | .basic .. => []
  | .raw _ => []
  | .group members _ => inlinedOf members

def inlinedOf : List (Connective × Predicate) → List Inlining
  | [] => []
  | (_, p) :: rest => p.inlined ++ inlinedOf rest

end

theorem inlinedOf_append (ms ns : List (Connective × Predicate)) :
    inlinedOf (ms ++ ns) = inlinedOf ms ++ inlinedOf ns := by
  induction ms with
  | nil => rfl
  | cons m ms ih =>
      obtain ⟨c, p⟩ := m
      rw [List.cons_append, inlinedOf, inlinedOf, ih, List.append_assoc]

theorem blankFirst_connected (fs : List (Connective × String)) : BlankFirst (connected fs) := by
  intro c hc
  cases fs with
  | nil => simp [connected] at hc
  | cons f fs =>
      rw [connected_cons, String.append_assoc, String.append_assoc, String.append_assoc,
        head?_append (by decide)] at hc
      exact (Option.some.inj hc).symm

theorem Inlined.parenthesised {is : List Inlining} {s : String} (h : Inlined is s) :
    Inlined is (SqlBuilder.parenthesised s) := by
  unfold SqlBuilder.parenthesised
  split
  · next hempty =>
    rw [String.isEmpty_iff.mp hempty] at h
    exact h
  · exact (h.append_left "(").append_right (by decide)

mutual

theorem Predicate.inlined_render : (p : Predicate) → Inlined p.inlined p.render
  | .basic column operator (.inline values) => by
      have hend : EndsOpen (column ++ " " ++ operator ++ " (") :=
        EndsOpen.append_left (by decide +kernel) _
      have htext : (Predicate.basic column operator (.inline values)).render
          = column ++ " " ++ operator ++ " (" ++ ", ".intercalate (values.map Value.literal)
            ++ ")" := by
        simp only [Predicate.render, Operand.render, String.append_assoc]
      rw [htext]
      exact .intercalate hend (by decide +kernel)
  | .basic _ _ (.bound _) => trivial
  | .basic _ _ .empty => trivial
  | .raw _ => trivial
  | .group members _ => (inlined_joinFragments members).parenthesised

theorem inlined_connected :
    (ms : List (Connective × Predicate)) → Inlined (inlinedOf ms) (connected (fragments ms))
  | [] => trivial
  | (c, p) :: rest => by
      have hp := p.inlined_render
      have hrest := inlined_connected rest
      by_cases hempty : p.render = ""
      · rw [hempty] at hp
        rw [fragments_cons_of_empty hempty, inlinedOf, hp.eq_nil]
        exact hrest
      · rw [fragments_cons_of_ne_empty hempty, connected_cons]
        exact (hp.append_left _).append hrest (blankFirst_connected _).not_quote

theorem inlined_joinFragments :
    (ms : List (Connective × Predicate)) → Inlined (inlinedOf ms) (joinFragments (fragments ms))
  | [] => trivial
  | (c, p) :: rest => by
      have hp := p.inlined_render
      by_cases hempty : p.render = ""
      · rw [hempty] at hp
        rw [fragments_cons_of_empty hempty, inlinedOf, hp.eq_nil]
        exact inlined_joinFragments rest
      · rw [fragments_cons_of_ne_empty hempty]
        exact hp.append (inlined_connected rest) (blankFirst_connected _).not_quote

end

theorem Condition.inlined_whereClause (g : Condition) :
    Inlined (inlinedOf g.members) g.whereClause := by
  have hrender : Inlined (inlinedOf g.members) g.render := inlined_joinFragments g.members
  have hclause : g.whereClause = if g.render.isEmpty then "" else " WHERE " ++ g.render := rfl
  rw [hclause]
  split
  · next hempty =>
    rw [String.isEmpty_iff.mp hempty] at hrender
    exact hrender
  · exact hrender.append_left " WHERE "

/-! ## Calls -/

mutual

/-- The values that a call has written out. -/
def WhereCall.inlined : WhereCall → List Inlining
  | .compare .. => []
  | .all _ => []
  | .among _ negated column values =>
    listed (column ++ " " ++ (if negated then "NOT IN" else "IN") ++ " (") values
  | .null .. => []
  | .raw .. => []
  | .group _ calls => inlinedOfCalls calls

def inlinedOfCalls : List WhereCall → List Inlining
  | [] => []
  | call :: calls => call.inlined ++ inlinedOfCalls calls

end

namespace Condition

theorem inlinedOf_add (g : Condition) (c : Connective) (p : Predicate) :
    inlinedOf (g.add c p).members = inlinedOf g.members ++ p.inlined := by
  rw [members_add, inlinedOf_append, inlinedOf, inlinedOf, List.append_nil]

theorem inlinedOf_addEqualities (g : Condition) (pairs : List (String × Value)) :
    inlinedOf (g.addEqualities pairs).members = inlinedOf g.members := by
  induction pairs generalizing g with
  | nil => rfl
  | cons p pairs ih =>
      have hfirst : inlinedOf (g.addComparison .and p.1 "=" p.2).members = inlinedOf g.members := by
        rw [addComparison, inlinedOf_add]
        exact List.append_nil _
      exact (ih _).trans hfirst

mutual

theorem inlinedOf_apply : (call : WhereCall) → (g : Condition) →
    inlinedOf (g.apply call).members = inlinedOf g.members ++ call.inlined
  | .compare c column operator v, g => inlinedOf_add _ c _
  | .all pairs, g => (g.inlinedOf_addEqualities pairs).trans (List.append_nil _).symm
  | .among c negated column [], g => inlinedOf_add g c _
  | .among c negated column (v :: values), g => inlinedOf_add g c _
  | .null c negated column, g => inlinedOf_add g c _
  | .raw c sql bindings, g => by
      rw [apply, addText, inlinedOf_add, members_bindAll]
      rfl
  | .group c calls, g => by
      have hinner := inlinedOf_applyAll calls empty
      rw [apply, inlinedOf_add]
      exact congrArg (inlinedOf g.members ++ ·) hinner

/-- The values written out are those of the calls, in order. -/
theorem inlinedOf_applyAll : (calls : List WhereCall) → (g : Condition) →
    inlinedOf (g.applyAll calls).members = inlinedOf g.members ++ inlinedOfCalls calls
  | [], g => (List.append_nil _).symm
  | call :: calls, g => by
      rw [applyAll, inlinedOf_applyAll calls, inlinedOf_apply call, inlinedOfCalls,
        List.append_assoc]

end

end Condition

/-! ## Queries -/

/-- The values that a step writes into the condition. -/
def SelectStep.conditionValues : SelectStep → List Inlining
  | .condition call => call.inlined
  | _ => []

/-- The values that a step writes into the condition on groups. -/
def SelectStep.groupValues : SelectStep → List Inlining
  | .having _ column operator v => [⟨column ++ " " ++ operator ++ " ", v⟩]
  | _ => []

namespace Select

/-- The values that a query writes out: in its condition, and in its condition on groups. -/
structure Inlines (q : Select) (is js : List Inlining) : Prop where
  condition : inlinedOf q.condition.members = is
  having : Inlined js q.having

variable {q : Select} {is js : List Inlining}

/-- Other clauses are of no account. -/
theorem Inlines.of_eq (h : q.Inlines is js) {r : Select} (hcondition : r.condition = q.condition)
    (hhaving : r.having = q.having) : r.Inlines (is ++ []) (js ++ []) := by
  rw [List.append_nil, List.append_nil]
  exact ⟨hcondition ▸ h.condition, hhaving ▸ h.having⟩

theorem Inlines.addHaving (h : q.Inlines is js) (c : Connective) (column operator : String)
    (v : Value) :
    (q.addHaving c (column ++ " " ++ operator ++ " " ++ v.literal)).Inlines (is ++ [])
      (js ++ [⟨column ++ " " ++ operator ++ " ", v⟩]) := by
  have hfragment : Inlined [⟨column ++ " " ++ operator ++ " ", v⟩]
      (column ++ " " ++ operator ++ " " ++ v.literal) := by
    refine ⟨"", "", ?_, EndsOpen.append_left (by decide +kernel) _, by decide, trivial⟩
    rw [String.empty_append, String.append_empty]
  rw [List.append_nil]
  refine ⟨h.condition, ?_⟩
  show Inlined _ (if q.having.isEmpty then _ else _)
  split
  · next hempty =>
    have hold := h.having
    rw [String.isEmpty_iff.mp hempty] at hold
    rw [hold.eq_nil]
    exact hfragment
  · have hmore := hfragment.append_left (" " ++ c.keyword ++ " ")
    have hnext : (" " ++ c.keyword ++ " "
        ++ (column ++ " " ++ operator ++ " " ++ v.literal)).toList.head? ≠ some '\'' := by
      rw [String.append_assoc, String.append_assoc, head?_append (by decide)]
      decide +kernel
    have htext : q.having ++ " " ++ c.keyword ++ " "
          ++ (column ++ " " ++ operator ++ " " ++ v.literal)
        = q.having ++ (" " ++ c.keyword ++ " "
          ++ (column ++ " " ++ operator ++ " " ++ v.literal)) := by
      simp only [String.append_assoc]
    rw [htext]
    exact h.having.append hmore hnext

theorem having_sortBy (q : Select) (column direction : String) :
    (q.sortBy column direction).having = q.having := by
  unfold Select.sortBy
  split <;> rfl

theorem inlines_apply (h : q.Inlines is js) (tablePrefix : String) (step : SelectStep) :
    (q.apply tablePrefix step).Inlines (is ++ step.conditionValues) (js ++ step.groupValues) := by
  cases step with
  | having c column operator v => exact h.addHaving c column operator v
  | condition call =>
      refine ⟨?_, ?_⟩
      · rw [← h.condition]
        exact Condition.inlinedOf_apply call q.condition
      · have hnone : (SelectStep.condition call).groupValues = [] := rfl
        rw [hnone, List.append_nil]
        exact h.having
  | orderBy column direction =>
      exact h.of_eq (condition_sortBy q column direction) (having_sortBy q column direction)
  | limit n =>
      show (q.setLimit n).Inlines _ _
      unfold setLimit
      split <;> exact h.of_eq rfl rfl
  | limitSkip n m =>
      show (q.setLimitSkip n m).Inlines _ _
      unfold setLimitSkip
      split <;> exact h.of_eq rfl rfl
  | offset n =>
      show (q.setOffset n).Inlines _ _
      unfold setOffset
      split <;> exact h.of_eq rfl rfl
  | _ => exact h.of_eq rfl rfl

/-- The values written out are those of the steps, in order. -/
theorem inlines_applyAll (h : q.Inlines is js) (tablePrefix : String) (steps : List SelectStep) :
    (q.applyAll tablePrefix steps).Inlines (is ++ steps.flatMap SelectStep.conditionValues)
      (js ++ steps.flatMap SelectStep.groupValues) := by
  induction steps generalizing q is js with
  | nil =>
      rw [List.flatMap_nil, List.flatMap_nil, List.append_nil, List.append_nil]
      exact h
  | cons step steps ih =>
      have hfirst := inlines_apply h tablePrefix step
      rw [List.flatMap_cons, List.flatMap_cons, ← List.append_assoc, ← List.append_assoc]
      exact ih hfirst

/-! ## The statement -/

/-- What stands behind the condition on groups is empty or begins with a blank. -/
theorem blankFirst_tail (q : Select) :
    BlankFirst (q.groupByClause ++ (q.orderByClause ++ (q.limitClause ++ q.offsetClause))) := by
  have hgroup : BlankFirst q.groupByClause := by
    unfold groupByClause
    split
    · exact blankFirst_empty
    · exact blankFirst_clause (by decide +kernel) _
  have horder : BlankFirst q.orderByClause := by
    unfold orderByClause
    split
    · exact blankFirst_empty
    · exact blankFirst_clause (by decide +kernel) _
  have hlimit : BlankFirst q.limitClause := by
    unfold limitClause
    split
    · rw [String.append_assoc, String.append_assoc]
      exact blankFirst_clause (by decide +kernel) _
    · exact blankFirst_clause (by decide +kernel) _
    · exact blankFirst_empty
  have hoffset : BlankFirst q.offsetClause := by
    unfold offsetClause
    split
    · exact blankFirst_clause (by decide +kernel) _
    · exact blankFirst_empty
  exact hgroup.append (horder.append (hlimit.append hoffset))

theorem Inlines.havingClause (h : q.Inlines is js) :
    Inlined js q.havingClause ∧ BlankFirst q.havingClause := by
  unfold Select.havingClause
  split
  · next hempty =>
    have hold := h.having
    rw [String.isEmpty_iff.mp hempty] at hold
    exact ⟨hold, blankFirst_empty⟩
  · exact ⟨h.having.append_left " HAVING ", blankFirst_clause (by decide +kernel) _⟩

theorem Inlines.whereClause (h : q.Inlines is js) : Inlined is q.whereClause :=
  h.condition ▸ q.condition.inlined_whereClause

theorem Inlines.render (h : q.Inlines is js) : Inlined (is ++ js) q.render := by
  obtain ⟨hhaving, hblank⟩ := h.havingClause
  have htail := q.blankFirst_tail
  have hclauses := h.whereClause.append (hhaving.append_right htail.not_quote)
    (hblank.append htail).not_quote
  have htext : q.render = "SELECT " ++ q.distinctClause ++ q.columnsClause ++ " FROM " ++ q.table
      ++ q.joinsClause ++ (q.whereClause ++ (q.havingClause ++ (q.groupByClause
        ++ (q.orderByClause ++ (q.limitClause ++ q.offsetClause))))) := by
    unfold Select.render
    simp only [String.append_assoc]
  rw [htext]
  exact hclauses.append_left _

end Select

/-! ## The theorem -/

/-- **Whatever is written out is a literal, and nothing but a literal.**  A value that is written as
a string literal is read back as its text, up to the quote that closes it, before anything that is
no quote; every other value is written without quotes and colons.  Behind a blank or an opening
parenthesis outside quotes, any value leaves what is scanned before it and behind it as it is, and
the placeholders with it.  So it is with every value that a program gives to a membership or to a
condition on groups: in the statement, and in the clause that updates and deletions have in common
with it. -/
theorem inlined_values_are_taken_whole :
    (∀ v : Value,
      (v.isQuoted = true → ∀ rest : List Char, rest.head? ≠ some '\'' →
        readLiteral? (v.literal.toList ++ rest) = some (v.display.toList, rest)) ∧
      (v.isQuoted = false → Plain v.literal) ∧
      ∀ a b, Closes a → EndsOpen a →
        pieces (a ++ v.literal ++ b) = pieces a ++ copy v.literal.toList ++ pieces b ∧
          names (pieces (a ++ v.literal ++ b)) = names (pieces a) ++ names (pieces b)) ∧
    ∀ (σ : Type) (db : Database σ) (name : String) (steps : List SelectStep),
      let q := db.build name steps
      let is := steps.flatMap SelectStep.conditionValues
      TakenWhole is q.whereClause ∧
        TakenWhole (is ++ steps.flatMap SelectStep.groupValues) q.render := by
  constructor
  · intro v
    refine ⟨fun h rest hrest => ?_, Value.plain_literal, fun a b ha hend => ?_⟩
    · exact Value.readLiteral?_literal h hrest
    · exact ⟨v.pieces_literal ha hend b, v.names_pieces_literal ha hend b⟩
  · intro σ db name steps q is
    have hnone : (db.table name).Inlines [] [] := ⟨rfl, trivial⟩
    have hsteps := Select.inlines_applyAll hnone db.settings.tablePrefix steps
    exact ⟨hsteps.whereClause.takenWhole, hsteps.render.takenWhole⟩

/-- Values full of quotes, colons and backslashes, in a list and in a condition on groups, with a
placeholder behind them. -/
theorem hostile_values_are_taken_whole :
    let db : Database Unit := ⟨.accepting, {}, fun _ => none⟩
    let v : Value := .text "x' OR :y \"\\"
    let w : Value := .text "':z"
    let steps : List SelectStep := [.condition (.among .and false "kind" [v, w]),
      .having .and "MAX(name)" "<" v, .condition (.equality .and "id" (.int 7))]
    let q := db.build "users" steps
    readLiteral? (v.literal.toList ++ ", ''':z')".toList)
        = some ("x' OR :y \"\\".toList, ", ''':z')".toList) ∧
      Plain (Value.int (-7)).literal ∧
      pieces ("kind IN (" ++ v.literal ++ ") AND id = :id")
        = pieces "kind IN (" ++ copy v.literal.toList ++ pieces ") AND id = :id" ∧
      TakenWhole [⟨"kind IN (", v⟩, ⟨", ", w⟩, ⟨"MAX(name) < ", v⟩] q.render ∧
      names (pieces q.render) = ["id"] := by
  intro db v w steps q
  obtain ⟨hvalue, hprogram⟩ := inlined_values_are_taken_whole
  obtain ⟨hread, -, hscan⟩ := hvalue v
  refine ⟨hread rfl _ (by decide +kernel), (hvalue (.int (-7))).2.1 rfl, ?_, ?_, ?_⟩
  · exact (hscan "kind IN (" ") AND id = :id" (by decide +kernel) (by decide +kernel)).1
  · exact (hprogram Unit db "users" steps).2
  · decide +kernel

end SqlBuilder
