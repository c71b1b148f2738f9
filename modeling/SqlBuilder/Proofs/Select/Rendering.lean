import SqlBuilder.Select.Step
import SqlBuilder.Proofs.Condition.Building
import SqlBuilder.Proofs.Text.Blank

/-!
# Queries as they are written

A query is `Sound` if the texts in every clause close their quotes and hold no placeholder, and its
condition is sound.  Each clause but the first is nothing or begins with a blank, so the clauses may
stand side by side, and the whole statement carries what its condition carries
(`Sound.carries_render`): no other clause adds a placeholder or hides one.
-/

namespace SqlBuilder.Select

open Placeholder

/-! ## Clauses -/

/-- An inert text that may stand behind any other. -/
structure IsClause (s : String) : Prop where
  inert : Inert s
  continues : Continues s

theorem isClause_empty : IsClause "" := ⟨inert_empty, fun _ hc => nomatch hc⟩

theorem IsClause.append {a b : String} (ha : IsClause a) (hb : IsClause b) : IsClause (a ++ b) :=
  ⟨ha.inert.append hb.inert hb.continues, ha.continues.append hb.continues⟩

/-- A keyword with an inert text behind it. -/
theorem isClause_keyword {keyword s : String} (hkeyword : IsDivider keyword) (hs : Inert s) :
    IsClause (keyword ++ s) :=
  ⟨inert_plain_append hkeyword.plain hs, hkeyword.continues_append s⟩

/-- Inert texts separated by commas. -/
theorem inert_list {l : List String} (h : ∀ s ∈ l, Inert s) : Inert (", ".intercalate l) :=
  inert_intercalate isDivider_comma h

/-! ## Sound queries -/

/-- The texts of every clause are inert, and the condition is sound. -/
structure Sound (q : Select) : Prop where
  table : Inert q.table
  columns : ∀ s ∈ q.columns, Inert s
  joins : ∀ s ∈ q.joins, IsClause s
  condition : q.condition.Sound
  having : Inert q.having
  grouping : ∀ s ∈ q.grouping, Inert s
  ordering : ∀ p ∈ q.ordering, Plain p.1 ∧ Plain p.2

variable {q : Select}

theorem Sound.inert_columnsClause (h : q.Sound) : Inert q.columnsClause := by
  unfold columnsClause
  split
  · decide +kernel
  · exact inert_list h.columns

theorem Sound.isClause_joinsClause (h : q.Sound) : IsClause q.joinsClause := by
  obtain ⟨hinert, hcont⟩ := inert_join fun s hs => ⟨(h.joins s hs).inert, (h.joins s hs).continues⟩
  exact ⟨hinert, hcont⟩

theorem Sound.isClause_havingClause (h : q.Sound) : IsClause q.havingClause := by
  unfold havingClause
  split
  · exact isClause_empty
  · exact isClause_keyword (by decide +kernel) h.having

theorem Sound.isClause_groupByClause (h : q.Sound) : IsClause q.groupByClause := by
  unfold groupByClause
  split
  · exact isClause_empty
  · exact isClause_keyword (by decide +kernel) (inert_list h.grouping)

theorem Sound.isClause_orderByClause (h : q.Sound) : IsClause q.orderByClause := by
  have hentries : ∀ s ∈ q.ordering.map (fun p => p.1 ++ " " ++ p.2), Inert s := by
    intro s hs
    obtain ⟨p, hp, rfl⟩ := List.mem_map.mp hs
    obtain ⟨hname, hdirection⟩ := h.ordering p hp
    exact ((hname.append isDivider_blank.plain).append hdirection).inert
  unfold orderByClause
  split
  · exact isClause_empty
  · exact isClause_keyword (by decide +kernel) (inert_list hentries)

theorem isClause_limitClause (q : Select) : IsClause q.limitClause := by
  -- the numbers are written in digits, and the comma between them is plain
  unfold limitClause
  split
  · rw [String.append_assoc, String.append_assoc]
    exact isClause_keyword (by decide +kernel)
      ((plain_toString _).append (isDivider_comma.plain.append (plain_toString _))).inert
  · exact isClause_keyword (by decide +kernel) (plain_toString _).inert
  · exact isClause_empty

theorem isClause_offsetClause (q : Select) : IsClause q.offsetClause := by
  unfold offsetClause
  split
  · exact isClause_keyword (by decide +kernel) (plain_toString _).inert
  · exact isClause_empty

/-! ## The statement -/

/-- Everything before the condition. -/
theorem Sound.inert_head (h : q.Sound) :
    Inert ("SELECT " ++ q.distinctClause ++ q.columnsClause ++ " FROM " ++ q.table
      ++ q.joinsClause) := by
  have hselect : Plain ("SELECT " ++ q.distinctClause) := by
    unfold distinctClause
    cases q.isDistinct <;> decide +kernel
  have hfrom : IsClause (" FROM " ++ q.table) :=
    isClause_keyword (by decide +kernel) h.table
  have hrest := hfrom.append h.isClause_joinsClause
  have hcolumns := h.inert_columnsClause.append hrest.inert hrest.continues
  have htext : "SELECT " ++ q.distinctClause ++ q.columnsClause ++ " FROM " ++ q.table
      ++ q.joinsClause
      = "SELECT " ++ q.distinctClause ++ (q.columnsClause ++ (" FROM " ++ q.table
        ++ q.joinsClause)) := by simp only [String.append_assoc]
  rw [htext]
  exact inert_plain_append hselect hcolumns

/-- Everything behind the condition. -/
theorem Sound.isClause_tail (h : q.Sound) :
    IsClause (q.havingClause ++ (q.groupByClause ++ (q.orderByClause ++ (q.limitClause
      ++ q.offsetClause)))) :=
  h.isClause_havingClause.append (h.isClause_groupByClause.append (h.isClause_orderByClause.append
    ((isClause_limitClause q).append (isClause_offsetClause q))))

/-- **A query's statement carries what its condition carries**, and nothing else. -/
theorem Sound.carries_render (h : q.Sound) :
    Carries q.render (usedNamesOf q.condition.members) (comparisonsOf q.condition.members) := by
  obtain ⟨hwhere, hcont⟩ := h.condition.carries_whereClause
  have htext : q.render = "SELECT " ++ q.distinctClause ++ q.columnsClause ++ " FROM " ++ q.table
      ++ q.joinsClause ++ (q.whereClause ++ (q.havingClause ++ (q.groupByClause
        ++ (q.orderByClause ++ (q.limitClause ++ q.offsetClause))))) := by
    unfold render
    simp only [String.append_assoc]
  have htail := h.isClause_tail
  rw [htext]
  exact .inert_append h.inert_head (hwhere.append_inert htail.inert htail.continues)
    (hcont.append htail.continues)

/-- The statement that deletes the query's rows carries it too. -/
theorem Sound.carries_delete (h : q.Sound) :
    Carries ("DELETE FROM " ++ q.table ++ q.whereClause) (usedNamesOf q.condition.members)
      (comparisonsOf q.condition.members) := by
  obtain ⟨hwhere, hcont⟩ := h.condition.carries_whereClause
  have hdelete : Inert ("DELETE FROM " ++ q.table) :=
    inert_plain_append (by decide +kernel) h.table
  exact .inert_append hdelete hwhere hcont

end SqlBuilder.Select
