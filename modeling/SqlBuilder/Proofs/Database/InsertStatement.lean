import Mathlib.Data.List.Nodup
import SqlBuilder.Database.Write
import SqlBuilder.Proofs.Placeholder.Filling
import SqlBuilder.Proofs.SortedMap

/-!
# The statement of an insertion

Records that set the same columns are accepted, and their statement names these in order with one
placeholder for each (`insertTemplate_eq`).  A placeholder is the column's name with every character
that a placeholder cannot hold made an underscore, so two columns may meet under one.

`writesOwnValues_iff` says when that does no harm.  As sent, every column has a parameter of its own
and under it the value of its own iff no two columns meet and the table's text leaves no quote open;
otherwise columns share a parameter, or what should be parameters stands inside quotes.
-/

namespace SqlBuilder

open Placeholder

/-! ## The columns -/

theorem mem_columnsOf {rows : List Record} {column : String} :
    column ∈ Select.columnsOf rows ↔ ∃ row ∈ rows, column ∈ row.keys := by
  have hfold : ∀ m : SortedMap String Unit,
      column ∈ (rows.foldl (fun m row => m.merge (SortedMap.ofList (row.keys.map (·, ())))) m).keys
        ↔ (∃ row ∈ rows, column ∈ row.keys) ∨ column ∈ m.keys := by
    induction rows with
    | nil => simp
    | cons row rows ih =>
        intro m
        rw [List.foldl_cons, ih, ← SortedMap.contains_iff_mem_keys (m := m.merge _),
          SortedMap.contains_merge, SortedMap.contains_iff_mem_keys,
          SortedMap.contains_iff_mem_keys, SortedMap.mem_keys_ofList]
        simp [or_assoc, or_left_comm]
  rw [Select.columnsOf, hfold]
  simp [SortedMap.keys, SortedMap.empty]

/-- Records with the same columns have no others. -/
theorem columnsOf_eq {rows : List Record} {columns : List String} (hrows : rows ≠ [])
    (hkeys : ∀ row ∈ rows, row.keys = columns) : Select.columnsOf rows = columns := by
  cases rows with
  | nil => exact absurd rfl hrows
  | cons row rows =>
      rw [← hkeys row List.mem_cons_self]
      refine SortedMap.keys_eq_of_mem_iff fun column => mem_columnsOf.trans ?_
      constructor
      · rintro ⟨other, hother, hcolumn⟩
        rwa [hkeys row List.mem_cons_self, ← hkeys other hother]
      · exact fun hcolumn => ⟨row, List.mem_cons_self, hcolumn⟩

/-! ## The statement -/

/-- An insertion, with what stands for its values; without columns every one gets its default. -/
def insertText (table : String) (columns values : List String) : String :=
  if columns.isEmpty then "INSERT INTO " ++ table ++ " DEFAULT VALUES"
  else
    "INSERT INTO " ++ table ++ " (" ++ ", ".intercalate columns ++ ") VALUES ("
      ++ ", ".intercalate values ++ ")"

/-- The end of an insertion that asks for keys. -/
def returningClause : Option String → String
  | some key => " RETURNING " ++ key
  | none => ""

/-- What stands for the values of columns before they are numbered. -/
def slotTexts (columns : List String) : List String :=
  columns.map fun c => ":" ++ keyOf c

/-- Records with the same columns are accepted, and the statement for each names those. -/
theorem insertTemplate_eq (q : Select) (keyColumn : Option String) {rows : List Record}
    {columns : List String} (hrows : rows ≠ []) (hkeys : ∀ row ∈ rows, row.keys = columns) :
    q.insertTemplate keyColumn rows
      = .ok (insertText q.table columns (slotTexts columns) ++ returningClause keyColumn) := by
  -- the check compares numbers of columns, and they agree
  have hcomplete : rows.findIdx? (fun row => row.size != columns.length) = none := by
    rw [List.findIdx?_eq_none_iff]
    intro row hrow
    have hsize : row.size = columns.length := by
      rw [← hkeys row hrow, SortedMap.keys, List.length_map]
      rfl
    rw [hsize, bne_self_eq_false]
  rw [Select.insertTemplate, columnsOf_eq hrows hkeys]
  simp only [hcomplete]
  cases keyColumn with
  | none => rw [returningClause, String.append_empty]; rfl
  | some key => rw [returningClause, ← String.append_assoc]; rfl

/-! ## The statement as it is sent -/

theorem plain_insert : Plain "INSERT INTO " := by decide +kernel

theorem isDivider_defaults : IsDivider " DEFAULT VALUES" := by decide +kernel

theorem isDivider_values : IsDivider ") VALUES (" := by decide +kernel

/-- Columns that are identifiers are copied as they stand in the list. -/
theorem inert_columnList {columns : List String} (h : ∀ c ∈ columns, IsIdentifier c) :
    Inert (", ".intercalate columns) :=
  inert_intercalate isDivider_comma fun c hc => (h c hc).inert

theorem closes_slotTexts {columns : List String} (h : ∀ c ∈ columns, IsIdentifier c) :
    ∀ s ∈ slotTexts columns, Closes s := by
  intro s hs
  obtain ⟨c, hc, rfl⟩ := List.mem_map.mp hs
  exact closes_slot (isKey_keyOf (h c hc).ne_empty)

theorem closes_slotList {columns : List String} (h : ∀ c ∈ columns, IsIdentifier c) :
    Closes (", ".intercalate (slotTexts columns)) :=
  closes_intercalate isDivider_comma (closes_slotTexts h)

theorem names_slotList {columns : List String} (h : ∀ c ∈ columns, IsIdentifier c) :
    names (pieces (", ".intercalate (slotTexts columns))) = columns.map keyOf := by
  rw [names_pieces_intercalate isDivider_comma (closes_slotTexts h), slotTexts,
    List.flatMap_map]
  have hone : ∀ c ∈ columns, names (pieces (":" ++ keyOf c)) = [keyOf c] := by
    intro c hc
    rw [pieces_slot (isKey_keyOf (h c hc).ne_empty)]
    rfl
  rw [List.flatMap_congr hone, ← List.map_eq_flatMap]

theorem fill_slotList {f : String → String} {columns : List String}
    (h : ∀ c ∈ columns, IsIdentifier c) :
    fill f (", ".intercalate (slotTexts columns))
      = ", ".intercalate (columns.map fun c => f (keyOf c)) := by
  have hmap : (slotTexts columns).map (fill f) = columns.map fun c => f (keyOf c) := by
    rw [slotTexts, List.map_map]
    exact List.map_congr_left fun c hc => fill_slot (isKey_keyOf (h c hc).ne_empty)
  rw [← hmap]
  exact fill_intercalate isDivider_comma (closes_slotTexts h)

/-- In a table that closes its quotes, what stands for the values is filled in and nothing else. -/
theorem fill_insertText {f : String → String} {table behind : String} {columns : List String}
    (htable : Closes table) (hcolumns : ∀ c ∈ columns, IsIdentifier c) :
    fill f (insertText table columns (slotTexts columns) ++ behind)
      = insertText (fill f table) columns (columns.map fun c => f (keyOf c)) ++ fill f behind := by
  by_cases hempty : columns.isEmpty = true
  · rw [insertText, insertText, if_pos hempty, if_pos hempty]
    simp only [String.append_assoc]
    rw [fill_plain_append plain_insert,
      fill_append htable (isDivider_defaults.continues_append behind),
      fill_plain_append isDivider_defaults.plain]
  · have hlist := inert_columnList hcolumns
    have hslots := closes_slotList hcolumns
    rw [insertText, insertText, if_neg hempty, if_neg hempty]
    simp only [String.append_assoc]
    -- every text up to the next divider is scanned alone
    rw [fill_plain_append plain_insert, fill_append htable (isDivider_open.continues_append _),
      fill_plain_append isDivider_open.plain,
      fill_append hlist.closes (isDivider_values.continues_append _), hlist.fill,
      fill_plain_append isDivider_values.plain,
      fill_append hslots (isDivider_close.continues_append behind), fill_slotList hcolumns,
      fill_plain_append isDivider_close.plain]

theorem names_insertText {table behind : String} {columns : List String} (htable : Closes table)
    (hcolumns : ∀ c ∈ columns, IsIdentifier c) :
    names (pieces (insertText table columns (slotTexts columns) ++ behind))
      = names (pieces table) ++ (columns.map keyOf ++ names (pieces behind)) := by
  by_cases hempty : columns.isEmpty = true
  · rw [insertText, if_pos hempty]
    simp only [String.append_assoc]
    rw [names_pieces_plain_append plain_insert,
      names_pieces_append htable (isDivider_defaults.continues_append behind),
      names_pieces_plain_append isDivider_defaults.plain, List.isEmpty_iff.mp hempty]
    rfl
  · have hlist := inert_columnList hcolumns
    have hslots := closes_slotList hcolumns
    rw [insertText, if_neg hempty]
    simp only [String.append_assoc]
    rw [names_pieces_plain_append plain_insert,
      names_pieces_append htable (isDivider_open.continues_append _),
      names_pieces_plain_append isDivider_open.plain,
      names_pieces_append hlist.closes (isDivider_values.continues_append _), hlist.noNames,
      names_pieces_plain_append isDivider_values.plain,
      names_pieces_append hslots (isDivider_close.continues_append behind),
      names_slotList hcolumns, names_pieces_plain_append isDivider_close.plain, List.nil_append]

/-- The table's open quote is still open behind the table. -/
theorem inQuotes_insert {table : String} (h : ¬ Closes table) :
    InQuotes (after .code ("INSERT INTO " ++ table).toList) := by
  rw [String.toList_append, after_append, after_plain plain_insert]
  exact inQuotes_of_not_closes h

/-- Behind an open quote of the table the names stay inside quotes. -/
theorem inQuotes_columnList {m : Mode} (hm : InQuotes m) {columns : List String}
    (h : ∀ c ∈ columns, IsIdentifier c) :
    InQuotes (after m (", ".intercalate columns).toList) := by
  induction columns generalizing m with
  | nil => exact hm
  | cons c columns ih =>
      have hc : InQuotes (after m c.toList) := (h c List.mem_cons_self).inQuotes hm
      cases columns with
      | nil => rwa [String.intercalate_singleton]
      | cons d columns =>
          rw [String.intercalate_cons_cons, String.toList_append, String.toList_append,
            after_append, after_append]
          exact ih (inQuotes_after hc fun e he => (isDivider_comma.plain e he).1)
            fun e he => h e (List.mem_cons_of_mem c he)

/-! ## Whose values are written -/

/-- The columns have parameters of their own, and under them the values of the record. -/
def WritesOwnValues (table : String) (columns : List String) (row : Record)
    (sent : NumberedStatement) : Prop :=
  ∃ ks behind, sent.sql = insertText table columns (ks.map parameterText) ++ behind ∧ ks.Nodup ∧
    List.Forall₂ (fun column k => ∃ v, row.get? column = some v ∧ 1 ≤ k ∧
      sent.values[k - 1]? = some v) columns ks

/-- No two columns meet under one placeholder. -/
def DistinctKeys (columns : List String) : Prop :=
  ∀ c ∈ columns, ∀ d ∈ columns, keyOf c = keyOf d → c = d

/-- A placeholder that only one column has gets that column's value. -/
theorem get?_insertBindings {row : Record} {column : String} {v : Value}
    (hv : row.get? column = some v) (hown : ∀ d ∈ row.keys, keyOf d = keyOf column → d = column) :
    (Select.insertBindings row).get? (keyOf column) = some v := by
  have hentry : (column, v) ∈ row.entries := SortedMap.mem_entries_iff.mpr hv
  rw [Select.insertBindings, SortedMap.get?_ofList]
  refine SortedMap.lastValue?_eq_some ?_ ?_
  · rw [List.map_map]
    exact List.mem_map.mpr ⟨(column, v), hentry, rfl⟩
  · intro p hp hkey
    obtain ⟨⟨d, w⟩, hd, rfl⟩ := List.mem_map.mp hp
    have hdc : d = column := hown d (List.mem_map.mpr ⟨(d, w), hd, rfl⟩) hkey
    rw [hdc] at hd
    rw [SortedMap.mem_entries_iff.mp hd] at hv
    exact Option.some.inj hv

/-- The parameters can be read back from the text. -/
theorem insertText_inj {table a b : String} {columns : List String} {js ks : List Nat}
    (hcolumns : columns ≠ []) (hlength : js.length = ks.length)
    (h : insertText table columns (js.map parameterText) ++ a
      = insertText table columns (ks.map parameterText) ++ b) : js = ks := by
  have hempty : ¬ columns.isEmpty = true := fun e => hcolumns (List.isEmpty_iff.mp e)
  rw [insertText, insertText, if_neg hempty, if_neg hempty] at h
  simp only [String.append_assoc, String.append_right_inj] at h
  have hlist := congrArg String.toList h
  rw [String.toList_append, String.toList_append, String.toList_append, String.toList_append]
    at hlist
  exact parameterList_inj hlength hlist

/-- The part of an insertion between the table and the values. -/
def columnsText (columns : List String) : String :=
  " (" ++ (", ".intercalate columns ++ ") VALUES (")

theorem insertText_of_ne_nil {table : String} {columns values : List String}
    (hcolumns : columns ≠ []) :
    insertText table columns values = "INSERT INTO " ++ table
      ++ (columnsText columns ++ (", ".intercalate values ++ ")")) := by
  have hempty : ¬ columns.isEmpty = true := fun e => hcolumns (List.isEmpty_iff.mp e)
  rw [insertText, if_neg hempty, columnsText]
  simp only [String.append_assoc]

theorem inQuotes_columnsText {m : Mode} (hm : InQuotes m) {columns : List String}
    (h : ∀ c ∈ columns, IsIdentifier c) : InQuotes (after m (columnsText columns).toList) := by
  rw [columnsText, String.toList_append, String.toList_append, after_append, after_append]
  refine inQuotes_after (inQuotes_columnList ?_ h) fun c hc => (isDivider_values.plain c hc).1
  exact inQuotes_after hm fun c hc => (isDivider_open.plain c hc).1

theorem toList_intercalate_cons (sep text : String) (rest : List String) :
    ∃ tail, (sep.intercalate (text :: rest)).toList = text.toList ++ tail := by
  cases rest with
  | nil => exact ⟨[], by rw [String.intercalate_singleton, List.append_nil]⟩
  | cons next rest =>
      refine ⟨(sep ++ sep.intercalate (next :: rest)).toList, ?_⟩
      rw [String.intercalate_cons_cons, String.append_assoc, String.toList_append]

/-- Behind an open quote of the table no parameter is written. -/
theorem fill_insertText_ne {f : String → String} {table behind end' : String}
    {columns : List String} {ks : List Nat} (hf : ∀ name, ∃ cs, (f name).toList = '$' :: cs)
    (htable : ¬ Closes table) (hcolumns : ∀ c ∈ columns, IsIdentifier c) (hne : columns ≠ [])
    (hks : ks ≠ []) :
    fill f (insertText table columns (slotTexts columns) ++ behind)
      ≠ insertText (fill f table) columns (ks.map parameterText) ++ end' := by
  obtain ⟨c, columns', rfl⟩ := List.exists_cons_of_ne_nil hne
  obtain ⟨k, ks', rfl⟩ := List.exists_cons_of_ne_nil hks
  have hquotes := inQuotes_insert htable
  -- the first value stands behind a colon in the template and behind a dollar when it is sent
  obtain ⟨u, hu⟩ := toList_intercalate_cons ", " (":" ++ keyOf c) (slotTexts columns')
  obtain ⟨v, hv⟩ := toList_intercalate_cons ", " (parameterText k) (ks'.map parameterText)
  intro h
  have hlist := congrArg String.toList h
  rw [insertText_of_ne_nil hne, insertText_of_ne_nil hne, String.append_assoc,
    toList_fill_append_unclosed hquotes, fill_plain_append plain_insert] at hlist
  generalize after .code ("INSERT INTO " ++ table).toList = m at hquotes hlist
  simp only [String.toList_append, List.append_assoc, List.append_cancel_left_eq] at hlist
  have hslots : (", ".intercalate (slotTexts (c :: columns'))).toList
      = ':' :: ((keyOf c).toList ++ u) := by
    rw [slotTexts, List.map_cons]
    exact hu.trans (by rw [String.toList_append]; rfl)
  have hparameters : (", ".intercalate ((k :: ks').map parameterText)).toList
      = '$' :: ((toString k).toList ++ v) := by
    rw [List.map_cons]
    exact hv.trans (by rw [toList_parameterText]; rfl)
  rw [hslots, hparameters] at hlist
  exact written_scan_unclosed hf hquotes (inQuotes_columnsText hquotes hcolumns) _ _ hlist

theorem insertText_nil (table : String) (values : List String) :
    insertText table [] values = "INSERT INTO " ++ table ++ " DEFAULT VALUES" :=
  if_pos rfl

theorem closes_of_writesOwnValues {template table behind : String} {columns : List String}
    {row : Record} {sent : NumberedStatement} (hcolumns : ∀ c ∈ columns, IsIdentifier c)
    (hne : columns ≠ [])
    (hsql : sent.sql = fill (indexText template) (insertText table columns (slotTexts columns)
      ++ behind))
    (h : WritesOwnValues (fill (indexText template) table) columns row sent) : Closes table := by
  by_contra htable
  obtain ⟨ks, end', hsql', -, hvalues⟩ := h
  have hks : ks ≠ [] := by
    rintro rfl
    exact hne (List.forall₂_nil_right_iff.mp hvalues)
  have hdollar : ∀ name, ∃ cs, (indexText template name).toList = '$' :: cs := fun name =>
    ⟨_, toList_parameterText _⟩
  exact fill_insertText_ne hdollar htable hcolumns hne hks (hsql.symm.trans hsql')

/-- Without columns there is nothing to write, whatever the table does. -/
theorem fill_insertText_nil {f : String → String} (table behind : String) :
    ∃ end', fill f (insertText table [] [] ++ behind)
      = insertText (fill f table) [] [] ++ end' := by
  have htext : insertText table [] [] ++ behind
      = "INSERT INTO " ++ table ++ (" DEFAULT VALUES" ++ behind) := by
    rw [insertText_nil, String.append_assoc]
  by_cases htable : Closes table
  · refine ⟨fill f behind, ?_⟩
    rw [htext, String.append_assoc, fill_plain_append plain_insert,
      fill_append htable (isDivider_defaults.continues_append behind),
      fill_plain_append isDivider_defaults.plain, insertText_nil, ← String.append_assoc,
      ← String.append_assoc]
  · have hquotes := inQuotes_insert htable
    have hfill := toList_fill_append_unclosed (f := f) hquotes (" DEFAULT VALUES" ++ behind)
    generalize after .code ("INSERT INTO " ++ table).toList = m at hquotes hfill
    have hcopy : run m " DEFAULT VALUES".toList = copy " DEFAULT VALUES".toList :=
      run_inQuotes hquotes fun c hc => (isDivider_defaults.plain c hc).1
    have hscan : scan m (" DEFAULT VALUES" ++ behind).toList
        = copy " DEFAULT VALUES".toList
          ++ scan (after m " DEFAULT VALUES".toList) behind.toList := by
      rw [String.toList_append, scan_append, hcopy]
    rw [hscan, written_append, written_copy, fill_plain_append plain_insert, ← List.append_assoc,
      ← String.toList_append] at hfill
    refine ⟨.ofList (written (fun name => (f name).toList)
      (scan (after m " DEFAULT VALUES".toList) behind.toList)), ?_⟩
    rw [← String.toList_inj, htext, hfill, insertText_nil]
    simp only [String.toList_append, String.toList_ofList, List.append_assoc]

/-! ## The exact condition -/

/-- The indices that the columns' placeholders have in a template. -/
def columnIndices (template : String) (columns : List String) : List Nat :=
  columns.map fun c => indexOf (pieces template) (keyOf c)

section Sent

variable {template table behind : String} {columns : List String} {row : Record}
  {sent : NumberedStatement}

/-- Where the table closes its quotes, the statement names its columns' indices. -/
theorem fill_indexText_insertText (htable : Closes table)
    (hcolumns : ∀ c ∈ columns, IsIdentifier c) :
    fill (indexText template) (insertText table columns (slotTexts columns) ++ behind)
      = insertText (fill (indexText template) table) columns
          ((columnIndices template columns).map parameterText)
        ++ fill (indexText template) behind := by
  have hindices : columns.map (fun c => indexText template (keyOf c))
      = (columnIndices template columns).map parameterText := by
    rw [columnIndices, List.map_map]
    rfl
  rw [fill_insertText htable hcolumns, hindices]

theorem keyOf_mem_names
    (htemplate : template = insertText table columns (slotTexts columns) ++ behind)
    (htable : Closes table) (hcolumns : ∀ c ∈ columns, IsIdentifier c) {c : String}
    (hc : c ∈ columns) : keyOf c ∈ names (pieces template) := by
  rw [htemplate, names_insertText htable hcolumns]
  exact List.mem_append_right _ (List.mem_append_left _ (List.mem_map_of_mem hc))

/-- Columns with distinct placeholders have distinct indices. -/
theorem nodup_columnIndices (hdistinct : DistinctKeys columns) (hnodup : columns.Nodup)
    (hname : ∀ c ∈ columns, keyOf c ∈ names (pieces template)) :
    (columnIndices template columns).Nodup :=
  List.Nodup.map_on (fun c hc d hd hindex =>
    hdistinct c hc d hd (indexOf_inj (hname c hc) hindex)) hnodup

theorem distinctKeys_of_nodup (h : (columnIndices template columns).Nodup) :
    DistinctKeys columns := fun _ hc _ hd hcd =>
  List.inj_on_of_nodup_map h hc hd (congrArg (indexOf (pieces template)) hcd)

/-- Under the indices of distinct placeholders stand the values of the record. -/
theorem forall₂_columnIndices
    (hnumbers : Numbers (Select.insertBindings row) (pieces template) sent)
    (hrow : row.keys = columns) (hdistinct : DistinctKeys columns)
    (hname : ∀ c ∈ columns, keyOf c ∈ names (pieces template)) :
    List.Forall₂ (fun column k => ∃ v, row.get? column = some v ∧ 1 ≤ k ∧
      sent.values[k - 1]? = some v) columns (columnIndices template columns) := by
  rw [columnIndices, List.forall₂_map_right_iff, List.forall₂_same]
  intro c hc
  have hcontains : row.contains c = true := SortedMap.contains_iff_mem_keys.mpr (hrow ▸ hc)
  obtain ⟨v, hv⟩ := Option.isSome_iff_exists.mp hcontains
  refine ⟨v, hv, Nat.succ_pos _, ?_⟩
  rw [getElem?_values hnumbers (hname c hc)]
  refine get?_insertBindings hv fun d hd hdc => ?_
  rw [hrow] at hd
  exact hdistinct d hd c hc hdc

/-- A statement that is sent writes every column's own value, under a parameter of its own, iff the
table's text closes its quotes and no two columns have one placeholder. -/
theorem writesOwnValues_iff
    (htemplate : template = insertText table columns (slotTexts columns) ++ behind)
    (hcolumns : ∀ c ∈ columns, IsIdentifier c) (hrow : row.keys = columns)
    (hsent : numberParameters template (Select.insertBindings row) = .ok sent) :
    WritesOwnValues (fill (indexText template) table) columns row sent ↔
      (columns = [] ∨ Closes table) ∧ DistinctKeys columns := by
  have hnumbers := numberParameters_eq_ok_iff.mp hsent
  have hsql : sent.sql = fill (indexText template) (insertText table columns (slotTexts columns)
      ++ behind) := by rw [← htemplate]; exact hnumbers.sql_eq
  constructor
  · intro h
    by_cases hne : columns = []
    · subst hne
      exact ⟨.inl rfl, fun c hc => nomatch hc⟩
    · -- the parameters can be read off the text, so they are the indices of the placeholders
      have htable := closes_of_writesOwnValues hcolumns hne hsql h
      obtain ⟨js, end', hsql', hnodup, hvalues⟩ := h
      have hlength : js.length = (columnIndices template columns).length := by
        rw [← hvalues.length_eq, columnIndices, List.length_map]
      have hjs := insertText_inj hne hlength
        ((hsql'.symm.trans hsql).trans (fill_indexText_insertText htable hcolumns))
      exact ⟨.inr htable, distinctKeys_of_nodup (hjs ▸ hnodup)⟩
  · rintro ⟨rfl | htable, hdistinct⟩
    · obtain ⟨end', hend⟩ := fill_insertText_nil (f := indexText template) table behind
      exact ⟨[], end', hsql.trans hend, List.nodup_nil, .nil⟩
    · have hname : ∀ c ∈ columns, keyOf c ∈ names (pieces template) := fun c hc =>
        keyOf_mem_names htemplate htable hcolumns hc
      exact ⟨columnIndices template columns, fill (indexText template) behind,
        hsql.trans (fill_indexText_insertText htable hcolumns),
        nodup_columnIndices hdistinct (hrow ▸ row.nodup_keys) hname,
        forall₂_columnIndices hnumbers hrow hdistinct hname⟩

end Sent

end SqlBuilder
