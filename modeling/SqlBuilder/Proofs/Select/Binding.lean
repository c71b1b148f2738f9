import SqlBuilder.Proofs.Database.Trace
import SqlBuilder.Proofs.Select.Building

/-!
# What a query binds

From the calls that build a query to the statement that its client receives.  A text that carries
comparisons can be numbered once its names are bound, and every comparison then stands in it with
the index of a parameter whose value is the one bound to the column's key
(`numbered_of_carries`).  Queries that are built from tidy texts have such statements, whatever
values they are given (`comparisons_are_sent`).
-/

namespace SqlBuilder

open Placeholder

variable {σ α : Type}

/-! ## Numbered comparisons -/

/-- The comparisons stand in the text one behind the other, each followed by the index of a parameter
that is the value bound to the column's key. -/
def SentIn (values : List Value) (params : Bindings) : List Comparison → String → Prop
  | [], _ => True
  | c :: cs, text => ∃ k v before behind,
    text = before ++ (c.column ++ " " ++ c.operator ++ " " ++ parameterText k) ++ behind ∧
      EndsNumber behind.toList ∧ 1 ≤ k ∧ values[k - 1]? = some v ∧
      params.get? (keyOf c.column) = some v ∧ SentIn values params cs behind

/-- A separator begins what stands behind a placeholder, so the index ends there. -/
theorem endsNumber_written {f : String → List Char} {ps : List Piece} (h : BeginsApart ps) :
    EndsNumber (written f ps) := by
  cases ps with
  | nil => exact fun c hc => nomatch hc
  | cons p ps =>
      obtain ⟨c, rfl, hc⟩ := h p rfl
      rintro d ⟨⟩
      exact isDigit_eq_false_of_isSeparator hc

/-- A text before a placeholder stands before what is written for the placeholder. -/
theorem ofList_written_slot {f : String → List Char} {name : String} {k : Nat}
    (before behind : List Piece) (text : String) (hk : f name = parameter k) :
    String.ofList (written f (before ++ (copy text.toList ++ .slot name :: behind)))
      = .ofList (written f before) ++ (text ++ parameterText k) ++ .ofList (written f behind) := by
  rw [← String.toList_inj, String.toList_append, String.toList_append, String.toList_append,
    String.toList_ofList, String.toList_ofList, String.toList_ofList, toList_parameterText,
    written_append, written_append, written_copy, written_slot, hk, List.append_assoc,
    List.append_assoc]

/-- Every comparison in the pieces is sent with the value bound to its column. -/
theorem sentIn_of_occur {template : String} {params : Bindings} {sent : NumberedStatement}
    (hsent : Numbers params (pieces template) sent)
    (hbound : ∀ name ∈ names (pieces template), params.contains name = true)
    {cs : List Comparison} {ps : List Piece} (hcs : Occur cs ps)
    (hps : ∀ name ∈ names ps, name ∈ names (pieces template)) :
    SentIn sent.values params cs
      (.ofList (written (fun name => parameter (indexOf (pieces template) name)) ps)) := by
  -- the pieces are general: behind the first comparison only the rest of them is left, but the
  -- indices are still those of the whole template
  induction cs generalizing ps with
  | nil => trivial
  | cons c cs ih =>
      obtain ⟨before, behind, hapart, hrest, rfl⟩ := hcs
      have hnames : names (before ++ (copy (c.column ++ " " ++ c.operator ++ " ").toList
          ++ .slot (keyOf c.column) :: behind))
          = names before ++ keyOf c.column :: names behind := by
        rw [names_append, names_append, names_copy, List.nil_append, names_slot]
      rw [hnames] at hps
      have hname : keyOf c.column ∈ names (pieces template) := hps _ (by simp)
      obtain ⟨v, hv⟩ := Option.isSome_iff_exists.mp (hbound _ hname)
      refine ⟨indexOf (pieces template) (keyOf c.column), v, _, _,
        ofList_written_slot before behind _ rfl, ?_, Nat.succ_pos _, ?_, hv, ?_⟩
      · rw [String.toList_ofList]
        exact endsNumber_written hapart
      · rw [getElem?_values hsent hname, hv]
      · exact ih hrest fun name hmem => hps name (by simp [hmem])

/-- A text is not refused once its names are bound, and sends as many values as it has names. -/
theorem numbered_of_carries {template : String} {params : Bindings} {used : List String}
    {comparisons : List Comparison} (h : Carries template used comparisons)
    (hbound : ∀ name ∈ used, params.contains name = true) :
    ∃ sent, numberParameters template params = .ok sent ∧
      SentIn sent.values params comparisons sent.sql ∧
      sent.values.length = used.eraseDups.length := by
  obtain ⟨-, rfl, hoccur⟩ := h
  obtain ⟨sent, hsent⟩ := exists_numberParameters_eq_ok_iff.mpr hbound
  have hnumbers := numberParameters_eq_ok_iff.mp hsent
  refine ⟨sent, hsent, ?_, ?_⟩
  · have hsql : sent.sql
        = .ofList (written (fun name => parameter (indexOf (pieces template) name))
          (pieces template)) := by
      rw [← hnumbers.text, String.ofList_toList]
    rw [hsql]
    exact sentIn_of_occur hnumbers hbound hoccur fun _ hname => hname
  · have hlength := congrArg List.length hnumbers.values
    rwa [List.length_map, List.length_map] at hlength

/-! ## Reading and deleting -/

/-- Reading a query's rows is one call, unless its statement is refused. -/
theorem Action.Traces.get [RowReader α] (db : Database σ) (q : Select) :
    Traces (q.get α db) (q.get α db.recorded) fun _ calls =>
      ∀ sent, numberParameters q.render q.params = .ok sent →
        ∃ answer, calls = [⟨.query sent.sql sent.values, answer⟩] := by
  refine (rows db (q.toStatement "get")).bind (fun rows => settle (rows.mapM RowReader.readRow))
    ?_ ?_
  · rintro e calls (⟨e', hrefused, -⟩ | ⟨p, hnumber, rfl⟩) sent hsent
    · exact nomatch hrefused.symm.trans hsent
    · obtain rfl := Except.ok.inj (hnumber.symm.trans hsent)
      exact ⟨_, rfl⟩
  · rintro x y before after (⟨e', -, hx, -⟩ | ⟨p, hnumber, rfl⟩) ⟨-, rfl⟩ sent hsent
    · exact nomatch hx
    · obtain rfl := Except.ok.inj (hnumber.symm.trans hsent)
      exact ⟨_, rfl⟩

/-- So is deleting them. -/
theorem Action.Traces.delete (db : Database σ) (q : Select) :
    Traces (q.delete db) (q.delete db.recorded) fun _ calls =>
      ∀ sent, numberParameters ("DELETE FROM " ++ q.table ++ q.whereClause) q.params = .ok sent →
        ∃ answer, calls = [⟨.execute sent.sql sent.values, answer⟩] := by
  refine (execute db _).mono ?_
  rintro y calls (⟨e, hrefused, -⟩ | ⟨p, hnumber, rfl⟩) sent hsent
  · exact nomatch hrefused.symm.trans hsent
  · obtain rfl := Except.ok.inj (hnumber.symm.trans hsent)
    exact ⟨_, rfl⟩

/-! ## The theorem -/

/-- A query on a table whose name is inert. -/
theorem Select.sound_table {db : Database σ} {name : String} (h : Inert (db.tableName name)) :
    (db.table name).Sound where
  table := h
  columns _ hs := nomatch hs
  joins _ hs := nomatch hs
  condition := Condition.sound_empty
  having := inert_empty
  grouping _ hs := nomatch hs
  ordering _ hp := nomatch hp

/-- The numbered form of a text with a condition in it: all comparisons stand in it with the values
that the condition binds, and it sends a value for every name that the condition uses. -/
structure Binds (g : Condition) (template : String) (sent : NumberedStatement) : Prop where
  numbered : numberParameters template g.params = .ok sent
  comparisons : SentIn sent.values g.params (comparisonsOf g.members) sent.sql
  length : sent.values.length = (usedNamesOf g.members).eraseDups.length

theorem exists_binds {g : Condition} {template : String} (hg : g.Sound)
    (h : Carries template (usedNamesOf g.members) (comparisonsOf g.members)) :
    ∃ sent, Binds g template sent := by
  obtain ⟨sent, hsent, hcomparisons, hlength⟩ := numbered_of_carries h hg.bound
  exact ⟨sent, hsent, hcomparisons, hlength⟩

/-- **Every comparison is sent with the value bound to its column.**  A query built from tidy texts,
in any order and with any values, has the comparisons of its steps.  It is read by one call, and
deleted by one call; neither is refused, both send the comparisons with the values bound to their
columns, and no value but those of the names in comparisons and raw texts. -/
theorem comparisons_are_sent (db : Database σ) (name : String) (steps : List SelectStep)
    (s : Session σ) (htable : Inert (db.tableName name))
    (hsteps : ∀ step ∈ steps, step.Tidy db.settings.tablePrefix) :
    let q := db.build name steps
    comparisonsOf q.condition.members = steps.flatMap SelectStep.comparisons ∧
    (∃ sent, Binds q.condition q.render sent ∧
      ∀ (α : Type) [RowReader α], ∃ answer,
        ((q.get α db.recorded).run s.recorded).2.client.2
          = [⟨.query sent.sql sent.values, answer⟩]) ∧
    ∃ sent, Binds q.condition ("DELETE FROM " ++ q.table ++ q.whereClause) sent ∧
      ∃ answer, ((q.delete db.recorded).run s.recorded).2.client.2
        = [⟨.execute sent.sql sent.values, answer⟩] := by
  intro q
  -- every step keeps the query sound, so its statements carry what its condition carries
  have hextends := Select.extends_applyAll (Select.sound_table htable) hsteps
  have hsound : q.Sound := hextends.sound
  refine ⟨hextends.comparisons, ?_, ?_⟩
  · obtain ⟨sent, hbinds⟩ := exists_binds hsound.condition hsound.carries_render
    refine ⟨sent, hbinds, fun α _ => ?_⟩
    obtain ⟨-, -, calls, hcalls, hanswer⟩ := Action.Traces.get (α := α) db q s.recorded
    obtain ⟨answer, rfl⟩ := hanswer sent hbinds.numbered
    exact ⟨answer, hcalls⟩
  · obtain ⟨sent, hbinds⟩ := exists_binds hsound.condition hsound.carries_delete
    obtain ⟨-, -, calls, hcalls, hanswer⟩ := Action.Traces.delete db q s.recorded
    obtain ⟨answer, rfl⟩ := hanswer sent hbinds.numbered
    exact ⟨sent, hbinds, answer, hcalls⟩

/-- A join, a nested condition beside a list of values, and a condition on groups; the literals hold
quotes and colons. -/
theorem comparisons_of_nested_condition :
    let db : Database Unit := ⟨.accepting, {}, fun _ => none⟩
    let steps : List SelectStep :=
      [.join .inner "orders" "users.id" "=" "orders.user_id",
        .condition (.equality .and "users.id" (.int 7)),
        .condition (.among .and false "kind" [.text "it's :x"]),
        .condition (.group .or [.compare .and "age" ">" (.int 18),
          .raw .or "name ILIKE :s" [("s", .text "%a%")]]),
        .having .and "COUNT(*)" ">" (.text "':n"), .limit 5]
    let q := db.build "users" steps
    comparisonsOf q.condition.members = [⟨"users.id", "="⟩, ⟨"age", ">"⟩] ∧
      ∃ sent, Binds q.condition q.render sent ∧
        sent.sql = "SELECT * FROM users INNER JOIN orders ON (users.id = orders.user_id)" ++
          " WHERE users.id = $1 AND kind IN ('it''s :x') OR (age > $2 OR name ILIKE $3)" ++
          " HAVING COUNT(*) > ''':n' LIMIT 5" ∧
        sent.values.map Value.literal = ["7", "18", "'%a%'"] := by
  intro db steps q
  have htable : Inert (db.tableName "users") := by decide +kernel
  have horders : Inert (db.settings.tablePrefix ++ "orders") := by decide +kernel
  have hid : Inert "users.id" ∧ Inert "=" ∧ "users.id" ≠ "" := by decide +kernel
  have huser : Inert "orders.user_id" := by decide +kernel
  have hkind : Inert "kind" := by decide +kernel
  have hage : Inert "age" ∧ Inert ">" ∧ "age" ≠ "" := by decide +kernel
  have hname : Closes "name ILIKE :s" ∧ ∀ name ∈ names (pieces "name ILIKE :s"), name ∈ ["s"] := by
    decide +kernel
  have hcount : Inert "COUNT(*)" ∧ Inert ">" := by decide +kernel
  have hsteps : ∀ step ∈ steps, step.Tidy db.settings.tablePrefix := by
    intro step hstep
    simp only [steps, List.mem_cons, List.not_mem_nil, or_false] at hstep
    rcases hstep with rfl | rfl | rfl | rfl | rfl | rfl
    · exact SelectStep.tidy_join .inner horders hid.1 hid.2.1 huser
    · exact hid
    · exact hkind
    · exact ⟨hage, hname, trivial⟩
    · exact hcount
    · trivial
  obtain ⟨hcomparisons, ⟨sent, hbinds, -⟩, -⟩ :=
    comparisons_are_sent db "users" steps (.new {} ()) htable hsteps
  have htext : (numberParameters q.render q.params).toOption.map
      (fun sent => (sent.sql, sent.values.map Value.literal))
      = some ("SELECT * FROM users INNER JOIN orders ON (users.id = orders.user_id)" ++
          " WHERE users.id = $1 AND kind IN ('it''s :x') OR (age > $2 OR name ILIKE $3)" ++
          " HAVING COUNT(*) > ''':n' LIMIT 5", ["7", "18", "'%a%'"]) := by
    decide +kernel
  have hnumber : numberParameters q.render q.params = .ok sent := hbinds.numbered
  rw [hnumber] at htext
  obtain ⟨hsql, hvalues⟩ := Prod.ext_iff.mp (Option.some.inj htext)
  exact ⟨hcomparisons, sent, hbinds, hsql, hvalues⟩

end SqlBuilder
