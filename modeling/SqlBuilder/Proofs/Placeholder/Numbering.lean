import Mathlib.Data.List.Basic
import SqlBuilder.Proofs.Placeholder.Segmentation

/-!
# What a segmentation determines

The two renderings of a template, read off its segmentation.  For execution the names are numbered
from one in order of first appearance and the values are those of the distinct names in that order
(`Numbers`); the statement exists iff every name is bound, and otherwise the first unbound name is
refused.  For logs every name gives way to its literal.
-/

namespace SqlBuilder.Placeholder

/-! ## Distinct names and their indices -/

/-- The names of the placeholders, each once, in order of first appearance. -/
def distinctNames (ps : List Piece) : List String := (names ps).eraseDups

/-- The 1-based rank of a name among the distinct names. -/
def indexOf (ps : List Piece) (name : String) : Nat := (distinctNames ps).idxOf name + 1

/-- What stands for a placeholder in a numbered statement. -/
def parameter (k : Nat) : List Char := '$' :: (toString k).toList

/-- The pieces as a server takes them: every name as its index, and the values of the distinct
names. -/
structure Numbers (params : Bindings) (ps : List Piece) (s : NumberedStatement) : Prop where
  text : s.sql.toList = written (fun name => parameter (indexOf ps name)) ps
  values : s.values.map some = (distinctNames ps).map params.get?

@[simp]
theorem names_nil : names [] = [] := rfl

@[simp]
theorem names_copied (c : Char) (ps : List Piece) : names (.copied c :: ps) = names ps := rfl

@[simp]
theorem names_slot (name : String) (ps : List Piece) :
    names (.slot name :: ps) = name :: names ps := rfl

theorem names_append (ps qs : List Piece) : names (ps ++ qs) = names ps ++ names qs :=
  List.filterMap_append

@[simp]
theorem names_copy (cs : List Char) : names (copy cs) = [] := by
  induction cs with
  | nil => rfl
  | cons c cs ih => exact ih

theorem mem_distinctNames {ps : List Piece} {name : String} :
    name ∈ distinctNames ps ↔ name ∈ names ps :=
  List.mem_eraseDups

theorem length_filter_lt_length_cons (p : String → Bool) (a : String) (l : List String) :
    (l.filter p).length < (a :: l).length := by
  have := List.length_filter_le p l
  rw [List.length_cons]
  omega

theorem nodup_eraseDups : (l : List String) → l.eraseDups.Nodup
  | [] => List.nodup_nil
  | a :: l => by
      rw [List.eraseDups_cons, List.nodup_cons]
      exact ⟨by simp [List.mem_eraseDups], nodup_eraseDups _⟩
  termination_by l => l.length
  decreasing_by exact length_filter_lt_length_cons _ a l

/-- A search finds the first appearance, so it does not miss what is dropped. -/
theorem find?_eraseDups (p : String → Bool) : (l : List String) → l.eraseDups.find? p = l.find? p
  | [] => rfl
  | a :: l => by
      rw [List.eraseDups_cons, List.find?_cons, List.find?_cons]
      cases ha : p a with
      | true => rfl
      | false =>
          -- what is dropped is `a` again, of which `p` is false as well
          have hsame : (fun b => decide ((!b == a) = true ∧ p b = true)) = p := by
            funext b
            by_cases hb : b = a
            · simp [hb, ha]
            · simp [hb]
          rw [find?_eraseDups p (l.filter fun b => !b == a), List.find?_filter, hsame]
  termination_by l => l.length
  decreasing_by exact length_filter_lt_length_cons _ a l

/-! ## The numbering pass -/

theorem rank_of_mem {met : List String} {name : String} (h : name ∈ met) :
    rank met name = (met.idxOf name + 1, met) := by
  have hfind : met.findIdx? (· = name) = some (met.idxOf name) := by
    rw [List.findIdx?_eq_some_iff_findIdx_eq]
    have heq : met.idxOf name = met.findIdx (· = name) := by
      unfold List.idxOf
      congr 1
    exact ⟨List.idxOf_lt_length_of_mem h, heq.symm⟩
  rw [rank, hfind]

theorem rank_of_not_mem {met : List String} {name : String} (h : name ∉ met) :
    rank met name = (met.length + 1, met ++ [name]) := by
  have hfind : met.findIdx? (· = name) = none := by
    rw [List.findIdx?_eq_none_iff]
    intro a ha
    exact decide_eq_false fun e => h (e ▸ ha)
  rw [rank, hfind]

theorem removeAll_append (ns met : List String) (name : String) :
    ns.removeAll (met ++ [name]) = (ns.removeAll met).filter fun n => !n == name := by
  unfold List.removeAll
  rw [List.filter_filter]
  congr 1
  funext a
  by_cases ha : a = name <;> simp [ha]

/-- The names met at the end: those met before, then the new ones, each once. -/
theorem numbered_names (met : List String) (ps : List Piece) :
    (numbered met ps).2 = met ++ ((names ps).removeAll met).eraseDups := by
  induction ps generalizing met with
  | nil => simp [numbered, List.removeAll]
  | cons p ps ih =>
      cases p with
      | copied c => exact ih met
      | slot name =>
          by_cases h : name ∈ met
          · have hdrop : (name :: names ps).removeAll met = (names ps).removeAll met := by
              simp [List.removeAll, h]
            simp only [numbered, rank_of_mem h, ih, names_slot, hdrop]
          · have hkeep : (name :: names ps).removeAll met
                = name :: (names ps).removeAll met := by
              simp [List.removeAll, h]
            simp only [numbered, rank_of_not_mem h, ih, names_slot, hkeep, removeAll_append]
            rw [List.eraseDups_cons, List.append_assoc, List.singleton_append]

/-- A name keeps the rank that it gets when it is met, since later names go behind it. -/
theorem numbered_text (met : List String) (ps : List Piece) :
    (numbered met ps).1
      = written (fun name => parameter ((numbered met ps).2.idxOf name + 1)) ps := by
  -- the ranks are read off the names met at the end, of which those met so far are a first part
  induction ps generalizing met with
  | nil => rfl
  | cons p ps ih =>
      cases p with
      | copied c => exact congrArg (c :: ·) (ih met)
      | slot name =>
          by_cases h : name ∈ met
          · have hrank : (numbered met ps).2.idxOf name = met.idxOf name := by
              rw [numbered_names, List.idxOf_append_of_mem h]
            simp only [numbered, rank_of_mem h, written_slot, hrank, parameter]
            rw [ih met]
            rfl
          · have hrank : (numbered (met ++ [name]) ps).2.idxOf name = met.length := by
              rw [numbered_names, List.append_assoc, List.idxOf_append_of_notMem h]
              simp
            simp only [numbered, rank_of_not_mem h, written_slot, hrank, parameter]
            rw [ih (met ++ [name])]
            rfl

theorem numbered_eq (ps : List Piece) :
    numbered [] ps = (written (fun name => parameter (indexOf ps name)) ps, distinctNames ps) := by
  have hnames : (numbered [] ps).2 = distinctNames ps := by
    rw [numbered_names, List.nil_append]
    simp [List.removeAll, distinctNames]
  have htext := numbered_text [] ps
  rw [hnames] at htext
  exact Prod.ext htext hnames

/-! ## The values -/

theorem valuesOf_eq_ok_iff {params : Bindings} {ns : List String} {vs : List Value} :
    valuesOf params ns = .ok vs ↔ vs.map some = ns.map params.get? := by
  induction ns generalizing vs with
  | nil => cases vs <;> simp [valuesOf]
  | cons name ns ih =>
      rw [valuesOf]
      cases hget : params.get? name with
      | none => cases vs <;> simp [hget]
      | some v =>
          cases hrest : valuesOf params ns with
          | error e =>
              cases vs with
              | nil => simp [Except.map]
              | cons w ws =>
                  have : ws.map some ≠ ns.map params.get? := by
                    intro h
                    rw [← ih, hrest] at h
                    exact nomatch h
                  simp [Except.map, this]
          | ok us =>
              have hus : us.map some = ns.map params.get? := ih.mp hrest
              cases vs with
              | nil => simp [Except.map]
              | cons w ws =>
                  have hinj : us.map some = ws.map some ↔ us = ws :=
                    (List.map_inj_right fun _ _ => Option.some.inj)
                  simp [Except.map, hget, ← hus, ← hinj, eq_comm]

/-- The name that is refused is the first one without a value. -/
theorem valuesOf_eq_error_iff {params : Bindings} {ns : List String} {name : String} :
    valuesOf params ns = .error name ↔ ns.find? (fun n => !params.contains n) = some name := by
  induction ns with
  | nil => simp [valuesOf]
  | cons n ns ih =>
      rw [valuesOf, List.find?_cons]
      cases hget : params.get? n with
      | none => simp [SortedMap.contains, hget]
      | some v =>
          have hbound : (!params.contains n) = false := by simp [SortedMap.contains, hget]
          rw [hbound]
          change (valuesOf params ns).map (v :: ·) = .error name ↔ _
          rw [← ih]
          cases valuesOf params ns <;> simp [Except.map]

/-! ## Numbered statements -/

theorem numberParameters_of_values {template : String} {params : Bindings} {vs : List Value}
    (h : valuesOf params (distinctNames (pieces template)) = .ok vs) :
    numberParameters template params =
      .ok ⟨.ofList (written (fun name => parameter (indexOf (pieces template) name))
        (pieces template)), vs⟩ := by
  simp only [numberParameters, numbered_eq, h]

theorem numberParameters_of_missing {template : String} {params : Bindings} {name : String}
    (h : valuesOf params (distinctNames (pieces template)) = .error name) :
    numberParameters template params = .error (.validation (.unboundPlaceholder name)) := by
  simp only [numberParameters, numbered_eq, h]

/-- The pieces of a template determine its numbered statement. -/
theorem numberParameters_eq_ok_iff {template : String} {params : Bindings}
    {s : NumberedStatement} :
    numberParameters template params = .ok s ↔ Numbers params (pieces template) s := by
  constructor
  · intro h
    cases hvalues : valuesOf params (distinctNames (pieces template)) with
    | error name =>
        rw [numberParameters_of_missing hvalues] at h
        exact nomatch h
    | ok vs =>
        rw [numberParameters_of_values hvalues] at h
        cases h
        exact ⟨String.toList_ofList, valuesOf_eq_ok_iff.mp hvalues⟩
  · rintro ⟨htext, hvalues⟩
    rw [numberParameters_of_values (valuesOf_eq_ok_iff.mpr hvalues), ← htext,
      String.ofList_toList]

/-- A template is refused for the first of its names that has no value. -/
theorem numberParameters_eq_error_iff {template : String} {params : Bindings}
    {e : DatabaseError} :
    numberParameters template params = .error e ↔
      ∃ name, (names (pieces template)).find? (fun n => !params.contains n) = some name ∧
        e = .validation (.unboundPlaceholder name) := by
  constructor
  · intro h
    cases hvalues : valuesOf params (distinctNames (pieces template)) with
    | error name =>
        rw [numberParameters_of_missing hvalues] at h
        cases h
        rw [valuesOf_eq_error_iff, distinctNames, find?_eraseDups] at hvalues
        exact ⟨name, hvalues, rfl⟩
    | ok vs =>
        rw [numberParameters_of_values hvalues] at h
        exact nomatch h
  · rintro ⟨name, hname, rfl⟩
    rw [← find?_eraseDups] at hname
    exact numberParameters_of_missing (valuesOf_eq_error_iff.mpr hname)

/-- There is a numbered statement iff every name is bound. -/
theorem exists_numberParameters_eq_ok_iff {template : String} {params : Bindings} :
    (∃ s, numberParameters template params = .ok s) ↔
      ∀ name ∈ names (pieces template), params.contains name = true := by
  cases h : numberParameters template params with
  | ok s =>
      refine ⟨fun _ => ?_, fun _ => ⟨s, rfl⟩⟩
      -- the first name without a value would have been refused
      by_contra hunbound
      push Not at hunbound
      obtain ⟨name, hmem, hname⟩ := hunbound
      obtain ⟨first, hfirst⟩ : ∃ n, (names (pieces template)).find?
          (fun n => !params.contains n) = some n := by
        rw [← Option.isSome_iff_exists, List.find?_isSome]
        exact ⟨name, hmem, by simpa using hname⟩
      rw [numberParameters_eq_error_iff.mpr ⟨first, hfirst, rfl⟩] at h
      exact nomatch h
  | error e =>
      obtain ⟨name, hname, _⟩ := numberParameters_eq_error_iff.mp h
      have hunbound := List.find?_some hname
      refine ⟨fun ⟨s, hs⟩ => (nomatch hs), fun hall => ?_⟩
      rw [hall name (List.mem_of_find?_eq_some hname)] at hunbound
      exact absurd hunbound (by decide)

/-- The indices written are those of the values, without a gap. -/
theorem mem_indices_iff {params : Bindings} {ps : List Piece} {s : NumberedStatement}
    (h : Numbers params ps s) (k : Nat) :
    k ∈ (names ps).map (indexOf ps) ↔ 1 ≤ k ∧ k ≤ s.values.length := by
  have hlength : s.values.length = (distinctNames ps).length := by
    simpa using congrArg List.length h.values
  rw [hlength, List.mem_map]
  constructor
  · rintro ⟨name, hname, rfl⟩
    have := List.idxOf_lt_length_of_mem (mem_distinctNames.mpr hname)
    unfold indexOf
    omega
  · rintro ⟨hpos, hle⟩
    -- a name stands once among the distinct ones, so its place there is its index
    have hlt : k - 1 < (distinctNames ps).length := by omega
    refine ⟨(distinctNames ps)[k - 1], mem_distinctNames.mp (List.getElem_mem hlt), ?_⟩
    have hidx : (distinctNames ps).idxOf (distinctNames ps)[k - 1] = k - 1 :=
      (nodup_eraseDups (names ps)).idxOf_getElem _ _
    rw [indexOf, hidx]
    omega

/-- Different placeholders have different indices. -/
theorem indexOf_inj {ps : List Piece} {a b : String} (ha : a ∈ names ps)
    (h : indexOf ps a = indexOf ps b) : a = b :=
  (List.idxOf_inj (mem_distinctNames.mpr ha)).mp (Nat.succ.inj h)

/-- The value under the index of a name is the one bound to it. -/
theorem getElem?_values {params : Bindings} {ps : List Piece} {s : NumberedStatement}
    (h : Numbers params ps s) {name : String} (hname : name ∈ names ps) :
    s.values[indexOf ps name - 1]? = params.get? name := by
  have hmem : name ∈ distinctNames ps := mem_distinctNames.mpr hname
  have hlt := List.idxOf_lt_length_of_mem hmem
  have hget := congrArg (·[(distinctNames ps).idxOf name]?) h.values
  simp only [List.getElem?_map, List.getElem?_eq_getElem hlt, List.getElem_idxOf,
    Option.map_some] at hget
  rw [indexOf, Nat.add_sub_cancel]
  cases hvalue : s.values[(distinctNames ps).idxOf name]? with
  | none => simp [hvalue] at hget
  | some v => simpa [hvalue] using hget

/-- What a log shows for a name: the literal of its value, `NULL` without one. -/
def literalOrNull (params : Bindings) (name : String) : List Char :=
  match params.get? name with
  | some v => v.literal.toList
  | none => ['N', 'U', 'L', 'L']

theorem toList_fillLiterals (template : String) (params : Bindings) :
    (fillLiterals template params).toList = written (literalOrNull params) (pieces template) := by
  have hslot : ∀ name, literalOf params (.slot name) = literalOrNull params name := by
    intro name
    simp only [literalOf, literalOrNull]
    cases params.get? name <;> rfl
  rw [fillLiterals, String.toList_ofList]
  induction pieces template with
  | nil => rfl
  | cons p ps ih =>
      rw [List.flatMap_cons, ih]
      cases p with
      | copied c => rfl
      | slot name => rw [hslot, written_slot]

/-! ## The theorem -/

/-- **A template has one segmentation, and it determines both renderings.**  The statement exists
iff every name is bound, otherwise the first unbound name is refused; it is the text with every name
as its index, beside the values of the distinct names, and its indices are one up to the number of
values.  A log shows the text with every name as its literal. -/
theorem segmentation_determines_renderings (template : String) (params : Bindings) :
    ∃ ps, Segmented template.toList ps ∧ (∀ qs, Segmented template.toList qs → qs = ps) ∧
      written (fun name => ':' :: name.toList) ps = template.toList ∧
      ((∃ s, numberParameters template params = .ok s) ↔
        ∀ name ∈ names ps, params.contains name = true) ∧
      (∀ e, numberParameters template params = .error e ↔
        ∃ name, (names ps).find? (fun n => !params.contains n) = some name ∧
          e = .validation (.unboundPlaceholder name)) ∧
      (∀ s, numberParameters template params = .ok s →
        Numbers params ps s ∧
          ∀ k, k ∈ (names ps).map (indexOf ps) ↔ 1 ≤ k ∧ k ≤ s.values.length) ∧
      (fillLiterals template params).toList = written (literalOrNull params) ps := by
  have hsegmented : Segmented template.toList (pieces template) := segmented_iff.mpr rfl
  refine ⟨pieces template, hsegmented, fun _ h => segmented_iff.mp h, written_source hsegmented,
    exists_numberParameters_eq_ok_iff, fun _ => numberParameters_eq_error_iff, ?_,
    toList_fillLiterals template params⟩
  intro s hs
  have hnumbers := numberParameters_eq_ok_iff.mp hs
  exact ⟨hnumbers, mem_indices_iff hnumbers⟩

end SqlBuilder.Placeholder
