import SqlBuilder.Proofs.Placeholder.Inert

/-!
# Templates one behind the other

A template may be cut in two wherever the scanner has nothing open that the second text goes on with
(`Seam`): outside quotes, not behind a colon that would make a cast or a placeholder with what
follows, and not inside a name that goes on.  There the pieces of the whole are those of the one
text and those of the other, and a log of the whole is the one log and the other.

A numbered statement needs more, since the parameters are numbered through
(`NumberedThrough`): what was said in front keeps its indices, and the names that come in
with the second text (`newNames`) are numbered behind all of the first.
-/

namespace SqlBuilder.Placeholder

/-! ## Seams -/

/-- The scanner may be cut between two texts. -/
def Seam (a b : String) : Prop := BeginsAnew (after .code a.toList) b.toList

instance (cs : List Char) : Decidable (EndsName cs) := Option.decidableForallMem cs.head?

instance (cs : List Char) : Decidable (EndsColons cs) := inferInstanceAs (Decidable (_ ≠ _))

instance : (m : Mode) → (cs : List Char) → Decidable (BeginsAnew m cs)
  | .code, _ => .isTrue trivial
  | .quoted _, _ => .isFalse id
  | .colon, cs => inferInstanceAs (Decidable (EndsColons cs ∧ EndsName cs))
  | .name _, cs => inferInstanceAs (Decidable (EndsName cs))

instance (a b : String) : Decidable (Seam a b) := inferInstanceAs (Decidable (BeginsAnew _ _))

theorem Seam.pieces_append {a b : String} (h : Seam a b) :
    pieces (a ++ b) = pieces a ++ pieces b := by
  rw [pieces, String.toList_append, scan_append, scan_beginsAnew h, ← List.append_assoc]
  rfl

/-- A placeholder ends where no name goes on. -/
theorem pieces_slot_append {key rest : String} (hkey : IsKey key) (hrest : EndsName rest.toList) :
    pieces (":" ++ key ++ rest) = .slot key :: pieces rest := by
  have hne : key.toList ≠ [] := fun h => hkey.ne_empty (String.toList_eq_nil_iff.mp h)
  have hscan := scan_colon_name hne hkey.isKeyChar hrest
  rw [String.ofList_toList] at hscan
  rw [pieces, String.toList_append, String.toList_append, List.append_assoc]
  exact hscan

/-! ## Numbering through -/

/-- The names that are met in the second pieces and not in the first, each once. -/
def newNames (ps qs : List Piece) : List String := ((names qs).removeAll (names ps)).eraseDups

theorem distinctNames_append (ps qs : List Piece) :
    distinctNames (ps ++ qs) = distinctNames ps ++ newNames ps qs := by
  rw [distinctNames, names_append, List.eraseDups_append]
  rfl

/-- A name that was met in front keeps its index. -/
theorem indexOf_append_of_mem {ps : List Piece} {name : String} (h : name ∈ names ps)
    (qs : List Piece) : indexOf (ps ++ qs) name = indexOf ps name := by
  rw [indexOf, distinctNames_append, List.idxOf_append_of_mem (mem_distinctNames.mpr h)]
  rfl

theorem mem_newNames {ps qs : List Piece} {name : String} :
    name ∈ newNames ps qs ↔ name ∈ names qs ∧ name ∉ names ps := by
  rw [newNames, List.mem_eraseDups]
  simp [List.removeAll]

/-- A new name is numbered behind all that were met in front. -/
theorem indexOf_append_of_mem_newNames {ps qs : List Piece} {name : String}
    (h : name ∈ newNames ps qs) :
    indexOf (ps ++ qs) name = (distinctNames ps).length + ((newNames ps qs).idxOf name + 1) := by
  have hnot : name ∉ distinctNames ps := fun hmem =>
    (mem_newNames.mp h).2 (mem_distinctNames.mp hmem)
  rw [indexOf, distinctNames_append, List.idxOf_append_of_notMem hnot, Nat.add_assoc]

/-- A statement `u` of two texts, of which the first alone is `s`: the text goes on with the second
one, and the values with those of its new names. -/
structure NumberedThrough (params : Bindings) (ps qs : List Piece) (s u : NumberedStatement) :
    Prop where
  text : u.sql.toList
    = s.sql.toList ++ written (fun name => parameter (indexOf (ps ++ qs) name)) qs
  values : ∃ added, u.values = s.values ++ added ∧
    added.map some = (newNames ps qs).map params.get?

theorem written_congr {f g : String → List Char} {ps : List Piece}
    (h : ∀ name ∈ names ps, f name = g name) : written f ps = written g ps := by
  induction ps with
  | nil => rfl
  | cons p ps ih =>
      cases p with
      | copied c => rw [written_copied, written_copied, ih h]
      | slot name =>
          obtain ⟨hname, hrest⟩ := List.forall_mem_cons.mp h
          rw [written_slot, written_slot, hname, ih hrest]

theorem Numbers.numberedThrough {params : Bindings} {ps qs : List Piece}
    {s u : NumberedStatement} (hs : Numbers params ps s) (hu : Numbers params (ps ++ qs) u) :
    NumberedThrough params ps qs s u where
  text := by
    -- in the first text every name is one that was met in front
    have hsame : written (fun name => parameter (indexOf (ps ++ qs) name)) ps
        = written (fun name => parameter (indexOf ps name)) ps := by
      refine written_congr fun name hname => ?_
      rw [indexOf_append_of_mem hname]
    rw [hu.text, written_append, hsame, ← hs.text]
  values := by
    have hvalues := hu.values
    rw [distinctNames_append, List.map_append, ← hs.values] at hvalues
    obtain ⟨front, added, hsplit, hfront, hadded⟩ := List.map_eq_append_iff.mp hvalues
    have hinj : front = s.values := (List.map_inj_right fun _ _ => Option.some.inj).mp hfront
    exact ⟨added, by rw [hsplit, hinj], hadded⟩

/-! ## Translation -/

theorem Seam.fillLiterals_append {a b : String} (h : Seam a b) (params : Bindings) :
    fillLiterals (a ++ b) params = fillLiterals a params ++ fillLiterals b params := by
  rw [fillLiterals, h.pieces_append, List.flatMap_append, String.ofList_append]
  rfl

theorem Seam.numberedThrough {a b : String} (h : Seam a b) {params : Bindings}
    {s u : NumberedStatement} (hs : numberParameters a params = .ok s)
    (hu : numberParameters (a ++ b) params = .ok u) :
    NumberedThrough params (pieces a) (pieces b) s u := by
  rw [numberParameters_eq_ok_iff] at hs hu
  rw [h.pieces_append] at hu
  exact hs.numberedThrough hu

/-- The first text is asked first. -/
theorem Seam.numberParameters_eq_error_iff {a b : String} (h : Seam a b) {params : Bindings}
    {e : DatabaseError} : numberParameters (a ++ b) params = .error e ↔
      numberParameters a params = .error e ∨
        ((∃ s, numberParameters a params = .ok s) ∧ numberParameters b params = .error e) := by
  rw [Placeholder.numberParameters_eq_error_iff, Placeholder.numberParameters_eq_error_iff,
    Placeholder.numberParameters_eq_error_iff, exists_numberParameters_eq_ok_iff, h.pieces_append,
    names_append, List.find?_append]
  cases hfind : (names (pieces a)).find? fun n => !params.contains n with
  | none =>
      have hall : ∀ name ∈ names (pieces a), params.contains name = true := by
        simpa using List.find?_eq_none.mp hfind
      simp only [Option.none_or, reduceCtorEq, false_and, exists_false, false_or,
        and_iff_right hall]
  | some name =>
      have hmissing : ¬ ∀ name ∈ names (pieces a), params.contains name = true := fun hall => by
        have hunbound := List.find?_some hfind
        rw [hall name (List.mem_of_find?_eq_some hfind)] at hunbound
        exact absurd hunbound (by decide)
      simp [hmissing]

theorem Seam.exists_numberParameters_eq_ok_iff {a b : String} (h : Seam a b) {params : Bindings} :
    (∃ u, numberParameters (a ++ b) params = .ok u) ↔
      (∃ s, numberParameters a params = .ok s) ∧ ∃ t, numberParameters b params = .ok t := by
  rw [Placeholder.exists_numberParameters_eq_ok_iff, Placeholder.exists_numberParameters_eq_ok_iff,
    Placeholder.exists_numberParameters_eq_ok_iff, h.pieces_append, names_append,
    List.forall_mem_append]

/-! ## The theorem -/

/-- Two texts one behind the other are scanned each by itself: the placeholders of the whole are
those of the first and then those of the second, and a log shows the one text and then the other.
The whole is a statement iff both texts are, and else refused for the first of them that is.  Its
parameters are numbered through: the names of the first text keep their indices, the new names of
the second come behind them, and so do their values. -/
structure ScannedByParts (a b : String) (params : Bindings) : Prop where
  pieces_eq : pieces (a ++ b) = pieces a ++ pieces b
  names_eq : names (pieces (a ++ b)) = names (pieces a) ++ names (pieces b)
  filled : fillLiterals (a ++ b) params = fillLiterals a params ++ fillLiterals b params
  accepted_iff : (∃ u, numberParameters (a ++ b) params = .ok u) ↔
    (∃ s, numberParameters a params = .ok s) ∧ ∃ t, numberParameters b params = .ok t
  refused_iff : ∀ e, numberParameters (a ++ b) params = .error e ↔
    numberParameters a params = .error e ∨
      ((∃ s, numberParameters a params = .ok s) ∧ numberParameters b params = .error e)
  numbered : ∀ s u, numberParameters a params = .ok s → numberParameters (a ++ b) params = .ok u →
    NumberedThrough params (pieces a) (pieces b) s u
  index_kept : ∀ name ∈ names (pieces a),
    indexOf (pieces (a ++ b)) name = indexOf (pieces a) name
  index_new : ∀ name ∈ newNames (pieces a) (pieces b), indexOf (pieces (a ++ b)) name
    = (distinctNames (pieces a)).length + ((newNames (pieces a) (pieces b)).idxOf name + 1)

theorem Seam.scannedByParts {a b : String} (h : Seam a b) (params : Bindings) :
    ScannedByParts a b params where
  pieces_eq := h.pieces_append
  names_eq := by rw [h.pieces_append, names_append]
  filled := h.fillLiterals_append params
  accepted_iff := h.exists_numberParameters_eq_ok_iff
  refused_iff _ := h.numberParameters_eq_error_iff
  numbered _ _ := h.numberedThrough
  index_kept name hname := by rw [h.pieces_append, indexOf_append_of_mem hname]
  index_new name hname := by rw [h.pieces_append, indexOf_append_of_mem_newNames hname]

/-- **Templates are scanned by parts** wherever the scanner may be cut between two texts.  A
column's placeholder is one placeholder in front of any text that does not go on with its name. -/
theorem templates_are_scanned_by_parts (a b : String) (params : Bindings) (h : Seam a b) :
    ScannedByParts a b params ∧
      ∀ column rest : String, column ≠ "" → EndsName rest.toList →
        pieces (":" ++ keyOf column ++ rest) = .slot (keyOf column) :: pieces rest := by
  constructor
  · exact h.scannedByParts params
  · intro column rest hcolumn hrest
    exact pieces_slot_append (isKey_keyOf hcolumn) hrest

/-- The first text ends in a name and the second begins with a cast. -/
theorem templates_meet_at_a_cast :
    let params : Bindings := .ofList [("id", .int 1), ("x", .text "it's"), ("y", .null)]
    let a := "a = :id AND b = :x"
    let b := "::int OR c = :y::text AND d = :x"
    let rest := "::int"
    Seam a b ∧
      pieces (a ++ b) = pieces a ++ pieces b ∧
      fillLiterals (a ++ b) params
        = "a = 1 AND b = 'it''s'" ++ "::int OR c = NULL::text AND d = 'it''s'" ∧
      (numberParameters b params).toOption.map (·.sql) = some "::int OR c = $1::text AND d = $2" ∧
      (numberParameters (a ++ b) params).toOption.map (·.sql)
        = some "a = $1 AND b = $2::int OR c = $3::text AND d = $2" ∧
      (∃ u, numberParameters (a ++ b) params = .ok u) ∧
      pieces (":" ++ keyOf "u.id" ++ rest) = .slot "u_id" :: pieces rest := by
  intro params a b rest
  have hseam : Seam a b := by decide +kernel
  obtain ⟨hparts, hslot⟩ := templates_are_scanned_by_parts a b params hseam
  have hfirst : ∃ s, numberParameters a params = .ok s :=
    exists_numberParameters_eq_ok_iff.mpr (by decide +kernel)
  have hsecond : ∃ t, numberParameters b params = .ok t :=
    exists_numberParameters_eq_ok_iff.mpr (by decide +kernel)
  exact ⟨hseam, hparts.pieces_eq, hparts.filled.trans (by decide +kernel), by decide +kernel,
    by decide +kernel, hparts.accepted_iff.mpr ⟨hfirst, hsecond⟩,
    hslot "u.id" rest (by decide) (by decide +kernel)⟩

end SqlBuilder.Placeholder
