import Mathlib.Data.List.TakeWhile
import SqlBuilder.Placeholder.Rendering

/-!
# The segmentation of a template

`Segmented` says by rules, without a scanner, which pieces a template is made of: quoted text is
copied up to the quote that closes it, a run of colons pairs up from the left, and the colon that is
left over begins a name, which is as long as it can be.  Every template has exactly one
segmentation, and it is what the scanner returns (`segmented_iff`).

`written` puts pieces back together.  With a colon before every name it gives the template again, so
nothing is lost between the pieces (`written_source`).
-/

namespace SqlBuilder.Placeholder

/-! ## The rules -/

/-- The two characters that open and close quoted text. -/
def IsQuote (c : Char) : Prop := c = '\'' ∨ c = '"'

instance (c : Char) : Decidable (IsQuote c) := inferInstanceAs (Decidable (_ ∨ _))

/-- Pieces that are copied as they are. -/
def copy (cs : List Char) : List Piece := cs.map .copied

/-- A run of `n` colons. -/
def colons (n : Nat) : List Char := List.replicate n ':'

/-- The text does not go on with a character that a name may hold. -/
def EndsName (cs : List Char) : Prop := ∀ c, cs.head? = some c → isKeyChar c = false

/-- The text does not go on with a colon. -/
def EndsColons (cs : List Char) : Prop := cs.head? ≠ some ':'

/-- The pieces of a text, rule by rule. -/
inductive Segmented : List Char → List Piece → Prop
  | done : Segmented [] []
  | plain {c : Char} {cs : List Char} {ps : List Piece} :
      ¬ IsQuote c → c ≠ ':' → Segmented cs ps → Segmented (c :: cs) (.copied c :: ps)
  /-- Quoted text ends at the next quote of its kind. -/
  | closed {q : Char} {body cs : List Char} {ps : List Piece} :
      IsQuote q → q ∉ body → Segmented cs ps →
      Segmented (q :: (body ++ q :: cs)) (copy (q :: (body ++ [q])) ++ ps)
  /-- Without such a quote it goes on to the end. -/
  | unclosed {q : Char} {body : List Char} :
      IsQuote q → q ∉ body → Segmented (q :: body) (copy (q :: body))
  /-- An even run of colons is nothing but casts. -/
  | casts {n : Nat} {cs : List Char} {ps : List Piece} :
      0 < n → EndsColons cs → Segmented cs ps →
      Segmented (colons (2 * n) ++ cs) (copy (colons (2 * n)) ++ ps)
  /-- The last colon of an odd run begins a name of one character or more. -/
  | slot {n : Nat} {name cs : List Char} {ps : List Piece} :
      name ≠ [] → (∀ c ∈ name, isKeyChar c = true) → EndsName cs → Segmented cs ps →
      Segmented (colons (2 * n + 1) ++ (name ++ cs))
        (copy (colons (2 * n)) ++ .slot (.ofList name) :: ps)
  /-- Without a name behind it that colon is copied too. -/
  | colon {n : Nat} {cs : List Char} {ps : List Piece} :
      EndsColons cs → EndsName cs → Segmented cs ps →
      Segmented (colons (2 * n + 1) ++ cs) (copy (colons (2 * n + 1)) ++ ps)

/-- The pieces put together again, with the text that `f` gives for each placeholder. -/
def written (f : String → List Char) (ps : List Piece) : List Char :=
  ps.flatMap fun
    | .copied c => [c]
    | .slot name => f name

@[simp]
theorem written_nil (f : String → List Char) : written f [] = [] := rfl

@[simp]
theorem written_copied (f : String → List Char) (c : Char) (ps : List Piece) :
    written f (.copied c :: ps) = c :: written f ps := rfl

@[simp]
theorem written_slot (f : String → List Char) (name : String) (ps : List Piece) :
    written f (.slot name :: ps) = f name ++ written f ps := rfl

theorem written_append (f : String → List Char) (ps qs : List Piece) :
    written f (ps ++ qs) = written f ps ++ written f qs :=
  List.flatMap_append

@[simp]
theorem written_copy (f : String → List Char) (cs : List Char) : written f (copy cs) = cs := by
  induction cs with
  | nil => rfl
  | cons c cs ih => rw [copy, List.map_cons, written_copied, ← copy, ih]

theorem colons_succ (n : Nat) : colons (n + 1) = ':' :: colons n := rfl

theorem colons_append_colon (n : Nat) (cs : List Char) :
    colons (n + 1) ++ cs = colons n ++ ':' :: cs := by
  simp [colons, List.replicate_succ']

/-- Behind its colon every name stands in the template as it is. -/
theorem written_source {cs : List Char} {ps : List Piece} (h : Segmented cs ps) :
    written (fun name => ':' :: name.toList) ps = cs := by
  induction h with
  | done => rfl
  | plain _ _ _ ih => rw [written_copied, ih]
  | closed _ _ _ ih => simp [written_append, ih]
  | unclosed _ _ => exact written_copy _ _
  | casts _ _ _ ih => rw [written_append, written_copy, ih]
  | slot _ _ _ _ ih =>
      rw [written_append, written_copy, written_slot, ih, String.toList_ofList,
        colons_append_colon]
      rfl
  | colon _ _ _ ih => rw [written_append, written_copy, ih]

/-! ## How the scanner meets the rules -/

theorem copy_append (as bs : List Char) : copy (as ++ bs) = copy as ++ copy bs :=
  List.map_append

theorem scan_cons (m : Mode) (c : Char) (cs : List Char) :
    scan m (c :: cs) = (step m c).1 ++ scan (step m c).2 cs := by
  simp [scan, run, after]

theorem scan_quoted_closed {q : Char} {body : List Char} (h : q ∉ body) (cs : List Char) :
    scan (.quoted q) (body ++ q :: cs) = copy (body ++ [q]) ++ scan .code cs := by
  -- whatever is not `q` is copied and leaves the scanner where it stands
  induction body with
  | nil => simp [scan_cons, step, copy]
  | cons c body ih =>
      obtain ⟨hc, hbody⟩ := List.ne_and_not_mem_of_not_mem_cons h
      rw [List.cons_append, scan_cons]
      simp [step, Ne.symm hc, ih hbody, copy]

theorem scan_quoted_unclosed {q : Char} {body : List Char} (h : q ∉ body) :
    scan (.quoted q) body = copy body := by
  induction body with
  | nil => rfl
  | cons c body ih =>
      obtain ⟨hc, hbody⟩ := List.ne_and_not_mem_of_not_mem_cons h
      rw [scan_cons]
      simp [step, Ne.symm hc, ih hbody, copy]

theorem scan_casts (n : Nat) (cs : List Char) :
    scan .code (colons (2 * n) ++ cs) = copy (colons (2 * n)) ++ scan .code cs := by
  -- the second colon of a pair takes the scanner back to where the first one found it
  induction n with
  | zero => rfl
  | succ n ih =>
      have pair : colons (2 * (n + 1)) = ':' :: ':' :: colons (2 * n) := rfl
      rw [pair, List.cons_append, List.cons_append, scan_cons, scan_cons]
      simp [step, enter, ih, copy]

/-- Where no name goes on, the scanner takes up the text as outside quotes. -/
theorem scan_name_end (letters : List Char) {cs : List Char} (h : EndsName cs) :
    scan (.name letters) cs = .slot (.ofList letters) :: scan .code cs := by
  cases cs with
  | nil => rfl
  | cons c cs =>
      have hc : isKeyChar c = false := h c rfl
      rw [scan_cons, scan_cons]
      simp [step, hc]

theorem scan_name (letters : List Char) {name cs : List Char}
    (hname : ∀ c ∈ name, isKeyChar c = true) (h : EndsName cs) :
    scan (.name letters) (name ++ cs) = .slot (.ofList (letters ++ name)) :: scan .code cs := by
  -- the letters gathered so far are general, since every step adds one to them
  induction name generalizing letters with
  | nil => rw [List.nil_append, List.append_nil, scan_name_end letters h]
  | cons c name ih =>
      have hc : isKeyChar c = true := hname c List.mem_cons_self
      have htail := ih (letters ++ [c]) fun d hd => hname d (List.mem_cons_of_mem c hd)
      rw [List.cons_append, scan_cons]
      simpa [step, hc] using htail

theorem ne_colon_of_isKeyChar {c : Char} (h : isKeyChar c = true) : c ≠ ':' := by
  rintro rfl
  exact absurd h (by decide)

theorem scan_colon_name {name cs : List Char} (hne : name ≠ [])
    (hname : ∀ c ∈ name, isKeyChar c = true) (h : EndsName cs) :
    scan .code (':' :: (name ++ cs)) = .slot (.ofList name) :: scan .code cs := by
  cases name with
  | nil => exact absurd rfl hne
  | cons c name =>
      have hc : isKeyChar c = true := hname c List.mem_cons_self
      have htail := scan_name [c] (fun d hd => hname d (List.mem_cons_of_mem c hd)) h
      rw [List.cons_append, scan_cons, scan_cons]
      simpa [step, enter, hc, ne_colon_of_isKeyChar hc] using htail

theorem scan_colon_alone {cs : List Char} (hcolon : EndsColons cs) (hname : EndsName cs) :
    scan .code (':' :: cs) = .copied ':' :: scan .code cs := by
  cases cs with
  | nil => rfl
  | cons c cs =>
      have hc : c ≠ ':' := fun e => hcolon (by rw [e]; rfl)
      have hk : isKeyChar c = false := hname c rfl
      rw [scan_cons, scan_cons, scan_cons]
      simp [step, enter, hc, hk]

/-- The scanner follows the rules. -/
theorem scan_of_segmented {cs : List Char} {ps : List Piece} (h : Segmented cs ps) :
    scan .code cs = ps := by
  -- one case for each rule, and a lemma above takes the scanner over the text of that rule
  induction h with
  | done => rfl
  | @plain c cs ps hquote hcolon _ ih =>
      have hc : ¬ (c = '\'' ∨ c = '"') := hquote
      rw [scan_cons]
      simp [step, enter, hc, hcolon, ih]
  | @closed q body cs ps hquote hbody _ ih =>
      have hq : q = '\'' ∨ q = '"' := hquote
      rw [scan_cons]
      simp [step, enter, hq, scan_quoted_closed hbody, ih, copy]
  | @unclosed q body hquote hbody =>
      have hq : q = '\'' ∨ q = '"' := hquote
      rw [scan_cons]
      simp [step, enter, hq, scan_quoted_unclosed hbody, copy]
  | casts _ _ _ ih => rw [scan_casts, ih]
  | slot hne hname hend _ ih =>
      rw [colons_append_colon, scan_casts, scan_colon_name hne hname hend, ih]
  | @colon n cs ps hcolon hname _ ih =>
      have hcopy : copy (colons (2 * n + 1)) = copy (colons (2 * n)) ++ [.copied ':'] := by
        rw [← List.append_nil (colons (2 * n + 1)), colons_append_colon, copy_append]
        rfl
      rw [colons_append_colon, scan_casts, scan_colon_alone hcolon hname, ih, hcopy,
        List.append_assoc, List.singleton_append]

/-! ## Every text has a segmentation -/

theorem takeWhile_colons (cs : List Char) :
    cs.takeWhile (· = ':') = colons (cs.takeWhile (· = ':')).length :=
  List.eq_replicate_of_mem fun _ h => by simpa using List.mem_takeWhile_imp h

theorem endsColons_dropWhile (cs : List Char) : EndsColons (cs.dropWhile (· = ':')) := by
  intro h
  have := List.head?_dropWhile_not (fun c : Char => decide (c = ':')) cs
  rw [h] at this
  simp at this

theorem endsName_dropWhile (cs : List Char) : EndsName (cs.dropWhile isKeyChar) := by
  intro c h
  have := List.head?_dropWhile_not isKeyChar cs
  rw [h] at this
  simpa using this

/-- A text that opens with a quote has a segmentation if what follows the quoted text has one. -/
theorem exists_segmented_quote {q : Char} (hq : IsQuote q) (cs : List Char)
    (rest : ∀ tail, tail.length ≤ cs.length → ∃ ps, Segmented tail ps) :
    ∃ ps, Segmented (q :: cs) ps := by
  have hbody : q ∉ cs.takeWhile (· ≠ q) := fun h => by simpa using List.mem_takeWhile_imp h
  -- the text is cut at the next such quote; without one, nothing is left behind the cut
  have hsplit : cs.takeWhile (· ≠ q) ++ cs.dropWhile (· ≠ q) = cs :=
    List.takeWhile_append_dropWhile
  have hhead := List.head?_dropWhile_not (fun c : Char => decide (c ≠ q)) cs
  cases hdrop : cs.dropWhile (· ≠ q) with
  | nil =>
      rw [hdrop, List.append_nil] at hsplit
      rw [hsplit] at hbody
      exact ⟨_, .unclosed hq hbody⟩
  | cons d tail =>
      rw [hdrop] at hsplit hhead
      have hd : d = q := by simpa using hhead
      subst d
      have hlen : tail.length ≤ cs.length := by
        rw [← hsplit]
        simp
        omega
      obtain ⟨ps, hps⟩ := rest tail hlen
      rw [← hsplit]
      exact ⟨_, .closed hq hbody hps⟩

/-- A text that opens with a colon has a segmentation if what follows the run and its name has
one. -/
theorem exists_segmented_colon (cs : List Char)
    (rest : ∀ tail, tail.length ≤ cs.length → ∃ ps, Segmented tail ps) :
    ∃ ps, Segmented (':' :: cs) ps := by
  -- the run of colons that begins here, and what follows it
  let k := (cs.takeWhile (· = ':')).length
  let tail := cs.dropWhile (· = ':')
  have hrun : ':' :: cs = colons (k + 1) ++ tail := by
    rw [colons_succ, List.cons_append, ← takeWhile_colons]
    simp [tail]
  have htail : tail.length ≤ cs.length := (List.dropWhile_suffix _).length_le
  have hcolon : EndsColons tail := endsColons_dropWhile cs
  rw [hrun]
  -- only an odd run leaves a colon over, and then the name behind it may still be empty
  obtain ⟨n, hn⟩ : ∃ n, k + 1 = 2 * n ∨ k + 1 = 2 * n + 1 := ⟨(k + 1) / 2, by omega⟩
  rcases hn with hn | hn
  · obtain ⟨ps, hps⟩ := rest tail htail
    rw [hn]
    exact ⟨_, .casts (by omega) hcolon hps⟩
  · rw [hn]
    by_cases hname : tail.takeWhile isKeyChar = []
    · have hend : EndsName tail := by
        have := endsName_dropWhile tail
        rwa [← List.takeWhile_append_dropWhile (p := isKeyChar) (l := tail), hname,
          List.nil_append]
      obtain ⟨ps, hps⟩ := rest tail htail
      exact ⟨_, .colon hcolon hend hps⟩
    · have hlen : (tail.dropWhile isKeyChar).length ≤ cs.length :=
        (List.dropWhile_suffix _).length_le.trans htail
      obtain ⟨ps, hps⟩ := rest _ hlen
      rw [← List.takeWhile_append_dropWhile (p := isKeyChar) (l := tail)]
      exact ⟨_, .slot hname (fun _ h => List.mem_takeWhile_imp h) (endsName_dropWhile tail) hps⟩

/-- Induction on the length: each rule takes a first character away at least. -/
theorem exists_segmented (cs : List Char) : ∃ ps, Segmented cs ps := by
  induction hlen : cs.length using Nat.strongRecOn generalizing cs with
  | ind n ih =>
      cases cs with
      | nil => exact ⟨_, .done⟩
      | cons c cs =>
          have rest : ∀ tail : List Char, tail.length ≤ cs.length → ∃ ps, Segmented tail ps := by
            intro tail h
            refine ih tail.length ?_ tail rfl
            rw [← hlen, List.length_cons]
            omega
          by_cases hquote : IsQuote c
          · exact exists_segmented_quote hquote cs rest
          · by_cases hcolon : c = ':'
            · subst c
              exact exists_segmented_colon cs rest
            · obtain ⟨ps, hps⟩ := rest cs le_rfl
              exact ⟨_, .plain hquote hcolon hps⟩

/-- The one segmentation of a template is what the scanner returns. -/
theorem segmented_iff {template : String} {ps : List Piece} :
    Segmented template.toList ps ↔ ps = pieces template := by
  constructor
  · exact fun h => (scan_of_segmented h).symm
  · rintro rfl
    obtain ⟨ps, hps⟩ := exists_segmented template.toList
    rw [pieces, scan_of_segmented hps]
    exact hps

example : pieces ":a::text = ':b'" = .slot "a" :: copy "::text = ':b'".toList := by
  decide +kernel

end SqlBuilder.Placeholder
