import Mathlib.Data.List.SplitBy
import SqlBuilder.Condition.Basic

/-!
# The grammar of conditions

To a reader of SQL a condition is a row of tests, connectives and parentheses.  `AND` binds tighter
than `OR`, so a condition is a disjunction of conjunctions, and an operand of a conjunction is a
test or a condition in parentheses.  The grammar leaves a row of tokens at most one reading
(`ReadsCondition.unique`), and a reading at most one row of tokens (`ReadsCondition.tokens_eq`).
Operands that are written one behind the other with their connectives are read as `alternatives`
says: split before each `OR`.
-/

namespace SqlBuilder

/-! ## Tokens -/

/-- A test, of which the grammar sees no parts. -/
inductive Atom where
  | comparison (column operator : String) (operand : Operand)
  | text (sql : String)

/-- The predicate that is written for a test. -/
def Atom.predicate : Atom → Predicate
  | .comparison column operator operand => .basic column operator operand
  | .text sql => .raw sql

inductive Token where
  | test (a : Atom)
  | connective (c : Connective)
  | opening
  | closing

def Token.render : Token → String
  | .test a => a.predicate.render
  | .connective c => " " ++ c.keyword ++ " "
  | .opening => "("
  | .closing => ")"

/-- The tokens one behind the other. -/
def spell (ts : List Token) : String :=
  String.join (ts.map Token.render)

@[simp]
theorem spell_nil : spell [] = "" := rfl

@[simp]
theorem spell_cons (t : Token) (ts : List Token) : spell (t :: ts) = t.render ++ spell ts :=
  String.join_cons

theorem spell_singleton (t : Token) : spell [t] = t.render := by
  simp

@[simp]
theorem spell_append (ts us : List Token) : spell (ts ++ us) = spell ts ++ spell us := by
  induction ts with
  | nil => simp
  | cons t ts ih => simp [ih, String.append_assoc]

/-! ## Readings -/

/-- What an operand is read as: a test, or the alternatives of a condition in parentheses, each of
them the operands of a conjunction. -/
inductive Formula where
  | test (a : Atom)
  | nested (alternatives : List (List Formula))

mutual

inductive ReadsOperand : List Token → Formula → Prop
  | test (a : Atom) : ReadsOperand [.test a] (.test a)
  | nested {ts : List Token} {ds : List (List Formula)} :
    ReadsCondition ts ds → ReadsOperand (.opening :: (ts ++ [.closing])) (.nested ds)

/-- Operands with `AND` between them. -/
inductive ReadsConjunction : List Token → List Formula → Prop
  | one {ts : List Token} {f : Formula} : ReadsOperand ts f → ReadsConjunction ts [f]
  | and {ts us : List Token} {f : Formula} {fs : List Formula} :
    ReadsOperand ts f → ReadsConjunction us fs →
      ReadsConjunction (ts ++ .connective .and :: us) (f :: fs)

/-- Conjunctions with `OR` between them. -/
inductive ReadsCondition : List Token → List (List Formula) → Prop
  | one {ts : List Token} {fs : List Formula} : ReadsConjunction ts fs → ReadsCondition ts [fs]
  | or {ts us : List Token} {fs : List Formula} {ds : List (List Formula)} :
    ReadsConjunction ts fs → ReadsCondition us ds →
      ReadsCondition (ts ++ .connective .or :: us) (fs :: ds)

end

/-- One operand more in front of the first conjunction. -/
theorem ReadsCondition.and_first {ts us : List Token} {f : Formula} {ds : List (List Formula)}
    (hts : ReadsOperand ts f) (hus : ReadsCondition us ds) :
    ReadsCondition (ts ++ .connective .and :: us) (ds.modifyHead (f :: ·)) := by
  cases hus with
  | one hfirst => exact .one (.and hts hfirst)
  | or hfirst hrest =>
      rw [← List.cons_append, ← List.append_assoc]
      exact .or (.and hts hfirst) hrest

/-! ## One reading -/

/-- The tokens do not begin with the connective. -/
def NotNext (c : Connective) (ts : List Token) : Prop := ∀ us, ts ≠ .connective c :: us

theorem notNext_nil (c : Connective) : NotNext c [] := nofun

theorem notNext_closing (c : Connective) (ts : List Token) : NotNext c (.closing :: ts) := nofun

theorem notNext_or (ts : List Token) : NotNext .and (.connective .or :: ts) := nofun

-- What follows the tokens that are read decides where they end: an operand ends by itself, a
-- conjunction before what is not `AND`, a condition before what is no connective.  The induction is
-- on the first reading, and the second has to end where the first does.
mutual

theorem ReadsOperand.unique_append {ts us r s : List Token} {f g : Formula} :
    ReadsOperand ts f → ReadsOperand us g → ts ++ r = us ++ s → f = g ∧ r = s
  | .test a, .test b, h => by
      cases h
      exact ⟨rfl, rfl⟩
  | .test a, .nested hus, h => nomatch h
  | .nested hts, .test b, h => nomatch h
  | .nested hts, .nested hus, h => by
      rw [List.cons_append, List.cons_append, List.append_assoc, List.append_assoc] at h
      obtain ⟨rfl, hrest⟩ := hts.unique_append hus (fun c => notNext_closing c r)
        (fun c => notNext_closing c s) (List.cons.inj h).2
      exact ⟨rfl, (List.cons.inj hrest).2⟩

theorem ReadsConjunction.unique_append {ts us r s : List Token} {fs gs : List Formula} :
    ReadsConjunction ts fs → ReadsConjunction us gs → NotNext .and r → NotNext .and s →
      ts ++ r = us ++ s → fs = gs ∧ r = s
  | .one hts, .one hus, _, _, h => by
      obtain ⟨rfl, hrest⟩ := hts.unique_append hus h
      exact ⟨rfl, hrest⟩
  | .one hts, .and hus _, hr, _, h => by
      rw [List.append_assoc] at h
      exact absurd (hts.unique_append hus h).2 (hr _)
  | .and hts _, .one hus, _, hs, h => by
      rw [List.append_assoc] at h
      exact absurd (hts.unique_append hus h).2.symm (hs _)
  | .and hts hrest, .and hus hrest', hr, hs, h => by
      rw [List.append_assoc, List.append_assoc] at h
      obtain ⟨rfl, htail⟩ := hts.unique_append hus h
      obtain ⟨rfl, hend⟩ := hrest.unique_append hrest' hr hs (List.cons.inj htail).2
      exact ⟨rfl, hend⟩

theorem ReadsCondition.unique_append {ts us r s : List Token} {ds es : List (List Formula)} :
    ReadsCondition ts ds → ReadsCondition us es → (∀ c, NotNext c r) → (∀ c, NotNext c s) →
      ts ++ r = us ++ s → ds = es ∧ r = s
  | .one hts, .one hus, hr, hs, h => by
      obtain ⟨rfl, hrest⟩ := hts.unique_append hus (hr .and) (hs .and) h
      exact ⟨rfl, hrest⟩
  | .one hts, .or hus _, hr, _, h => by
      rw [List.append_assoc] at h
      exact absurd (hts.unique_append hus (hr .and) (notNext_or _) h).2 (hr .or _)
  | .or hts _, .one hus, _, hs, h => by
      rw [List.append_assoc] at h
      exact absurd (hts.unique_append hus (notNext_or _) (hs .and) h).2.symm (hs .or _)
  | .or hts hrest, .or hus hrest', hr, hs, h => by
      rw [List.append_assoc, List.append_assoc] at h
      obtain ⟨rfl, htail⟩ := hts.unique_append hus (notNext_or _) (notNext_or _) h
      obtain ⟨rfl, hend⟩ := hrest.unique_append hrest' hr hs (List.cons.inj htail).2
      exact ⟨rfl, hend⟩

end

/-- **Tokens have at most one reading.** -/
theorem ReadsCondition.unique {ts : List Token} {ds es : List (List Formula)}
    (hds : ReadsCondition ts ds) (hes : ReadsCondition ts es) : ds = es :=
  (hds.unique_append hes notNext_nil notNext_nil rfl).1

mutual

theorem ReadsOperand.tokens_eq {ts us : List Token} {f : Formula} :
    ReadsOperand ts f → ReadsOperand us f → ts = us
  | .test _, .test _ => rfl
  | .nested hts, .nested hus => by rw [hts.tokens_eq hus]

theorem ReadsConjunction.tokens_eq {ts us : List Token} {fs : List Formula} :
    ReadsConjunction ts fs → ReadsConjunction us fs → ts = us
  | .one hts, .one hus => hts.tokens_eq hus
  | .and hts hrest, .and hus hrest' => by rw [hts.tokens_eq hus, hrest.tokens_eq hrest']
  | .one _, .and _ hrest => nomatch hrest
  | .and _ hrest, .one _ => nomatch hrest

/-- A reading has at most one spelling. -/
theorem ReadsCondition.tokens_eq {ts us : List Token} {ds : List (List Formula)} :
    ReadsCondition ts ds → ReadsCondition us ds → ts = us
  | .one hts, .one hus => hts.tokens_eq hus
  | .or hts hrest, .or hus hrest' => by rw [hts.tokens_eq hus, hrest.tokens_eq hrest']
  | .one _, .or _ hrest => nomatch hrest
  | .or _ hrest, .one _ => nomatch hrest

end

/-! ## Operands with their connectives -/

section Alternatives

variable {α : Type}

/-- The conjunctions of a list in which each member has the connective that joins it to those before
it: the list, split before each `OR`.  The first member's connective joins nothing. -/
def alternatives (ms : List (Connective × α)) : List (List α) :=
  (ms.splitBy fun _ m => m.1 = .and).map fun conjunction => conjunction.map Prod.snd

/-- A member that goes on with the segment before it. -/
theorem splitBy_cons_cons {r : α → α → Bool} {a b : α} {l : List α} (h : r a b = true) :
    (a :: b :: l).splitBy r = ((b :: l).splitBy r).modifyHead (a :: ·) := by
  obtain ⟨s, ss, hs⟩ := List.exists_cons_of_ne_nil
    (List.splitBy_ne_nil.mpr (List.cons_ne_nil b l) : (b :: l).splitBy r ≠ [])
  obtain ⟨hflat, hnil, hin, hout⟩ := List.splitBy_eq_iff.mp hs
  obtain ⟨x, s, rfl⟩ := List.exists_cons_of_ne_nil fun e : s = [] => hnil (by simp [e])
  obtain ⟨rfl, rfl⟩ : b = x ∧ l = s ++ ss.flatten := by simpa using hflat
  rw [hs]
  refine List.splitBy_eq_iff.mpr ⟨by simp, by simpa using hnil, ?_, ?_⟩
  · intro m hm
    rcases List.mem_cons.mp hm with rfl | hm
    · exact List.isChain_cons_cons.mpr ⟨h, hin _ List.mem_cons_self⟩
    · exact hin m (List.mem_cons_of_mem _ hm)
  · cases ss with
    | nil => simp
    | cons t ts => simpa using hout

@[simp]
theorem alternatives_nil : alternatives ([] : List (Connective × α)) = [] := rfl

@[simp]
theorem alternatives_singleton (m : Connective × α) : alternatives [m] = [[m.2]] := rfl

@[simp]
theorem alternatives_or (m : Connective × α) (x : α) (ms : List (Connective × α)) :
    alternatives (m :: (.or, x) :: ms) = [m.2] :: alternatives ((.or, x) :: ms) := by
  unfold alternatives
  rw [← List.singleton_append, List.splitBy_append_cons ms (by simp)]
  rfl

@[simp]
theorem alternatives_and (m : Connective × α) (x : α) (ms : List (Connective × α)) :
    alternatives (m :: (.and, x) :: ms)
      = (alternatives ((.and, x) :: ms)).modifyHead (m.2 :: ·) := by
  unfold alternatives
  rw [splitBy_cons_cons (by simp)]
  cases ((Connective.and, x) :: ms).splitBy fun _ m => decide (m.1 = .and) <;> rfl

/-- The first conjunction begins with the first member. -/
theorem exists_alternatives_cons (m : Connective × α) (ms : List (Connective × α)) :
    ∃ xs ds, alternatives (m :: ms) = (m.2 :: xs) :: ds := by
  induction ms generalizing m with
  | nil => exact ⟨[], [], rfl⟩
  | cons n ms ih =>
      obtain ⟨xs, ds, h⟩ := ih n
      obtain ⟨_ | _, x⟩ := n
      · exact ⟨x :: xs, ds, by rw [alternatives_and, h]; rfl⟩
      · exact ⟨[], _, alternatives_or m x ms⟩

theorem alternatives_ne_nil (m : Connective × α) (ms : List (Connective × α)) :
    alternatives (m :: ms) ≠ [] := by
  obtain ⟨xs, ds, h⟩ := exists_alternatives_cons m ms
  simp [h]

/-- The conjunctions determine the list but for its first connective. -/
theorem alternatives_cons_eq_iff {m n : Connective × α} {ms ns : List (Connective × α)} :
    alternatives (m :: ms) = alternatives (n :: ns) ↔ m.2 = n.2 ∧ ms = ns := by
  induction ms generalizing m n ns with
  | nil =>
      cases ns with
      | nil => simp
      | cons n' ns =>
          obtain ⟨ys, es, hn⟩ := exists_alternatives_cons n' ns
          obtain ⟨_ | _, y⟩ := n' <;> simp [hn]
  | cons m' ms ih =>
      obtain ⟨xs, ds, hm⟩ := exists_alternatives_cons m' ms
      cases ns with
      | nil => obtain ⟨_ | _, x⟩ := m' <;> simp [hm]
      | cons n' ns =>
          obtain ⟨ys, es, hn⟩ := exists_alternatives_cons n' ns
          -- with `AND` the first operand joins the first conjunction, with `OR` it stands alone
          have hrest := @ih m' n' ns
          rw [hm, hn, List.cons.injEq, List.cons.injEq, and_assoc] at hrest
          obtain ⟨_ | _, x⟩ := m' <;> obtain ⟨_ | _, y⟩ := n' <;>
            simp [hm, hn, and_assoc, hrest]

/-- The list with `AND` for the connective of its first member, which joins nothing. -/
def leadingAnd : List (Connective × α) → List (Connective × α)
  | [] => []
  | (_, x) :: rest => (.and, x) :: rest

theorem alternatives_eq_iff {ms ns : List (Connective × α)} :
    alternatives ms = alternatives ns ↔ leadingAnd ms = leadingAnd ns := by
  rcases ms with _ | ⟨m, ms⟩ <;> rcases ns with _ | ⟨n, ns⟩
  · simp
  · obtain ⟨xs, ds, h⟩ := exists_alternatives_cons n ns
    simp [h, leadingAnd]
  · obtain ⟨xs, ds, h⟩ := exists_alternatives_cons m ms
    simp [h, leadingAnd]
  · simp [alternatives_cons_eq_iff, leadingAnd]

/-- Members joined with `AND` are one conjunction. -/
theorem alternatives_ands (m : Connective × α) (xs : List α) :
    alternatives (m :: xs.map (.and, ·)) = [m.2 :: xs] := by
  induction xs generalizing m with
  | nil => rfl
  | cons x xs ih =>
      rw [List.map_cons, alternatives_and, ih]
      rfl

/-- Members joined with `AND` go on with the last conjunction. -/
theorem exists_alternatives_append (m : Connective × α) (ms : List (Connective × α))
    (xs : List α) :
    ∃ ds conjunction, alternatives (m :: ms) = ds ++ [conjunction] ∧
      alternatives (m :: ms ++ xs.map (.and, ·)) = ds ++ [conjunction ++ xs] := by
  induction ms generalizing m with
  | nil => exact ⟨[], [m.2], rfl, alternatives_ands m xs⟩
  | cons n ms ih =>
      obtain ⟨ds, conjunction, hbefore, hafter⟩ := ih n
      rw [List.cons_append] at hafter
      obtain ⟨_ | _, x⟩ := n
      · rw [List.cons_append, List.cons_append, alternatives_and, alternatives_and, hbefore, hafter]
        cases ds with
        | nil => exact ⟨[], m.2 :: conjunction, rfl, rfl⟩
        | cons d ds => exact ⟨(m.2 :: d) :: ds, conjunction, rfl, rfl⟩
      · rw [List.cons_append, List.cons_append, alternatives_or, alternatives_or, hbefore, hafter]
        exact ⟨[m.2] :: ds, conjunction, rfl, rfl⟩

/-- There is one conjunction exactly if no member behind the first is joined with `OR`. -/
theorem alternatives_eq_singleton_iff {m : Connective × α} {ms : List (Connective × α)} :
    (∃ conjunction, alternatives (m :: ms) = [conjunction]) ↔ ∀ n ∈ ms, n.1 = .and := by
  induction ms generalizing m with
  | nil => simp
  | cons n ms ih =>
      obtain ⟨xs, ds, h⟩ := exists_alternatives_cons n ms
      have hrest := @ih n
      rw [h] at hrest
      obtain ⟨_ | _, x⟩ := n <;> simp_all

end Alternatives

end SqlBuilder
