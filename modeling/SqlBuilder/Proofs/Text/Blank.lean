import SqlBuilder.Proofs.Placeholder.Filling
import SqlBuilder.Text

/-!
# Trimming, words and capitals

What the operations on texts leave of what the scanner looks at.  Blanks are separators, so trimming
a text does not change what it is for the scanner; words hold only characters of the text, none of
them a blank, and a capital is neither a quote nor a colon.
-/

namespace SqlBuilder.Text

open Placeholder

/-! ## Blanks -/

/-- The code points of the characters that a name may hold. -/
theorem toNat_of_isKeyChar {c : Char} (h : isKeyChar c = true) :
    (97 ≤ c.toNat ∧ c.toNat ≤ 122) ∨ (65 ≤ c.toNat ∧ c.toNat ≤ 90) ∨
      (48 ≤ c.toNat ∧ c.toNat ≤ 57) ∨ c.toNat = 95 := by
  simp only [isKeyChar, Bool.or_eq_true, Bool.and_eq_true, decide_eq_true_eq, Char.le_def,
    UInt32.le_iff_toNat_le] at h
  rcases h with ((h | h) | h) | rfl
  · exact .inl h
  · exact .inr (.inl h)
  · exact .inr (.inr (.inl h))
  · exact .inr (.inr (.inr rfl))

theorem isSeparator_of_isBlank {c : Char} (h : isBlank c = true) : IsSeparator c := by
  refine ⟨?_, ?_, ?_⟩
  · rintro (rfl | rfl) <;> exact absurd h (by decide)
  · rintro rfl
    exact absurd h (by decide)
  · rw [Bool.eq_false_iff]
    intro hkey
    have hrange := toNat_of_isKeyChar hkey
    simp only [isBlank, blankRanges, List.any_cons, List.any_nil, Bool.or_false, Bool.or_eq_true,
      Bool.and_eq_true, decide_eq_true_eq] at h
    omega

theorem toList_trimEnd_append (s : String) :
    ∃ blanks, s.toList = (trimEnd s).toList ++ blanks ∧ ∀ c ∈ blanks, isBlank c = true := by
  refine ⟨(s.toList.reverse.takeWhile isBlank).reverse, ?_, ?_⟩
  · rw [trimEnd, String.toList_ofList, dropBlankEnd, ← List.reverse_append,
      List.takeWhile_append_dropWhile, List.reverse_reverse]
  · intro c hc
    exact List.mem_takeWhile_imp (List.mem_reverse.mp hc)

/-- What is trimmed off neither closed a quote nor ended a name. -/
theorem inert_trimEnd {s : String} (h : Inert s) : Inert (trimEnd s) := by
  obtain ⟨blanks, hs, hblanks⟩ := toList_trimEnd_append s
  have hsplit : s = trimEnd s ++ .ofList blanks := by
    rw [← String.toList_inj, String.toList_append, String.toList_ofList, hs]
  have hcont : Continues (.ofList blanks) := by
    intro c hc
    rw [String.toList_ofList] at hc
    exact isSeparator_of_isBlank (hblanks c (List.mem_of_mem_head? hc))
  -- blanks close no quote, so one that is open before them is open behind them
  have hclosed : Closes (trimEnd s) := by
    by_contra hopen
    have hend := inQuotes_after (inQuotes_of_not_closes hopen) fun c hc =>
      (isSeparator_of_isBlank (hblanks c hc)).1
    rw [← after_append, ← hs] at hend
    obtain ⟨q, -, hq⟩ := hend
    exact h.closes q hq
  refine ⟨hclosed, ?_⟩
  have hnames := h.noNames
  rw [hsplit, names_pieces_append hclosed hcont] at hnames
  exact (List.append_eq_nil_iff.mp hnames).1

/-! ## Texts without blanks at their ends -/

/-- No blank follows. -/
def EndsBlanks (cs : List Char) : Prop :=
  ∀ c ∈ cs.head?, isBlank c = false

theorem endsBlanks_cons {c : Char} (h : isBlank c = false) (cs : List Char) :
    EndsBlanks (c :: cs) := by
  simpa [EndsBlanks] using h

theorem dropWhile_blanks {rest : List Char} (hrest : EndsBlanks rest) :
    rest.dropWhile isBlank = rest := by
  cases rest with
  | nil => rfl
  | cons c rest => simp [hrest c rfl]

theorem dropWhile_blanks_append {bs rest : List Char} (hbs : ∀ c ∈ bs, isBlank c = true)
    (hrest : EndsBlanks rest) : (bs ++ rest).dropWhile isBlank = rest := by
  rw [List.dropWhile_append_of_pos hbs, dropWhile_blanks hrest]

/-- A text with no blank at either end is trimmed to itself. -/
theorem trim_eq_self {s : String} (hfirst : EndsBlanks s.toList)
    (hlast : EndsBlanks s.toList.reverse) : trim s = s := by
  rw [trim, dropWhile_blanks hfirst, dropBlankEnd, dropWhile_blanks hlast, List.reverse_reverse,
    String.ofList_toList]

/-- A text is its trimmed form with blanks on either side. -/
theorem toList_trim_between (s : String) : ∃ before after,
    s.toList = before ++ (trim s).toList ++ after ∧
      (∀ c ∈ before, isBlank c = true) ∧ (∀ c ∈ after, isBlank c = true) := by
  obtain ⟨after, hafter, hblanks⟩ := toList_trimEnd_append (trimStart s)
  have hstart : (trimStart s).toList = s.toList.dropWhile isBlank := String.toList_ofList
  have hend : trimEnd (trimStart s) = trim s := by rw [trimEnd, hstart, trim]
  refine ⟨s.toList.takeWhile isBlank, after, ?_, fun c hc => List.mem_takeWhile_imp hc, hblanks⟩
  rw [List.append_assoc, ← hend, ← hafter, hstart, List.takeWhile_append_dropWhile]

/-- Trimming leaves what stands between the blanks, if that is not empty and has none at its ends. -/
theorem toList_trim_of_between {s : String} {before core after : List Char}
    (hs : s.toList = before ++ core ++ after) (hbefore : ∀ c ∈ before, isBlank c = true)
    (hafter : ∀ c ∈ after, isBlank c = true) (hne : core ≠ []) (hfirst : EndsBlanks core)
    (hlast : EndsBlanks core.reverse) : (trim s).toList = core := by
  have hrest : EndsBlanks (core ++ after) := by
    intro c hc
    rw [List.head?_append_of_ne_nil core hne] at hc
    exact hfirst c hc
  have hback : ∀ c ∈ after.reverse, isBlank c = true := fun c hc =>
    hafter c (List.mem_reverse.mp hc)
  rw [trim, String.toList_ofList, hs, List.append_assoc, dropWhile_blanks_append hbefore hrest,
    dropBlankEnd, List.reverse_append, dropWhile_blanks_append hback hlast, List.reverse_reverse]

example : trim "\u00A0 x y\u3000" = "x y" := by decide +kernel

/-! ## Words -/

/-- One word: some text without blanks. -/
def IsWord (s : String) : Prop :=
  s ≠ "" ∧ ∀ c ∈ s.toList, isBlank c = false

/-- Nothing but blanks. -/
def AllBlank (s : String) : Prop :=
  ∀ c ∈ s.toList, isBlank c = true

instance (s : String) : Decidable (IsWord s) :=
  have : Decidable (∀ c ∈ s.toList, isBlank c = false) := List.decidableBAll _ _
  instDecidableAnd

instance (s : String) : Decidable (AllBlank s) := List.decidableBAll _ _

/-- A word of a text stands behind its first character, begins with it or is that character. -/
theorem mem_splitBlanks_cons {c : Char} {cs w : List Char} (hw : w ∈ splitBlanks (c :: cs)) :
    w ∈ splitBlanks cs ∨
      (isBlank c = false ∧ (w = [c] ∨ ∃ word ∈ splitBlanks cs, w = c :: word)) := by
  unfold splitBlanks at hw
  split at hw
  · exact .inl hw
  · next hc =>
    have hc : isBlank c = false := eq_false_of_ne_true hc
    split at hw
    · exact .inr ⟨hc, .inl (List.mem_singleton.mp hw)⟩
    · split at hw
      · exact (List.mem_cons.mp hw).elim (fun h => .inr ⟨hc, .inl h⟩) .inl
      · split at hw
        · exact .inr ⟨hc, .inl (List.mem_singleton.mp hw)⟩
        · next first others hsplit =>
          rw [hsplit]
          rcases List.mem_cons.mp hw with rfl | hw
          · exact .inr ⟨hc, .inr ⟨first, List.mem_cons_self, rfl⟩⟩
          · exact .inl (List.mem_cons_of_mem first hw)

theorem mem_of_mem_splitBlanks {cs w : List Char} (hw : w ∈ splitBlanks cs) :
    ∀ d ∈ w, d ∈ cs := by
  induction cs generalizing w with
  | nil => exact nomatch hw
  | cons c cs ih =>
      intro d hd
      rcases mem_splitBlanks_cons hw with hw | ⟨-, rfl | ⟨word, hword, rfl⟩⟩
      · exact List.mem_cons_of_mem c (ih hw d hd)
      · rw [List.mem_singleton.mp hd]
        exact List.mem_cons_self
      · rcases List.mem_cons.mp hd with rfl | hd
        · exact List.mem_cons_self
        · exact List.mem_cons_of_mem c (ih hword d hd)

theorem isWord_of_mem_splitBlanks {cs w : List Char} (hw : w ∈ splitBlanks cs) :
    w ≠ [] ∧ ∀ d ∈ w, isBlank d = false := by
  induction cs generalizing w with
  | nil => exact nomatch hw
  | cons c cs ih =>
      rcases mem_splitBlanks_cons hw with hw | ⟨hc, rfl | ⟨word, hword, rfl⟩⟩
      · exact ih hw
      · exact ⟨List.cons_ne_nil _ _, by simpa using hc⟩
      · exact ⟨List.cons_ne_nil _ _, List.forall_mem_cons.mpr ⟨hc, (ih hword).2⟩⟩

theorem splitBlanks_blanks_append {bs : List Char} (hbs : ∀ c ∈ bs, isBlank c = true)
    (cs : List Char) : splitBlanks (bs ++ cs) = splitBlanks cs := by
  induction bs with
  | nil => rfl
  | cons b bs ih =>
      rw [← ih fun c hc => hbs c (List.mem_cons_of_mem b hc), List.cons_append, splitBlanks.eq_def]
      exact if_pos (hbs b List.mem_cons_self)

/-- The first word of a text ends at the first blank. -/
theorem splitBlanks_append_blank {word : List Char} (hne : word ≠ [])
    (hword : ∀ c ∈ word, isBlank c = false) {b : Char} (hb : isBlank b = true)
    (cs : List Char) : splitBlanks (word ++ b :: cs) = word :: splitBlanks cs := by
  induction word with
  | nil => exact absurd rfl hne
  | cons c word ih =>
      have hc : isBlank c = false := hword c List.mem_cons_self
      cases word with
      | nil => simp [splitBlanks, hc, hb]
      | cons d word =>
          have hd : isBlank d = false := hword d (by simp)
          have hrest := ih (List.cons_ne_nil _ _) fun c h => hword c (List.mem_cons_of_mem _ h)
          rw [List.cons_append] at hrest
          rw [List.cons_append, List.cons_append, splitBlanks]
          simp [hc, hd, hrest]

/-- The last word of a text ends where the text does. -/
theorem splitBlanks_of_no_blanks {word : List Char} (hne : word ≠ [])
    (hword : ∀ c ∈ word, isBlank c = false) : splitBlanks word = [word] := by
  induction word with
  | nil => exact absurd rfl hne
  | cons c word ih =>
      have hc : isBlank c = false := hword c List.mem_cons_self
      cases word with
      | nil => simp [splitBlanks, hc]
      | cons d word =>
          have hd : isBlank d = false := hword d (by simp)
          have hrest := ih (List.cons_ne_nil _ _) fun c h => hword c (List.mem_cons_of_mem _ h)
          rw [splitBlanks]
          simp [hc, hd, hrest]

theorem isWord_of_mem_words {s w : String} (hw : w ∈ words s) : IsWord w := by
  obtain ⟨cs, hcs, rfl⟩ := List.mem_map.mp hw
  obtain ⟨hne, hblank⟩ := isWord_of_mem_splitBlanks hcs
  refine ⟨fun h => hne ?_, ?_⟩
  · rw [← String.toList_ofList (l := cs), h, String.toList_empty]
  · rwa [String.toList_ofList]

theorem plain_of_mem_words {s w : String} (hs : Plain s) (hw : w ∈ words s) : Plain w := by
  obtain ⟨cs, hcs, rfl⟩ := List.mem_map.mp hw
  intro c hc
  rw [String.toList_ofList] at hc
  exact hs c (mem_of_mem_splitBlanks hcs c hc)

/-- A text of blanks has no words. -/
theorem AllBlank.words_eq {s : String} (hs : AllBlank s) : words s = [] := by
  have hsplit := splitBlanks_blanks_append hs []
  rw [List.append_nil] at hsplit
  rw [words, hsplit]
  rfl

theorem IsWord.toList_ne_nil {w : String} (hw : IsWord w) : w.toList ≠ [] :=
  fun h => hw.1 (String.toList_inj.mp (h.trans String.toList_empty.symm))

theorem IsWord.words_eq {w : String} (hw : IsWord w) : words w = [w] := by
  rw [words, splitBlanks_of_no_blanks hw.toList_ne_nil hw.2, List.map_singleton,
    String.ofList_toList]

/-- Two words with blanks between them are two words. -/
theorem IsWord.words_append {first second blanks : String} (hfirst : IsWord first)
    (hsecond : IsWord second) (hne : blanks ≠ "") (hblanks : AllBlank blanks) :
    words (first ++ blanks ++ second) = [first, second] := by
  have hlist : blanks.toList ≠ [] := fun h =>
    hne (String.toList_inj.mp (h.trans String.toList_empty.symm))
  obtain ⟨b, bs, hb⟩ := List.exists_cons_of_ne_nil hlist
  rw [AllBlank, hb] at hblanks
  obtain ⟨hb', hbs⟩ := List.forall_mem_cons.mp hblanks
  have hrest : splitBlanks (bs ++ second.toList) = [second.toList] := by
    rw [splitBlanks_blanks_append hbs, splitBlanks_of_no_blanks hsecond.toList_ne_nil hsecond.2]
  rw [words, String.toList_append, String.toList_append, hb, List.append_assoc, List.cons_append,
    splitBlanks_append_blank hfirst.toList_ne_nil hfirst.2 hb', hrest]
  simp only [List.map_cons, List.map_nil, String.ofList_toList]

example : words "created\t at" = ["created", "at"] := by decide +kernel

/-- A word and a text behind it. -/
theorem IsWord.words_append_blank {w : String} (hw : IsWord w) (text : String) :
    words (w ++ " " ++ text) = w :: words text := by
  have hblank : isBlank ' ' = true := by decide
  rw [words, String.toList_append, String.toList_append, List.append_assoc]
  show (splitBlanks (w.toList ++ ' ' :: text.toList)).map String.ofList = _
  rw [splitBlanks_append_blank hw.toList_ne_nil hw.2 hblank, List.map_cons, String.ofList_toList]
  rfl

/-! ## Capitals -/

theorem toNat_toUpper {c : Char} (h : 'a'.val ≤ c.val ∧ c.val ≤ 'z'.val) :
    c.toUpper.toNat = c.toNat - 32 := by
  have hshift : ('A'.val - 'a'.val).toNat = 2 ^ 32 - 32 := by decide
  have hlow : 97 ≤ c.val.toNat := UInt32.le_iff_toNat_le.mp h.1
  have hhigh : c.val.toNat ≤ 122 := UInt32.le_iff_toNat_le.mp h.2
  unfold Char.toUpper Char.toNat
  rw [dif_pos h]
  show (c.val + ('A'.val - 'a'.val)).toNat = _
  rw [UInt32.toNat_add, hshift]
  omega

theorem isBlank_toUpper {c : Char} (h : isBlank c = false) : isBlank c.toUpper = false := by
  by_cases hlower : 'a'.val ≤ c.val ∧ c.val ≤ 'z'.val
  · -- a capital lies between 65 and 90, where no blank is
    have hupper := toNat_toUpper hlower
    have hlow : 97 ≤ c.toNat := UInt32.le_iff_toNat_le.mp hlower.1
    have hhigh : c.toNat ≤ 122 := UInt32.le_iff_toNat_le.mp hlower.2
    rw [Bool.eq_false_iff]
    intro hblank
    simp only [isBlank, blankRanges, List.any_cons, List.any_nil, Bool.or_false, Bool.or_eq_true,
      Bool.and_eq_true, decide_eq_true_eq] at hblank
    omega
  · have hsame : c.toUpper = c := dif_neg hlower
    rw [hsame]
    exact h

/-- A word in capitals is a word. -/
theorem IsWord.toUpper {w : String} (h : IsWord w) : IsWord w.toUpper := by
  refine ⟨fun hempty => h.toList_ne_nil ?_, fun c hc => ?_⟩
  · have hlist := congrArg String.toList hempty
    rw [String.toUpper, String.toList_map, String.toList_empty] at hlist
    exact List.map_eq_nil_iff.mp hlist
  · rw [String.toUpper, String.toList_map, List.mem_map] at hc
    obtain ⟨d, hd, rfl⟩ := hc
    exact isBlank_toUpper (h.2 d hd)

theorem plain_toUpper {s : String} (hs : Plain s) : Plain s.toUpper := by
  intro c hc
  rw [String.toUpper, String.toList_map, List.mem_map] at hc
  obtain ⟨d, hd, rfl⟩ := hc
  by_cases h : 'a'.val ≤ d.val ∧ d.val ≤ 'z'.val
  · -- a capital lies between 65 and 90, where no quote and no colon is
    have hupper := toNat_toUpper h
    have hlow : 97 ≤ d.toNat := UInt32.le_iff_toNat_le.mp h.1
    have hhigh : d.toNat ≤ 122 := UInt32.le_iff_toNat_le.mp h.2
    refine ⟨?_, ?_⟩
    · rintro (h' | h') <;> rw [h'] at hupper
      · have : ('\'' : Char).toNat = 39 := rfl
        omega
      · have : ('"' : Char).toNat = 34 := rfl
        omega
    · intro h'
      rw [h'] at hupper
      have : (':' : Char).toNat = 58 := rfl
      omega
  · have hsame : d.toUpper = d := dif_neg h
    rw [hsame]
    exact hs d hd

end SqlBuilder.Text
