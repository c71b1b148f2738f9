import SqlBuilder.Proofs.Bytes
import SqlBuilder.Proofs.Json.Depth
import SqlBuilder.Proofs.Json.Number

/-!
# Documents read back

The text of a document is read exactly if the document is nested no deeper than a text may be: the
depth is all that decides, since the text has no blanks, every string and every number in it is read
to its end, and a reader has steps enough for its length.
-/

namespace SqlBuilder.Json

open Number

variable {rest : List Char}

/-! ## Strings -/

/-- Four digits that spell a control character. -/
theorem fourDigits?_control {n : Nat} (h : n < 32) :
    fourDigits? '0' '0' (Bytes.hexDigit (n / 16)) (Bytes.hexDigit (n % 16)) = some n := by
  have hzero : Bytes.hexValue? '0' = some 0 := by decide
  have hvalue : ((0 * 16 + 0) * 16 + n / 16) * 16 + n % 16 = n := by omega
  unfold fourDigits?
  rw [hzero, Bytes.hexValue?_hexDigit _ (by omega), Bytes.hexValue?_hexDigit _ (by omega)]
  show some (((0 * 16 + 0) * 16 + n / 16) * 16 + n % 16) = some n
  rw [hvalue]

theorem readString?_control {c : Char} (h : c.toNat < 32) (rest : List Char) :
    readString? ('\\' :: 'u' :: '0' :: '0' :: Bytes.hexDigit (c.toNat / 16)
      :: Bytes.hexDigit (c.toNat % 16) :: rest) = (readString? rest).map fun p => (c :: p.1, p.2) := by
  rw [readString?, fourDigits?_control h, Option.bind_eq_bind, Option.bind_some, if_neg (by omega),
    if_neg (by omega), Char.ofNat_toNat]

theorem readString?_plain {c : Char} (hquote : c ≠ '"') (hslash : c ≠ '\\') (h : ¬c.toNat < 32)
    (rest : List Char) :
    readString? (c :: rest) = (readString? rest).map fun p => (c :: p.1, p.2) := by
  have hcond : (decide (c.toNat < 0x20) || decide (c = '\\')) = false := by
    rw [decide_eq_false h, decide_eq_false hslash]
    rfl
  rw [readString?.eq_def]
  split
  · next heq => cases heq
  · next heq => exact absurd (List.cons.inj heq).1 hquote
  · next heq => exact absurd (List.cons.inj heq).1 hslash
  · next heq => exact absurd (List.cons.inj heq).1 hslash
  · next heq =>
    cases heq
    rw [hcond]
    rfl

/-- What stands for a character in a string is read as that character. -/
theorem readString?_escapeChar (c : Char) (rest : List Char) :
    readString? (escapeChar c ++ rest) = (readString? rest).map fun p => (c :: p.1, p.2) := by
  by_cases hquote : c = '"'
  · subst hquote; rfl
  by_cases hslash : c = '\\'
  · subst hslash; rfl
  by_cases hback : c = '\x08'
  · subst hback; rfl
  by_cases hfeed : c = '\x0c'
  · subst hfeed; rfl
  by_cases hline : c = '\n'
  · subst hline; rfl
  by_cases hreturn : c = '\r'
  · subst hreturn; rfl
  by_cases htab : c = '\t'
  · subst htab; rfl
  rw [escapeChar, if_neg hquote, if_neg hslash, if_neg hback, if_neg hfeed, if_neg hline,
    if_neg hreturn, if_neg htab]
  by_cases hcontrol : c.toNat < 0x20
  · rw [if_pos hcontrol]
    exact readString?_control hcontrol rest
  · rw [if_neg hcontrol]
    exact readString?_plain hquote hslash hcontrol rest

/-- The characters of a string in quotes are read up to the closing quote. -/
theorem readString?_quoteText (s : String) (rest : List Char) :
    ∃ body, (quoteText s).toList = '"' :: body ∧
      readString? (body ++ rest) = some (s.toList, rest) := by
  refine ⟨s.toList.flatMap escapeChar ++ ['"'], by rw [quoteText, String.toList_ofList]; rfl, ?_⟩
  induction s.toList with
  | nil => rfl
  | cons c cs ih =>
      rw [List.flatMap_cons, List.append_assoc, List.append_assoc, readString?_escapeChar,
        ← List.append_assoc, ih]
      rfl

/-! ## Where a value begins -/

/-- The character begins a value: it is no blank, and it closes no array. -/
def StartsValue (c : Char) : Prop :=
  (c = ' ' || c = '\n' || c = '\t' || c = '\r') = false ∧ c ≠ ']'

theorem skipBlanks_cons {c : Char} (h : StartsValue c) (cs : List Char) :
    skipBlanks (c :: cs) = c :: cs := by
  rw [skipBlanks, List.dropWhile_cons, h.1]
  rfl

theorem startsValue_of_isDigit {c : Char} (h : isDigit c = true) : StartsValue c := by
  have hne : ∀ d, isDigit d = false → c ≠ d := by
    rintro d hd rfl
    rw [h] at hd
    exact Bool.noConfusion hd
  refine ⟨?_, hne ']' (by decide)⟩
  rw [decide_eq_false (hne ' ' (by decide)), decide_eq_false (hne '\n' (by decide)),
    decide_eq_false (hne '\t' (by decide)), decide_eq_false (hne '\r' (by decide))]
  rfl

theorem isDigit_head_of_readNumber? {negative : Bool} {cs : List Char} {p : Json × List Char}
    (h : readNumber? negative cs = some p) : ∃ c more, cs = c :: more ∧ isDigit c = true := by
  cases cs with
  | nil => cases h
  | cons c more =>
      refine ⟨c, more, rfl, ?_⟩
      by_contra hc
      have hnone : takeNumber? (c :: more) = none := by
        rw [takeNumber?, List.takeWhile_cons_of_neg hc]
        rfl
      rw [readNumber?, hnone] at h
      cases h

/-- A number is read as one, with its sign. -/
theorem readValue?_number {negative : Bool} {cs : List Char} {p : Json × List Char}
    (h : readNumber? negative cs = some p) (fuel depth : Nat) :
    readValue? (fuel + 1) depth ((signText negative).toList ++ cs) = some p := by
  cases negative with
  | true =>
      rw [← h]
      rfl
  | false =>
      obtain ⟨c, more, rfl, hc⟩ := isDigit_head_of_readNumber? h
      have hne : ∀ d, isDigit d = false → c ≠ d := by
        rintro d hd rfl
        rw [hc] at hd
        exact Bool.noConfusion hd
      show readValue? (fuel + 1) depth (c :: more) = some p
      rw [readValue?, skipBlanks_cons (startsValue_of_isDigit hc)]
      split
      · next heq => exact absurd (List.cons.inj heq).1 (hne 'n' (by decide))
      · next heq => exact absurd (List.cons.inj heq).1 (hne 't' (by decide))
      · next heq => exact absurd (List.cons.inj heq).1 (hne 'f' (by decide))
      · next heq => exact absurd (List.cons.inj heq).1 (hne '"' (by decide))
      · next heq => exact absurd (List.cons.inj heq).1 (hne '[' (by decide))
      · next heq => exact absurd (List.cons.inj heq).1 (hne '\x7b' (by decide))
      · next heq => exact absurd (List.cons.inj heq).1 (hne '-' (by decide))
      · exact h

/-! ## Values without parts -/

/-- What is written for the first document is read as the second one if nothing stands behind it
that would belong to a number, the reader has a step for each character of it and may open as many
arrays and objects as there are. -/
def ReadsAs (j j' : Json) : Prop :=
  ∀ fuel depth rest, j.toText.toList.length ≤ fuel → EndsNumber rest →
    readValue? fuel depth (j.toText.toList ++ rest)
      = if j.depth ≤ depth then some (j', rest) else none

/-- The text begins as a value does. -/
def Begins (text : List Char) : Prop :=
  ∃ c cs, text = c :: cs ∧ StartsValue c

theorem Begins.append {text : List Char} (h : Begins text) (more : List Char) :
    Begins (text ++ more) := by
  obtain ⟨c, cs, rfl, hc⟩ := h
  exact ⟨c, cs ++ more, rfl, hc⟩

theorem begins_quoteText (s : String) : Begins (quoteText s).toList := by
  obtain ⟨body, htext, -⟩ := readString?_quoteText s []
  exact ⟨'"', body, htext, rfl, by decide⟩

/-- The text is that of a value without parts: it takes one step, and no depth, to read it. -/
structure ReadsAtOnce (text : List Char) (j : Json) : Prop where
  begins : Begins text
  read : ∀ fuel depth rest, EndsNumber rest →
    readValue? (fuel + 1) depth (text ++ rest) = some (j, rest)

theorem ReadsAtOnce.readsAs {j j' : Json} (h : ReadsAtOnce j.toText.toList j')
    (hdepth : j.depth = 0) : ReadsAs j j' := by
  intro fuel depth rest hfuel hrest
  obtain ⟨c, cs, htext, -⟩ := h.begins
  cases fuel with
  | zero =>
      rw [htext] at hfuel
      exact absurd hfuel (Nat.not_succ_le_zero _)
  | succ fuel => rw [h.read fuel depth rest hrest, hdepth, if_pos (Nat.zero_le depth)]

/-- The text of a number with its sign is read at once. -/
theorem readsAtOnce_number {negative : Bool} {cs : List Char} {j : Json}
    (h : ∀ rest, EndsNumber rest → readNumber? negative (cs ++ rest) = some (j, rest)) :
    ReadsAtOnce ((signText negative).toList ++ cs) j := by
  have halone := h [] endsNumber_nil
  rw [List.append_nil] at halone
  refine ⟨?_, fun fuel depth rest hrest => ?_⟩
  · obtain ⟨c, more, rfl, hc⟩ := isDigit_head_of_readNumber? halone
    cases negative with
    | true => exact ⟨'-', c :: more, rfl, rfl, by decide⟩
    | false => exact ⟨c, more, rfl, startsValue_of_isDigit hc⟩
  · rw [List.append_assoc]
    exact readValue?_number (h rest hrest) fuel depth

theorem readsAtOnce_null : ReadsAtOnce (toText .null).toList .null :=
  ⟨⟨'n', ['u', 'l', 'l'], rfl, rfl, by decide⟩, fun _ _ _ _ => rfl⟩

theorem readsAtOnce_bool (b : Bool) : ReadsAtOnce (toText (.bool b)).toList (.bool b) := by
  cases b with
  | true => exact ⟨⟨'t', ['r', 'u', 'e'], rfl, rfl, by decide⟩, fun _ _ _ _ => rfl⟩
  | false => exact ⟨⟨'f', ['a', 'l', 's', 'e'], rfl, rfl, by decide⟩, fun _ _ _ _ => rfl⟩

theorem toList_toString_int (n : Int) : (toString n).toList
    = (signText (n < 0)).toList ++ (toString n.natAbs).toList := by
  cases n with
  | ofNat n =>
      have hsign : decide (Int.ofNat n < 0) = false :=
        decide_eq_false (Int.not_lt.mpr (Int.natCast_nonneg n))
      rw [hsign]
      rfl
  | negSucc n =>
      have hsign : decide (Int.negSucc n < 0) = true := decide_eq_true (by omega)
      rw [hsign]
      show ("-" ++ toString (n + 1)).toList = _
      rw [String.toList_append]
      rfl

theorem readsAtOnce_integer (n : JsonInteger) :
    ReadsAtOnce (toText (.integer n)).toList (.integer n) := by
  rw [toText, toList_toString_int]
  exact readsAtOnce_number fun _ => readNumber?_integer n

/-- A floating point number is read as one, or as nothing if the format has no such number. -/
theorem exists_readsAtOnce_float (x : Binary64) :
    ∃ j, ReadsAtOnce (toText (.float x)).toList j ∧ (j = .null ∨ ∃ y, j = .float y) := by
  rw [toText, floatText]
  split
  · next heq =>
    obtain ⟨y, hread⟩ := exists_readNumber?_float heq
    rw [String.toList_append, String.toList_ofList]
    exact ⟨.float y, readsAtOnce_number hread, .inr ⟨y, rfl⟩⟩
  · exact ⟨.null, readsAtOnce_null, .inl rfl⟩

theorem readsAtOnce_string (s : String) :
    ReadsAtOnce (toText (.string s)).toList (.string s) := by
  refine ⟨begins_quoteText s, fun fuel depth rest _ => ?_⟩
  obtain ⟨body, htext, hread⟩ := readString?_quoteText s rest
  rw [toText, htext]
  show (readString? (body ++ rest)).map _ = _
  rw [hread, Option.map_some]
  dsimp only
  rw [String.ofList_toList]

/-! ## Items and members -/

/-- The items of an array are read up to its bracket. -/
def ItemsReadAs (xs ys : List Json) : Prop :=
  ∀ fuel depth rest, (itemsText xs).toList.length < fuel →
    readItems? fuel depth ((itemsText xs).toList ++ ']' :: rest)
      = if itemsDepth xs ≤ depth then some (ys, rest) else none

/-- The members of an object are read up to its brace. -/
def MembersReadAs (ms ns : List (String × Json)) : Prop :=
  ∀ fuel depth rest, (membersText ms).toList.length < fuel →
    readMembers? fuel depth ((membersText ms).toList ++ '\x7d' :: rest)
      = if membersDepth ms ≤ depth then some (ns, rest) else none

theorem endsNumber_comma (rest : List Char) : EndsNumber (',' :: rest) := by
  rintro _ ⟨⟩
  decide

theorem endsNumber_bracket (rest : List Char) : EndsNumber (']' :: rest) := by
  rintro _ ⟨⟩
  decide

theorem endsNumber_brace (rest : List Char) : EndsNumber ('\x7d' :: rest) := by
  rintro _ ⟨⟩
  decide

theorem itemsReadAs_single {x x' : Json} (h : ReadsAs x x') : ItemsReadAs [x] [x'] := by
  intro fuel depth rest hfuel
  obtain ⟨fuel, rfl⟩ := Nat.exists_eq_add_one_of_ne_zero (Nat.ne_zero_of_lt hfuel)
  rw [itemsText] at hfuel ⊢
  rw [readItems?, h fuel depth _ (by omega) (endsNumber_bracket rest), itemsDepth, itemsDepth,
    Nat.max_zero]
  split
  · rfl
  · rfl

theorem itemsReadAs_cons {x x' y : Json} {xs ys : List Json} (hx : ReadsAs x x')
    (hxs : ItemsReadAs (y :: xs) ys) : ItemsReadAs (x :: y :: xs) (x' :: ys) := by
  intro fuel depth rest hfuel
  obtain ⟨fuel, rfl⟩ := Nat.exists_eq_add_one_of_ne_zero (Nat.ne_zero_of_lt hfuel)
  have htext : (itemsText (x :: y :: xs)).toList ++ ']' :: rest
      = x.toText.toList ++ ',' :: ((itemsText (y :: xs)).toList ++ ']' :: rest) := by
    rw [itemsText, String.toList_append, String.toList_append, List.append_assoc, List.append_assoc]
    rfl
  have hlength : (itemsText (x :: y :: xs)).toList.length
      = x.toText.toList.length + 1 + (itemsText (y :: xs)).toList.length := by
    rw [itemsText, String.toList_append, String.toList_append, List.length_append,
      List.length_append]
    rfl
  rw [hlength] at hfuel
  rw [htext, readItems?, hx fuel depth _ (by omega) (endsNumber_comma _), itemsDepth]
  by_cases hdepth : x.depth ≤ depth
  · rw [if_pos hdepth]
    show (readItems? fuel depth _).map _ = _
    rw [hxs fuel depth rest (by omega)]
    by_cases hrest : itemsDepth (y :: xs) ≤ depth
    · rw [if_pos hrest, if_pos (Nat.max_le.mpr ⟨hdepth, hrest⟩)]
      rfl
    · rw [if_neg hrest, if_neg fun h => hrest (Nat.max_le.mp h).2]
      rfl
  · rw [if_neg hdepth, if_neg fun h => hdepth (Nat.max_le.mp h).1]
    rfl

section Members

variable {fuel depth : Nat} {k : String} {x : Json} {cs : List Char}

/-- What a reader does behind the value of a member. -/
def behindMember (fuel depth : Nat) (k : String) (x : Json) (rest : List Char) :
    Option (List (String × Json) × List Char) :=
  match skipBlanks rest with
  | ',' :: rest => (readMembers? fuel depth rest).map fun p => ((k, x) :: p.1, p.2)
  | '\x7d' :: rest => some ([(k, x)], rest)
  | _ => none

/-- A member: its key is read, and then its value. -/
theorem readMembers?_member :
    readMembers? (fuel + 1) depth ((quoteText k).toList ++ ':' :: cs)
      = (readValue? fuel depth cs).bind fun p => behindMember fuel depth k p.1 p.2 := by
  obtain ⟨body, htext, hread⟩ := readString?_quoteText k (':' :: cs)
  rw [htext]
  show (readString? (body ++ ':' :: cs)).bind _ = _
  rw [hread]
  simp only [Option.bind_some, String.ofList_toList]
  rfl

/-- A member whose value is not read. -/
theorem readMembers?_none (h : readValue? fuel depth cs = none) :
    readMembers? (fuel + 1) depth ((quoteText k).toList ++ ':' :: cs) = none := by
  rw [readMembers?_member, h]
  rfl

/-- A member with another one behind it. -/
theorem readMembers?_comma (h : readValue? fuel depth cs = some (x, ',' :: rest)) :
    readMembers? (fuel + 1) depth ((quoteText k).toList ++ ':' :: cs)
      = (readMembers? fuel depth rest).map fun p => ((k, x) :: p.1, p.2) := by
  rw [readMembers?_member, h]
  rfl

/-- The last member. -/
theorem readMembers?_brace (h : readValue? fuel depth cs = some (x, '\x7d' :: rest)) :
    readMembers? (fuel + 1) depth ((quoteText k).toList ++ ':' :: cs)
      = some ([(k, x)], rest) := by
  rw [readMembers?_member, h]
  rfl

end Members

theorem membersReadAs_single (k : String) {x x' : Json} (h : ReadsAs x x') :
    MembersReadAs [(k, x)] [(k, x')] := by
  intro fuel depth rest hfuel
  obtain ⟨fuel, rfl⟩ := Nat.exists_eq_add_one_of_ne_zero (Nat.ne_zero_of_lt hfuel)
  have htext : (membersText [(k, x)]).toList = (quoteText k).toList ++ ':' :: x.toText.toList := by
    rw [membersText, String.toList_append, String.toList_append, List.append_assoc]
    rfl
  rw [htext, List.length_append, List.length_cons] at hfuel
  rw [htext, List.append_assoc, List.cons_append, membersDepth, membersDepth, Nat.max_zero]
  have hvalue := h fuel depth ('\x7d' :: rest) (by omega) (endsNumber_brace rest)
  split
  · next hdepth =>
    rw [if_pos hdepth] at hvalue
    exact readMembers?_brace hvalue
  · next hdepth =>
    rw [if_neg hdepth] at hvalue
    exact readMembers?_none hvalue

theorem membersReadAs_cons (k : String) {x x' : Json} {m : String × Json}
    {ms ns : List (String × Json)} (hx : ReadsAs x x') (hms : MembersReadAs (m :: ms) ns) :
    MembersReadAs ((k, x) :: m :: ms) ((k, x') :: ns) := by
  intro fuel depth rest hfuel
  obtain ⟨fuel, rfl⟩ := Nat.exists_eq_add_one_of_ne_zero (Nat.ne_zero_of_lt hfuel)
  have htext : (membersText ((k, x) :: m :: ms)).toList
      = (quoteText k).toList ++ ':' :: (x.toText.toList ++ ',' :: (membersText (m :: ms)).toList) := by
    simp [membersText]
  rw [htext, List.length_append, List.length_cons, List.length_append, List.length_cons] at hfuel
  rw [htext, List.append_assoc, List.cons_append, List.append_assoc, List.cons_append, membersDepth]
  have hvalue := hx fuel depth (',' :: ((membersText (m :: ms)).toList ++ '\x7d' :: rest)) (by omega)
    (endsNumber_comma _)
  by_cases hdepth : x.depth ≤ depth
  · rw [if_pos hdepth] at hvalue
    rw [readMembers?_comma hvalue, hms fuel depth rest (by omega)]
    by_cases hrest : membersDepth (m :: ms) ≤ depth
    · rw [if_pos hrest, if_pos (Nat.max_le.mpr ⟨hdepth, hrest⟩)]
      rfl
    · rw [if_neg hrest, if_neg fun h => hrest (Nat.max_le.mp h).2]
      rfl
  · rw [if_neg hdepth] at hvalue
    rw [readMembers?_none hvalue, if_neg fun h => hdepth (Nat.max_le.mp h).1]

/-! ## Arrays and objects -/

theorem begins_toText (j : Json) : Begins j.toText.toList := by
  cases j with
  | null => exact readsAtOnce_null.begins
  | bool b => exact (readsAtOnce_bool b).begins
  | integer n => exact (readsAtOnce_integer n).begins
  | float x =>
      obtain ⟨j, hread, -⟩ := exists_readsAtOnce_float x
      exact hread.begins
  | string s => exact begins_quoteText s
  | array items => exact ⟨'[', (itemsText items ++ "]").toList, by simp [toText], rfl, by decide⟩
  | object members =>
      exact ⟨'\x7b', (membersText members ++ "\x7d").toList, by simp [toText], rfl, by decide⟩

theorem begins_itemsText (x : Json) (xs : List Json) : Begins (itemsText (x :: xs)).toList := by
  cases xs with
  | nil => exact begins_toText x
  | cons y xs =>
      rw [itemsText, String.toList_append, String.toList_append, List.append_assoc]
      exact (begins_toText x).append _

theorem exists_membersText (m : String × Json) (ms : List (String × Json)) :
    ∃ cs, (membersText (m :: ms)).toList = '"' :: cs := by
  obtain ⟨k, x⟩ := m
  obtain ⟨body, htext, -⟩ := readString?_quoteText k []
  cases ms with
  | nil =>
      rw [membersText, String.toList_append, String.toList_append, htext]
      exact ⟨_, rfl⟩
  | cons n ms =>
      rw [membersText, String.toList_append, String.toList_append, String.toList_append,
        String.toList_append, htext]
      exact ⟨_, rfl⟩

theorem readValue?_array {cs : List Char} (h : Begins cs) (fuel depth : Nat) :
    readValue? (fuel + 1) (depth + 1) ('[' :: cs)
      = (readItems? fuel depth cs).map fun p => (.array p.1, p.2) := by
  obtain ⟨c, cs, rfl, hc⟩ := h
  have hskip : skipBlanks ('[' :: c :: cs) = '[' :: c :: cs := rfl
  simp only [readValue?, hskip, skipBlanks_cons hc]
  split
  · next heq => exact absurd (List.cons.inj heq).1 hc.2
  · rfl

/-- One more array or object around what is read needs one more step of depth. -/
theorem map_read_inside {α β : Type} (f : α → β) (a : α) (depth room : Nat) :
    (if depth ≤ room then some a else none).map f
      = if depth + 1 ≤ room + 1 then some (f a) else none := by
  by_cases h : depth ≤ room
  · rw [if_pos h, if_pos (Nat.succ_le_succ h), Option.map_some]
  · rw [if_neg h, if_neg fun hle => h (Nat.le_of_succ_le_succ hle), Option.map_none]

theorem readsAs_array_nil : ReadsAs (.array []) (.array []) := by
  intro fuel depth rest hfuel _
  obtain ⟨fuel, rfl⟩ := Nat.exists_eq_add_one_of_ne_zero (Nat.ne_zero_of_lt hfuel)
  cases depth with
  | zero => rfl
  | succ room => exact (if_pos (Nat.le_add_left 1 room)).symm

theorem readsAs_array {x : Json} {xs ys : List Json} (h : ItemsReadAs (x :: xs) ys) :
    ReadsAs (.array (x :: xs)) (.array ys) := by
  intro fuel depth rest hfuel _
  have htext : (toText (.array (x :: xs))).toList
      = '[' :: ((itemsText (x :: xs)).toList ++ [']']) := by
    simp [toText]
  rw [htext, List.length_cons, List.length_append, List.length_singleton] at hfuel
  obtain ⟨fuel, rfl⟩ := Nat.exists_eq_add_one_of_ne_zero (Nat.ne_zero_of_lt hfuel)
  rw [htext, List.cons_append, List.append_assoc, List.singleton_append, Json.depth]
  cases depth with
  | zero => rfl
  | succ room =>
      rw [readValue?_array ((begins_itemsText x xs).append _), h fuel room rest (by omega)]
      exact map_read_inside _ _ _ _

theorem readsAs_object_nil : ReadsAs (.object []) (.object []) := by
  intro fuel depth rest hfuel _
  obtain ⟨fuel, rfl⟩ := Nat.exists_eq_add_one_of_ne_zero (Nat.ne_zero_of_lt hfuel)
  cases depth with
  | zero => rfl
  | succ room => exact (if_pos (Nat.le_add_left 1 room)).symm

theorem readsAs_object {m : String × Json} {ms ns : List (String × Json)}
    (h : MembersReadAs (m :: ms) ns) : ReadsAs (.object (m :: ms)) (.ofMembers ns) := by
  intro fuel depth rest hfuel _
  have htext : (toText (.object (m :: ms))).toList
      = '\x7b' :: ((membersText (m :: ms)).toList ++ ['\x7d']) := by
    simp [toText]
  rw [htext, List.length_cons, List.length_append, List.length_singleton] at hfuel
  obtain ⟨fuel, rfl⟩ := Nat.exists_eq_add_one_of_ne_zero (Nat.ne_zero_of_lt hfuel)
  rw [htext, List.cons_append, List.append_assoc, List.singleton_append, Json.depth]
  cases depth with
  | zero => rfl
  | succ room =>
      have hmembers := h fuel room rest (by omega)
      obtain ⟨cs, hbegins⟩ := exists_membersText m ms
      rw [hbegins] at hmembers ⊢
      show (readMembers? fuel room ('"' :: cs ++ '\x7d' :: rest)).map _ = _
      rw [hmembers]
      exact map_read_inside _ _ _ _

theorem exists_readsAs_array {items : List Json} (h : items ≠ [] → ∃ ys, ItemsReadAs items ys) :
    ∃ j', ReadsAs (.array items) j' := by
  cases items with
  | nil => exact ⟨_, readsAs_array_nil⟩
  | cons x xs =>
      obtain ⟨ys, hread⟩ := h (List.cons_ne_nil x xs)
      exact ⟨_, readsAs_array hread⟩

theorem exists_readsAs_object {members : List (String × Json)}
    (h : members ≠ [] → ∃ ns, MembersReadAs members ns) : ∃ j', ReadsAs (.object members) j' := by
  cases members with
  | nil => exact ⟨_, readsAs_object_nil⟩
  | cons m ms =>
      obtain ⟨ns, hread⟩ := h (List.cons_ne_nil m ms)
      exact ⟨_, readsAs_object hread⟩

mutual

/-- **Every document is read back as some document**: a value without parts in one step, an array or
an object if its parts are. -/
theorem exists_readsAs : ∀ j : Json, ∃ j', ReadsAs j j'
  | .null => ⟨_, readsAtOnce_null.readsAs rfl⟩
  | .bool b => ⟨_, (readsAtOnce_bool b).readsAs rfl⟩
  | .integer n => ⟨_, (readsAtOnce_integer n).readsAs rfl⟩
  | .float x =>
      have ⟨_, hread, _⟩ := exists_readsAtOnce_float x
      ⟨_, hread.readsAs rfl⟩
  | .string s => ⟨_, (readsAtOnce_string s).readsAs rfl⟩
  | .array items => exists_readsAs_array (exists_itemsReadAs items)
  | .object members => exists_readsAs_object (exists_membersReadAs members)

theorem exists_itemsReadAs : ∀ xs : List Json, xs ≠ [] → ∃ ys, ItemsReadAs xs ys
  | [], h => absurd rfl h
  | [x], _ =>
      have ⟨_, hx⟩ := exists_readsAs x
      ⟨_, itemsReadAs_single hx⟩
  | x :: y :: xs, _ =>
      have ⟨_, hx⟩ := exists_readsAs x
      have ⟨_, hxs⟩ := exists_itemsReadAs (y :: xs) (List.cons_ne_nil y xs)
      ⟨_, itemsReadAs_cons hx hxs⟩

theorem exists_membersReadAs : ∀ ms : List (String × Json), ms ≠ [] → ∃ ns, MembersReadAs ms ns
  | [], h => absurd rfl h
  | [(k, x)], _ =>
      have ⟨_, hx⟩ := exists_readsAs x
      ⟨_, membersReadAs_single k hx⟩
  | (k, x) :: m :: ms, _ =>
      have ⟨_, hx⟩ := exists_readsAs x
      have ⟨_, hms⟩ := exists_membersReadAs (m :: ms) (List.cons_ne_nil m ms)
      ⟨_, membersReadAs_cons k hx hms⟩

end

/-- What stands for a document, as the whole of a text. -/
theorem ReadsAs.ofText? {j j' : Json} (h : ReadsAs j j') :
    Json.ofText? j.toText = if j.depth ≤ maxDepth then some j' else none := by
  have htext := h (fuelFor j.toText.toList) maxDepth [] (by unfold fuelFor; omega) endsNumber_nil
  rw [List.append_nil] at htext
  rw [Json.ofText?, htext]
  split
  · rfl
  · rfl

/-- **The text of a document is read exactly if the document is nested no deeper than a text may
be.** -/
theorem isSome_ofText?_toText (j : Json) : (ofText? j.toText).isSome ↔ j.depth ≤ maxDepth := by
  obtain ⟨j', hread⟩ := exists_readsAs j
  rw [hread.ofText?]
  split
  · next hdepth => exact iff_of_true rfl hdepth
  · next hdepth => exact iff_of_false Bool.false_ne_true hdepth

end SqlBuilder.Json
