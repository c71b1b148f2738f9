import SqlBuilder.Json.Parser

/-!
# What a reader returns

Three readers call each other: for a value, for the items of an array and for the members of an
object.  A property of documents that reading keeps (`KeptByReading`) holds of whatever they return:
there is a lemma for one step of each reader, and one induction on the number of steps
(`KeptByReading.keptFor`).  The property may speak of the room, which is how many more arrays and
objects may be opened.
-/

namespace SqlBuilder.Json

/-- A value without parts. -/
def IsSimple : Json → Prop
  | .array _ | .object _ => False
  | _ => True

theorem isSimple_of_readNumber? {negative : Bool} {cs rest : List Char} {j : Json}
    (h : readNumber? negative cs = some (j, rest)) : j.IsSimple := by
  have hfloat : ∀ s, (floatOfSignificand? negative s).map float = some j → j.IsSimple := by
    intro s hs
    obtain ⟨x, -, rfl⟩ := Option.map_eq_some_iff.mp hs
    trivial
  obtain ⟨⟨t, behind⟩, -, h⟩ := Option.bind_eq_some_iff.mp h
  obtain ⟨j', hj, heq⟩ := Option.map_eq_some_iff.mp h
  cases heq
  unfold NumberText.value? at hj
  dsimp only at hj
  split at hj
  · unfold integerOrFloat? at hj
    dsimp only at hj
    split at hj
    · split at hj
      · cases hj
        trivial
      · exact hfloat _ hj
    · exact hfloat _ hj
  · exact hfloat _ hj

/-- The property holds of values without parts, and of an array or an object if it holds of the
parts with the room that is left for them. -/
structure KeptByReading (P : Nat → Json → Prop) : Prop where
  simple : ∀ {room : Nat} {j : Json}, j.IsSimple → P room j
  array : ∀ {room : Nat} {items : List Json}, (∀ x ∈ items, P room x) → P (room + 1) (.array items)
  object : ∀ {room : Nat} {members : List (String × Json)}, (∀ m ∈ members, P room m.2) →
    P (room + 1) (.ofMembers members)

variable {P : Nat → Json → Prop} {fuel room : Nat} {cs rest : List Char}

/-- What each of the readers returns after a number of steps has the property. -/
structure KeptFor (P : Nat → Json → Prop) (fuel : Nat) : Prop where
  value : ∀ {room cs j rest}, readValue? fuel room cs = some (j, rest) → P room j
  items : ∀ {room cs xs rest}, readItems? fuel room cs = some (xs, rest) → ∀ x ∈ xs, P room x
  members : ∀ {room cs ms rest}, readMembers? fuel room cs = some (ms, rest) → ∀ m ∈ ms, P room m.2

/-! ## One step of each reader -/

/-- A value is simple, or its parts are read with one step less and less room. -/
theorem KeptFor.value_succ (hkept : KeptFor P fuel) (h : KeptByReading P) {j : Json}
    (hread : readValue? (fuel + 1) room cs = some (j, rest)) : P room j := by
  rw [readValue?] at hread
  split at hread
  -- null, true and false
  · cases hread
    exact h.simple trivial
  · cases hread
    exact h.simple trivial
  · cases hread
    exact h.simple trivial
  -- a string
  · obtain ⟨s, -, heq⟩ := Option.map_eq_some_iff.mp hread
    cases heq
    exact h.simple trivial
  -- an array, which may be empty
  · split at hread
    · exact nomatch hread
    · split at hread
      · cases hread
        exact h.array fun x hx => nomatch hx
      · obtain ⟨⟨xs, after⟩, hxs, heq⟩ := Option.map_eq_some_iff.mp hread
        cases heq
        exact h.array (hkept.items hxs)
  -- an object, which may be empty
  · split at hread
    · exact nomatch hread
    · split at hread
      · cases hread
        exact h.object (List.forall_mem_nil fun m : String × Json => P _ m.2)
      · obtain ⟨⟨ms, after⟩, hms, heq⟩ := Option.map_eq_some_iff.mp hread
        cases heq
        exact h.object (hkept.members hms)
  -- a number, with a sign and without
  · exact h.simple (isSimple_of_readNumber? hread)
  · exact h.simple (isSimple_of_readNumber? hread)

theorem KeptFor.items_succ (hkept : KeptFor P fuel) {xs : List Json}
    (hread : readItems? (fuel + 1) room cs = some (xs, rest)) : ∀ x ∈ xs, P room x := by
  rw [readItems?] at hread
  obtain ⟨⟨x, behind⟩, hx, hread⟩ := Option.bind_eq_some_iff.mp hread
  dsimp only at hread
  split at hread
  · obtain ⟨⟨ys, after⟩, hys, heq⟩ := Option.map_eq_some_iff.mp hread
    cases heq
    exact List.forall_mem_cons.mpr ⟨hkept.value hx, hkept.items hys⟩
  · cases hread
    exact List.forall_mem_singleton.mpr (hkept.value hx)
  · exact nomatch hread

theorem KeptFor.members_succ (hkept : KeptFor P fuel) {ms : List (String × Json)}
    (hread : readMembers? (fuel + 1) room cs = some (ms, rest)) : ∀ m ∈ ms, P room m.2 := by
  rw [readMembers?] at hread
  split at hread
  · obtain ⟨⟨k, behind⟩, -, hread⟩ := Option.bind_eq_some_iff.mp hread
    dsimp only at hread
    split at hread
    · obtain ⟨⟨x, after⟩, hx, hread⟩ := Option.bind_eq_some_iff.mp hread
      dsimp only at hread
      split at hread
      · obtain ⟨⟨others, after⟩, hothers, heq⟩ := Option.map_eq_some_iff.mp hread
        cases heq
        exact List.forall_mem_cons.mpr ⟨hkept.value hx, hkept.members hothers⟩
      · cases hread
        exact List.forall_mem_singleton.mpr (hkept.value hx)
      · exact nomatch hread
    · exact nomatch hread
  · exact nomatch hread

/-! ## Any number of steps -/

/-- **What is read in a number of steps has the property.** -/
theorem KeptByReading.keptFor (h : KeptByReading P) (fuel : Nat) : KeptFor P fuel := by
  induction fuel with
  | zero => exact ⟨fun hread => (nomatch hread), fun hread => (nomatch hread),
      fun hread => (nomatch hread)⟩
  | succ fuel ih => exact ⟨ih.value_succ h, ih.items_succ, ih.members_succ⟩

/-- **What is read of a text has the property.** -/
theorem KeptByReading.of_ofText? (h : KeptByReading P) {s : String} {j : Json}
    (hread : ofText? s = some j) : P maxDepth j := by
  unfold ofText? complete? at hread
  split at hread
  · next j' rest hvalue =>
    split at hread
    · cases hread
      exact (h.keptFor _).value hvalue
    · exact nomatch hread
  · exact nomatch hread

theorem mem_of_mem_insertAll {entries pairs : List (String × Json)} {p : String × Json}
    (h : p ∈ SortedList.insertAll entries pairs) : p ∈ entries ∨ p ∈ pairs := by
  induction pairs generalizing entries with
  | nil => exact .inl h
  | cons e pairs ih =>
      rcases ih h with hp | hp
      · rcases SortedList.mem_insert hp with rfl | hp
        · exact .inr List.mem_cons_self
        · exact .inl hp
      · exact .inr (List.mem_cons_of_mem e hp)

/-- Members that are repeated or out of order give an object no members that were not there. -/
theorem mem_of_mem_ofMembers {ms : List (String × Json)} {m : String × Json}
    (h : m ∈ SortedList.insertAll [] ms) : m ∈ ms :=
  (mem_of_mem_insertAll h).resolve_left List.not_mem_nil

end SqlBuilder.Json
