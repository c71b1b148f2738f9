import Mathlib.Data.List.Nodup
import SqlBuilder.SortedMap

/-!
# Lookups in sorted maps

What a map answers after it was written to: the last of several values for one key counts, and of
two maps in one the second.  An entry is what a lookup finds, since no key occurs twice.
-/

namespace SqlBuilder.SortedMap

variable {κ β : Type}

/-! ## The last of several values -/

section LastValue

variable [DecidableEq κ]

/-- The value of the last pair with a key. -/
def lastValue? (k : κ) (pairs : List (κ × β)) : Option β :=
  (pairs.reverse.find? (·.1 = k)).map Prod.snd

theorem lastValue?_cons (k : κ) (p : κ × β) (pairs : List (κ × β)) :
    lastValue? k (p :: pairs)
      = (lastValue? k pairs).or (if p.1 = k then some p.2 else none) := by
  unfold lastValue?
  rw [List.reverse_cons, List.find?_append, Option.map_or]
  congr 1
  by_cases h : p.1 = k <;> simp [h]

theorem lastValue?_concat (k : κ) (p : κ × β) (pairs : List (κ × β)) :
    lastValue? k (pairs ++ [p]) = if p.1 = k then some p.2 else lastValue? k pairs := by
  unfold lastValue?
  rw [List.reverse_append, List.reverse_singleton, List.singleton_append, List.find?_cons]
  by_cases h : p.1 = k <;> simp [h]

/-- The value of a pair behind which its key does not come again. -/
theorem lastValue?_append_cons {k : κ} {v : β} {before after : List (κ × β)}
    (h : ∀ p ∈ after, p.1 ≠ k) : lastValue? k (before ++ (k, v) :: after) = some v := by
  have hafter : after.reverse.find? (·.1 = k) = none := by
    rw [List.find?_eq_none]
    intro p hp
    simpa using h p (List.mem_reverse.mp hp)
  unfold lastValue?
  rw [List.reverse_append, List.reverse_cons, List.find?_append, List.find?_append, hafter]
  simp

theorem lastValue?_isSome {k : κ} {pairs : List (κ × β)} :
    (lastValue? k pairs).isSome = true ↔ k ∈ pairs.map Prod.fst := by
  simp [lastValue?]

/-- Where all pairs with a key have one value, that is the last one. -/
theorem lastValue?_eq_some {k : κ} {v : β} {pairs : List (κ × β)}
    (hmem : k ∈ pairs.map Prod.fst) (h : ∀ p ∈ pairs, p.1 = k → p.2 = v) :
    lastValue? k pairs = some v := by
  rw [← lastValue?_isSome, Option.isSome_iff_exists] at hmem
  obtain ⟨w, hw⟩ := hmem
  obtain ⟨p, hfind, rfl⟩ := Option.map_eq_some_iff.mp hw
  have hp : p ∈ pairs := List.mem_reverse.mp (List.mem_of_find?_eq_some hfind)
  have hk : p.1 = k := by simpa using List.find?_some hfind
  rw [hw, h p hp hk]

end LastValue

/-! ## Entries -/

variable [Ord κ] [Std.LawfulEqOrd κ]

theorem mem_of_find?_eq_some {k : κ} {v : β} {entries : List (κ × β)}
    (h : SortedList.find? k entries = some v) : (k, v) ∈ entries := by
  induction entries with
  | nil => exact nomatch h
  | cons e rest ih =>
      obtain ⟨k', v'⟩ := e
      rw [SortedList.find?] at h
      split at h
      · next heq =>
        have hk : k = k' := Std.LawfulEqCmp.eq_of_compare heq
        cases h
        rw [hk]
        exact List.mem_cons_self
      · exact List.mem_cons_of_mem _ (ih h)

/-- A lookup finds an entry because the keys before it are less. -/
theorem find?_of_mem {k : κ} {v : β} {entries : List (κ × β)} (hs : SortedList.Sorted entries)
    (h : (k, v) ∈ entries) : SortedList.find? k entries = some v := by
  induction entries with
  | nil => exact nomatch h
  | cons e rest ih =>
      obtain ⟨k', v'⟩ := e
      obtain ⟨head, tail⟩ := List.pairwise_cons.mp hs
      rw [SortedList.find?]
      rcases List.mem_cons.mp h with heq | hmem
      · cases heq
        rw [if_pos Std.ReflCmp.compare_self]
      · have hlt : compare k' k = .lt := head (k, v) hmem
        have hne : compare k k' ≠ .eq := by
          intro heq
          have hself : compare k' k' = .eq := Std.ReflCmp.compare_self
          rw [Std.LawfulEqCmp.eq_of_compare heq, hself] at hlt
          exact absurd hlt (by decide)
        rw [if_neg hne]
        exact ih tail hmem

theorem mem_entries_iff {m : SortedMap κ β} {k : κ} {v : β} :
    (k, v) ∈ m.entries ↔ m.get? k = some v :=
  ⟨find?_of_mem m.sorted, mem_of_find?_eq_some⟩

theorem contains_iff_mem_keys {m : SortedMap κ β} {k : κ} :
    m.contains k = true ↔ k ∈ m.keys := by
  rw [contains, Option.isSome_iff_exists, keys, List.mem_map]
  constructor
  · rintro ⟨v, hv⟩
    exact ⟨(k, v), mem_entries_iff.mpr hv, rfl⟩
  · rintro ⟨⟨k', v⟩, hmem, rfl⟩
    exact ⟨v, mem_entries_iff.mp hmem⟩

theorem get?_filterKeys_eq_some_iff {m : SortedMap κ β} {keep : κ → Bool} {k : κ} {v : β} :
    (m.filterKeys keep).get? k = some v ↔ m.get? k = some v ∧ keep k = true := by
  rw [← mem_entries_iff, ← mem_entries_iff, filterKeys, List.mem_filter]

/-! ## Keys -/

omit [Std.LawfulEqOrd κ] in
theorem keys_filterKeys (m : SortedMap κ β) (keep : κ → Bool) :
    (m.filterKeys keep).keys = m.keys.filter keep := by
  unfold keys filterKeys
  rw [List.filter_map]
  rfl

omit [Std.LawfulEqOrd κ] in
theorem pairwise_keys (m : SortedMap κ β) : m.keys.Pairwise fun a b => compare a b = .lt :=
  List.pairwise_map.mpr m.sorted

theorem nodup_keys (m : SortedMap κ β) : m.keys.Nodup := by
  refine m.pairwise_keys.imp ?_
  rintro a b hlt rfl
  have hself : compare a a = .eq := Std.ReflCmp.compare_self
  rw [hself] at hlt
  exact absurd hlt (by decide)

variable [Std.TransOrd κ]

/-- The order leaves no choice how to list the keys. -/
theorem keys_eq_of_mem_iff {γ : Type} {m : SortedMap κ β} {n : SortedMap κ γ}
    (h : ∀ k, k ∈ m.keys ↔ k ∈ n.keys) : m.keys = n.keys := by
  -- without repetitions the same keys are a permutation, and order leaves only one
  have hperm : m.keys.Perm n.keys :=
    (List.perm_ext_iff_of_nodup m.nodup_keys n.nodup_keys).mpr h
  refine hperm.eq_of_pairwise ?_ m.pairwise_keys n.pairwise_keys
  intro a b _ _ hab hba
  have hgt : compare a b = .gt := Std.OrientedCmp.gt_of_lt hba
  rw [hab] at hgt
  exact absurd hgt (by decide)

/-- Maps that answer every lookup alike are equal. -/
theorem ext_get? {m n : SortedMap κ β} (h : ∀ k, m.get? k = n.get? k) : m = n := by
  have hnodup : ∀ l : SortedMap κ β, l.entries.Nodup := fun l => .of_map _ l.nodup_keys
  have hperm : m.entries.Perm n.entries := by
    refine (List.perm_ext_iff_of_nodup (hnodup m) (hnodup n)).mpr fun e => ?_
    rw [mem_entries_iff, mem_entries_iff, h]
  refine ext_entries (hperm.eq_of_pairwise ?_ m.sorted n.sorted)
  intro a b _ _ hab hba
  have hgt : compare a.1 b.1 = .gt := Std.OrientedCmp.gt_of_lt hba
  rw [hab] at hgt
  exact absurd hgt (by decide)

/-! ## Writing -/

omit [Std.LawfulEqOrd κ] in
theorem insertAll_append (m : SortedMap κ β) (pairs more : List (κ × β)) :
    m.insertAll (pairs ++ more) = (m.insertAll pairs).insertAll more := by
  induction pairs generalizing m with
  | nil => rfl
  | cons p pairs ih => exact ih (m.insert p.1 p.2)

@[simp]
theorem get?_insert_self (m : SortedMap κ β) (k : κ) (v : β) : (m.insert k v).get? k = some v := by
  rw [get?_insert, if_pos Std.ReflCmp.compare_self]

theorem get?_insert_of_ne (m : SortedMap κ β) {k k₀ : κ} (h : k₀ ≠ k) (v : β) :
    (m.insert k v).get? k₀ = m.get? k₀ := by
  rw [get?_insert, if_neg fun e => h (Std.LawfulEqCmp.eq_of_compare e)]

variable [DecidableEq κ]

theorem get?_insertAll (m : SortedMap κ β) (pairs : List (κ × β)) (k : κ) :
    (m.insertAll pairs).get? k = (lastValue? k pairs).or (m.get? k) := by
  induction pairs generalizing m with
  | nil => rfl
  | cons p pairs ih =>
      rw [insertAll_cons, ih, lastValue?_cons, Option.or_assoc]
      -- what is written first counts where no later pair has the key
      congr 1
      by_cases h : p.1 = k
      · rw [if_pos h, ← h, get?_insert_self, Option.some_or]
      · rw [if_neg h, get?_insert_of_ne m (Ne.symm h), Option.none_or]

/-- A key that is not written to keeps its value. -/
theorem get?_insertAll_of_not_mem (m : SortedMap κ β) {pairs : List (κ × β)} {k : κ}
    (h : k ∉ pairs.map Prod.fst) : (m.insertAll pairs).get? k = m.get? k := by
  rw [← lastValue?_isSome, Option.not_isSome_iff_eq_none] at h
  rw [get?_insertAll, h, Option.none_or]

/-- A key that is written to with one value only has that. -/
theorem get?_insertAll_eq_some (m : SortedMap κ β) {pairs : List (κ × β)} {k : κ} {v : β}
    (hmem : k ∈ pairs.map Prod.fst) (h : ∀ p ∈ pairs, p.1 = k → p.2 = v) :
    (m.insertAll pairs).get? k = some v := by
  rw [get?_insertAll, lastValue?_eq_some hmem h, Option.some_or]

theorem get?_ofList (pairs : List (κ × β)) (k : κ) :
    (ofList pairs).get? k = lastValue? k pairs := by
  rw [ofList, get?_insertAll, get?_empty, Option.or_none]

theorem contains_insertAll {m : SortedMap κ β} {pairs : List (κ × β)} {k : κ} :
    (m.insertAll pairs).contains k = true ↔ k ∈ pairs.map Prod.fst ∨ m.contains k = true := by
  rw [contains, get?_insertAll, Option.isSome_or, Bool.or_eq_true, lastValue?_isSome]
  rfl

theorem contains_insert {m : SortedMap κ β} {k k₀ : κ} {v : β} :
    (m.insert k v).contains k₀ = true ↔ k₀ = k ∨ m.contains k₀ = true := by
  have h : (m.insertAll [(k, v)]).contains k₀ = true ↔ _ := contains_insertAll
  simpa using h

theorem contains_merge {m other : SortedMap κ β} {k : κ} :
    (m.merge other).contains k = true ↔ other.contains k = true ∨ m.contains k = true := by
  rw [merge, contains_insertAll, contains_iff_mem_keys (m := other), keys]

theorem mem_keys_ofList {pairs : List (κ × β)} {k : κ} :
    k ∈ (ofList pairs).keys ↔ k ∈ pairs.map Prod.fst := by
  rw [← contains_iff_mem_keys, contains, get?_ofList, lastValue?_isSome]

omit [Std.TransOrd κ] in
/-- A map has one value for each key, so the last is that one. -/
theorem lastValue?_entries (m : SortedMap κ β) (k : κ) : lastValue? k m.entries = m.get? k := by
  cases hk : m.get? k with
  | none =>
      have hkey : k ∉ m.keys := by
        rw [← contains_iff_mem_keys, contains, hk]
        exact Bool.false_ne_true
      rwa [keys, ← lastValue?_isSome, Option.not_isSome_iff_eq_none] at hkey
  | some v =>
      have hmem : (k, v) ∈ m.entries := mem_entries_iff.mpr hk
      refine lastValue?_eq_some (List.mem_map_of_mem hmem) ?_
      rintro ⟨k', w⟩ hw rfl
      rw [mem_entries_iff, hk] at hw
      exact (Option.some.inj hw).symm

/-- Pairs that are gathered in a map before they are written leave the same map. -/
theorem merge_ofList (m : SortedMap κ β) (pairs : List (κ × β)) :
    m.merge (ofList pairs) = m.insertAll pairs := by
  refine ext_get? fun k => ?_
  rw [merge, get?_insertAll, get?_insertAll, lastValue?_entries, get?_ofList]

/-- The entries of a map, gathered in a map, are that map. -/
theorem ofList_entries (m : SortedMap κ β) : ofList m.entries = m :=
  ext_get? fun k => (get?_ofList m.entries k).trans (lastValue?_entries m k)

end SqlBuilder.SortedMap
