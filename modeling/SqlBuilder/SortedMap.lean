/-!
# Maps sorted by key

Names, columns and JSON members are all kept in key order, each key at most once.  The list
operations of `SortedList` work on plain association lists, so a recursive type may hold its members
directly; `SortedMap` adds the proof that the keys ascend, which makes two maps equal as soon as
they answer every lookup alike.
-/

namespace SqlBuilder

/-! ## Association lists in key order -/

namespace SortedList

variable {κ β : Type} [Ord κ]

/-- Puts `v` under `k`: in key order, replacing what was stored under `k`. -/
def insert (k : κ) (v : β) : List (κ × β) → List (κ × β)
  | [] => [(k, v)]
  | (k', v') :: rest =>
    match compare k k' with
    | .lt => (k, v) :: (k', v') :: rest
    | .eq => (k, v) :: rest
    | .gt => (k', v') :: insert k v rest

/-- The value stored under `k`. -/
def find? (k : κ) : List (κ × β) → Option β
  | [] => none
  | (k', v') :: rest => if compare k k' = .eq then some v' else find? k rest

/-- The entries of `pairs` written one after the other over `entries`. -/
def insertAll (entries : List (κ × β)) (pairs : List (κ × β)) : List (κ × β) :=
  pairs.foldl (fun acc p => insert p.1 p.2 acc) entries

/-- Keys ascend, so no key occurs twice. -/
def Sorted (entries : List (κ × β)) : Prop :=
  entries.Pairwise fun a b => compare a.1 b.1 = .lt

theorem mem_insert {k : κ} {v : β} {p : κ × β} {entries : List (κ × β)}
    (h : p ∈ insert k v entries) : p = (k, v) ∨ p ∈ entries := by
  induction entries with
  | nil => simpa [insert] using h
  | cons e rest ih =>
    obtain ⟨k', v'⟩ := e
    unfold insert at h
    split at h <;> simp only [List.mem_cons] at h ⊢
    · exact h
    · exact h.elim .inl fun m => .inr (.inr m)
    · rcases h with h | h
      · exact .inr (.inl h)
      · exact (ih h).elim .inl fun m => .inr (.inr m)

theorem Sorted.insert [Std.TransOrd κ] (k : κ) (v : β) {entries : List (κ × β)}
    (h : Sorted entries) : Sorted (SortedList.insert k v entries) := by
  induction entries with
  | nil => simp [SortedList.insert, Sorted]
  | cons e rest ih =>
    obtain ⟨k', v'⟩ := e
    obtain ⟨head, tail⟩ := List.pairwise_cons.1 h
    unfold SortedList.insert
    split
    · next lt =>
      refine List.pairwise_cons.2 ⟨fun p hp => ?_, h⟩
      rcases List.mem_cons.1 hp with rfl | hp
      · exact lt
      · exact Std.TransCmp.lt_trans lt (head p hp)
    · next eq =>
      exact List.pairwise_cons.2
        ⟨fun p hp => Std.TransCmp.lt_of_eq_of_lt eq (head p hp), tail⟩
    · next gt =>
      refine List.pairwise_cons.2 ⟨fun p hp => ?_, ih tail⟩
      rcases mem_insert hp with rfl | hp
      · exact Std.OrientedCmp.lt_of_gt gt
      · exact head p hp

theorem Sorted.insertAll [Std.TransOrd κ] (pairs : List (κ × β)) {entries : List (κ × β)}
    (h : Sorted entries) : Sorted (SortedList.insertAll entries pairs) := by
  induction pairs generalizing entries with
  | nil => exact h
  | cons p rest ih => exact ih (h.insert p.1 p.2)

theorem find?_insert [Std.TransOrd κ] (k k₀ : κ) (v : β) (entries : List (κ × β)) :
    find? k₀ (insert k v entries) = if compare k₀ k = .eq then some v else find? k₀ entries := by
  induction entries with
  | nil => simp [insert, find?]
  | cons e rest ih =>
    obtain ⟨k', v'⟩ := e
    unfold insert
    split
    · simp [find?]
    · next eq =>
      simp only [find?, ← Std.TransCmp.congr_right eq]
      split <;> rfl
    · next gt =>
      simp only [find?, ih]
      by_cases hk : compare k₀ k' = .eq
      · have : compare k₀ k ≠ .eq := fun e => by
          have swapped : compare k k₀ = .eq := Std.OrientedCmp.eq_symm e
          rw [Std.TransCmp.congr_right hk, gt] at swapped
          exact absurd swapped (by decide)
        simp [hk, this]
      · simp [hk]

end SortedList

/-! ## The map -/

/-- A finite map whose entries are listed by ascending key. -/
structure SortedMap (κ β : Type) [Ord κ] where
  entries : List (κ × β)
  sorted : SortedList.Sorted entries

namespace SortedMap

variable {κ β : Type} [Ord κ]

/-- The map without entries. -/
def empty : SortedMap κ β := ⟨[], .nil⟩

instance : EmptyCollection (SortedMap κ β) := ⟨empty⟩
instance : Inhabited (SortedMap κ β) := ⟨empty⟩

/-- Stores `v` under `k`, replacing an earlier value. -/
def insert [Std.TransOrd κ] (m : SortedMap κ β) (k : κ) (v : β) : SortedMap κ β :=
  ⟨SortedList.insert k v m.entries, m.sorted.insert k v⟩

/-- Stores the pairs one after the other, so the last of two equal keys wins. -/
def insertAll [Std.TransOrd κ] (m : SortedMap κ β) (pairs : List (κ × β)) : SortedMap κ β :=
  ⟨SortedList.insertAll m.entries pairs, m.sorted.insertAll pairs⟩

/-- The map of a list of pairs; the last of two equal keys wins. -/
def ofList [Std.TransOrd κ] (pairs : List (κ × β)) : SortedMap κ β :=
  (empty : SortedMap κ β).insertAll pairs

/-- Both maps in one; where both have a key, `other` wins. -/
def merge [Std.TransOrd κ] (m other : SortedMap κ β) : SortedMap κ β :=
  m.insertAll other.entries

def get? (m : SortedMap κ β) (k : κ) : Option β :=
  SortedList.find? k m.entries

def contains (m : SortedMap κ β) (k : κ) : Bool :=
  (m.get? k).isSome

def size (m : SortedMap κ β) : Nat :=
  m.entries.length

def isEmpty (m : SortedMap κ β) : Bool :=
  m.entries.isEmpty

/-- The keys, ascending. -/
def keys (m : SortedMap κ β) : List κ :=
  m.entries.map Prod.fst

/-- The entries whose key satisfies `keep`. -/
def filterKeys (m : SortedMap κ β) (keep : κ → Bool) : SortedMap κ β :=
  ⟨m.entries.filter fun e => keep e.1, m.sorted.filter _⟩

@[ext]
theorem ext_entries {m₁ m₂ : SortedMap κ β} (h : m₁.entries = m₂.entries) : m₁ = m₂ := by
  cases m₁; cases m₂; cases h; rfl

@[simp]
theorem get?_empty (k : κ) : (empty : SortedMap κ β).get? k = none := rfl

theorem get?_insert [Std.TransOrd κ] (m : SortedMap κ β) (k k₀ : κ) (v : β) :
    (m.insert k v).get? k₀ = if compare k₀ k = .eq then some v else m.get? k₀ :=
  SortedList.find?_insert k k₀ v m.entries

@[simp]
theorem insertAll_nil [Std.TransOrd κ] (m : SortedMap κ β) : m.insertAll [] = m := rfl

@[simp]
theorem insertAll_cons [Std.TransOrd κ] (m : SortedMap κ β) (p : κ × β) (ps : List (κ × β)) :
    m.insertAll (p :: ps) = (m.insert p.1 p.2).insertAll ps := rfl

end SortedMap

end SqlBuilder
