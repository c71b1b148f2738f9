import SqlBuilder.Proofs.Json.Read

/-!
# How deep documents are nested

A reader that may open a number of arrays and objects reads documents that are nested no deeper.
-/

namespace SqlBuilder.Json

mutual

/-- How many arrays and objects stand around the innermost value, the document itself included. -/
def depth : Json → Nat
  | .array items => itemsDepth items + 1
  | .object members => membersDepth members + 1
  | _ => 0

/-- The depth of the deepest item. -/
def itemsDepth : List Json → Nat
  | [] => 0
  | x :: xs => max x.depth (itemsDepth xs)

/-- The depth of the deepest member. -/
def membersDepth : List (String × Json) → Nat
  | [] => 0
  | (_, x) :: ms => max x.depth (membersDepth ms)

end

theorem itemsDepth_le_iff {xs : List Json} {n : Nat} :
    itemsDepth xs ≤ n ↔ ∀ x ∈ xs, x.depth ≤ n := by
  induction xs with
  | nil => simp [itemsDepth]
  | cons x xs ih => rw [itemsDepth, Nat.max_le, ih, List.forall_mem_cons]

theorem membersDepth_le_iff {ms : List (String × Json)} {n : Nat} :
    membersDepth ms ≤ n ↔ ∀ m ∈ ms, m.2.depth ≤ n := by
  induction ms with
  | nil => simp [membersDepth]
  | cons m ms ih => rw [membersDepth, Nat.max_le, ih, List.forall_mem_cons]

theorem depth_of_isSimple {j : Json} (h : j.IsSimple) : j.depth = 0 := by
  cases j with
  | array items => exact h.elim
  | object members => exact h.elim
  | _ => rfl

/-- No reader goes deeper than it has room. -/
theorem keptByReading_depth : KeptByReading fun room j => j.depth ≤ room where
  simple hj := by
    rw [depth_of_isSimple hj]
    exact Nat.zero_le _
  array hitems := Nat.succ_le_succ (itemsDepth_le_iff.mpr hitems)
  object hmembers := by
    rw [ofMembers, depth]
    apply Nat.succ_le_succ
    rw [membersDepth_le_iff]
    exact fun m hm => hmembers m (mem_of_mem_ofMembers hm)

/-- **What is read of a text is nested no deeper than a text may be.** -/
theorem depth_le_of_ofText? {s : String} {j : Json} (h : ofText? s = some j) :
    j.depth ≤ maxDepth :=
  keptByReading_depth.of_ofText? h

end SqlBuilder.Json
