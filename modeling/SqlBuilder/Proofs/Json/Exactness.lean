import SqlBuilder.Proofs.SortedMap
import SqlBuilder.Proofs.Json.Reading

/-!
# Documents read back exactly

A document whose numbers are integers, and whose objects list their members in order, is read back
as itself.  Every document that was read is in order, so of what was read only the numbers matter.
-/

namespace SqlBuilder.Json

open Number

/-! ## Properties of all parts -/

/-- The property holds of a document and of every document inside it. -/
inductive Everywhere (p : Json → Prop) : Json → Prop where
  | simple {j : Json} (hj : j.IsSimple) (h : p j) : Everywhere p j
  | array {items : List Json} (h : p (.array items)) (hitems : ∀ x ∈ items, Everywhere p x) :
      Everywhere p (.array items)
  | object {members : List (String × Json)} (h : p (.object members))
      (hmembers : ∀ m ∈ members, Everywhere p m.2) : Everywhere p (.object members)

section Everywhere

variable {p : Json → Prop}

theorem everywhere_array_iff {items : List Json} :
    Everywhere p (.array items) ↔ p (.array items) ∧ ∀ x ∈ items, Everywhere p x := by
  refine ⟨fun h => ?_, fun h => .array h.1 h.2⟩
  cases h with
  | simple hj _ => exact hj.elim
  | array h hitems => exact ⟨h, hitems⟩

theorem everywhere_object_iff {members : List (String × Json)} :
    Everywhere p (.object members) ↔ p (.object members) ∧ ∀ m ∈ members, Everywhere p m.2 := by
  refine ⟨fun h => ?_, fun h => .object h.1 h.2⟩
  cases h with
  | simple hj _ => exact hj.elim
  | object h hmembers => exact ⟨h, hmembers⟩

end Everywhere

/-- The floating point number as which `-0` is read, which is no integer. -/
def negativeZero : Binary64 :=
  (Binary64.ofInt 0).negate

/-- All numbers of the document are integers, the negative zero among them. -/
def IsWhole : Json → Prop :=
  Everywhere fun
    | .float x => x = negativeZero
    | _ => True

/-- All objects of the document list their members by ascending key, each key once. -/
def IsOrdered : Json → Prop :=
  Everywhere fun
    | .object members => SortedList.Sorted members
    | _ => True

/-- Readers bring the members of every object into order. -/
theorem keptByReading_isOrdered : KeptByReading fun _ j => j.IsOrdered where
  simple {_ j} hj := .simple hj (by cases j <;> trivial)
  array hitems := .array trivial hitems
  object {_ members} hmembers :=
    .object (.insertAll members .nil) fun m hm => hmembers m (mem_of_mem_ofMembers hm)

theorem isOrdered_of_ofText? {s : String} {j : Json} (h : ofText? s = some j) : j.IsOrdered :=
  keptByReading_isOrdered.of_ofText? h

example : (ofText? "\x7b\"b\": 1, \"a\": [-0, 18446744073709551615], \"b\": null\x7d").map toText
    = some "\x7b\"a\":[-0.0,18446744073709551615],\"b\":null\x7d" := by
  decide +kernel

/-! ## Exact reading -/

theorem toText_negativeZero : (toText (.float negativeZero)).toList
    = (signText true).toList ++ (['0'] ++ '.' :: ['0']) := by
  decide +kernel

theorem readNumber?_negativeZero {rest : List Char} (hrest : EndsNumber rest) :
    readNumber? true (['0'] ++ '.' :: ['0'] ++ rest) = some (.float negativeZero, rest) := by
  have hne : ['0'] ≠ [] := List.cons_ne_nil '0' []
  have hdigits : ∀ c ∈ ['0'], isDigit c = true := List.forall_mem_singleton.mpr (by decide)
  have htaken := takenAs_point hne hne hdigits hdigits (fun _ => rfl) rest hrest
  rw [readNumber?, htaken]
  rfl

theorem readsAtOnce_negativeZero :
    ReadsAtOnce (toText (.float negativeZero)).toList (.float negativeZero) := by
  rw [toText_negativeZero]
  exact readsAtOnce_number fun _ => readNumber?_negativeZero

theorem itemsReadAs_self {x : Json} {xs : List Json} (h : ∀ y ∈ x :: xs, ReadsAs y y) :
    ItemsReadAs (x :: xs) (x :: xs) := by
  induction xs generalizing x with
  | nil => exact itemsReadAs_single (h x List.mem_cons_self)
  | cons y xs ih =>
      obtain ⟨hx, hxs⟩ := List.forall_mem_cons.mp h
      exact itemsReadAs_cons hx (ih hxs)

theorem membersReadAs_self {m : String × Json} {ms : List (String × Json)}
    (h : ∀ n ∈ m :: ms, ReadsAs n.2 n.2) : MembersReadAs (m :: ms) (m :: ms) := by
  induction ms generalizing m with
  | nil => exact membersReadAs_single m.1 (h m List.mem_cons_self)
  | cons n ms ih =>
      obtain ⟨hm, hms⟩ := List.forall_mem_cons.mp h
      exact membersReadAs_cons m.1 hm (ih hms)

theorem ofMembers_of_sorted {members : List (String × Json)} (h : SortedList.Sorted members) :
    ofMembers members = .object members :=
  congrArg (fun m : SortedMap String Json => Json.object m.entries)
    (SortedMap.ofList_entries ⟨members, h⟩)

/-- **A document in order whose numbers are integers is read back as itself.** -/
theorem readsAs_self {j : Json} (hwhole : j.IsWhole) (hordered : j.IsOrdered) : ReadsAs j j := by
  induction hwhole with
  | @simple j hj h =>
      cases j with
      | null => exact readsAtOnce_null.readsAs rfl
      | bool b => exact (readsAtOnce_bool b).readsAs rfl
      | integer n => exact (readsAtOnce_integer n).readsAs rfl
      | float x =>
          obtain rfl : x = negativeZero := h
          exact readsAtOnce_negativeZero.readsAs rfl
      | string s => exact (readsAtOnce_string s).readsAs rfl
      | array items => exact hj.elim
      | object members => exact hj.elim
  | @array items _ _ ih =>
      obtain ⟨-, hitems⟩ := everywhere_array_iff.mp hordered
      cases items with
      | nil => exact readsAs_array_nil
      | cons x xs => exact readsAs_array (itemsReadAs_self fun y hy => ih y hy (hitems y hy))
  | @object members _ _ ih =>
      obtain ⟨hsorted, hmembers⟩ := everywhere_object_iff.mp hordered
      cases members with
      | nil => exact readsAs_object_nil
      | cons m ms =>
          -- the reader puts the members in order, in which they are already
          have hread := readsAs_object (membersReadAs_self fun n hn => ih n hn (hmembers n hn))
          rwa [ofMembers_of_sorted hsorted] at hread

theorem ofText?_toText_self {j : Json} (hwhole : j.IsWhole) (hordered : j.IsOrdered)
    (hdepth : j.depth ≤ maxDepth) : ofText? j.toText = some j :=
  (readsAs_self hwhole hordered).ofText?.trans (if_pos hdepth)

/-- **What was read of a text, and has no numbers but integers, is what its own text spells.** -/
theorem ofText?_toText_of_ofText? {s : String} {j : Json} (h : ofText? s = some j)
    (hwhole : j.IsWhole) : ofText? j.toText = some j :=
  ofText?_toText_self hwhole (isOrdered_of_ofText? h) (depth_le_of_ofText? h)

end SqlBuilder.Json
