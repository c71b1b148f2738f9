import SqlBuilder.Proofs.Json.Exactness
import SqlBuilder.Value.Conversion

/-!
# Documents that pass through values

A document is tried as each kind of value in turn, and the first kind that takes it is its value.
An integer inside an array or an object is never tried alone: it stays a part of its document,
whatever its size.  An integer by itself is kept as one only in the signed 64 bits, so of all the
documents whose numbers are integers just the bare integers beyond them do not come back.
-/

namespace SqlBuilder.Value

open Number

/-! ## Trials -/

/-- The kinds of values. -/
inductive Kind where
  | null
  | bool
  | int
  | float
  | text
  | json

namespace Kind

/-- The value of the kind that holds a document, if there is one.  Numbers of any kind can be
floating point numbers, and every document can stay what it is. -/
def take? : Kind → Json → Option Value
  | .null, .null => some .null
  | .bool, .bool b => some (.bool b)
  | .int, .integer n =>
    if n.value < Nat.pow 2 63 then some (.int (Int64.ofInt n.value)) else none
  | .float, .integer n => some (.float (.ofInt n.value))
  | .float, .float x => some (.float x)
  | .text, .string s => some (.text s)
  | .json, j => some (.json j)
  | _, _ => none

/-- The order in which a document is tried as one kind after the other. -/
def inOrder : List Kind :=
  [null, bool, int, float, text, json]

/-- A document is read as the first kind that takes it. -/
theorem findSome?_take? (j : Json) : inOrder.findSome? (·.take? j) = some (ofJson j) := by
  cases j with
  | integer n =>
      simp only [inOrder, List.findSome?_cons, take?, ofJson]
      by_cases hsmall : n.value < Nat.pow 2 63
      · rw [if_pos hsmall, if_pos hsmall]
      · rw [if_neg hsmall, if_neg hsmall]
  | _ => rfl

end Kind

/-! ## The text of a value -/

theorem toDocument_ofInt {n : Int} (hlow : -(Nat.pow 2 63 : Int) ≤ n) (hhigh : n < Nat.pow 2 63) :
    toDocument (.int (Int64.ofInt n)) = toString n := by
  rw [toDocument, Int64.toInt_ofInt_of_le hlow hhigh]

/-- A value has the text of its document, unless that was an integer which it does not hold. -/
theorem toDocument_ofJson {j : Json} (h : ∀ n, j = .integer n → n.value < Nat.pow 2 63) :
    (ofJson j).toDocument = j.toText := by
  cases j with
  | integer n =>
      have hsmall := h n rfl
      rw [ofJson, if_pos hsmall]
      exact toDocument_ofInt n.lower hsmall
  | _ => rfl

/-- The text of a floating point number is not that of an integer. -/
theorem ofText?_floatText_ne (x : Binary64) (n : JsonInteger) :
    Json.ofText? (Json.floatText x) ≠ some (.integer n) := by
  obtain ⟨j, hread, hfloat⟩ := Json.exists_readsAtOnce_float x
  have hreads : Json.ReadsAs (.float x) j := hread.readsAs rfl
  have htext : Json.ofText? (Json.floatText x) = some j :=
    hreads.ofText?.trans (if_pos (Nat.zero_le Json.maxDepth))
  rw [htext]
  rintro ⟨⟩
  rcases hfloat with hnull | ⟨y, hfloat⟩
  · exact nomatch hnull
  · exact nomatch hfloat

/-- An integer beyond the signed 64 bits does not come back as an integer. -/
theorem ofText?_toDocument_great {n : JsonInteger} (h : ¬n.value < Nat.pow 2 63) :
    Json.ofText? (ofJson (.integer n)).toDocument ≠ some (.integer n) := by
  rw [ofJson, if_neg h]
  exact ofText?_floatText_ne _ n

/-- **Documents pass through values.**  Every text of a document whose numbers are integers is read
as the value of the first kind that takes it, and the text of that value is read as the same
document, unless that is a bare integer beyond the signed 64 bits. -/
theorem documents_pass_through_values {s : String} {j : Json} (h : Json.ofText? s = some j)
    (hwhole : j.IsWhole) :
    ∃ v, ofDocument? s = some v ∧ Kind.inOrder.findSome? (·.take? j) = some v ∧
      (Json.ofText? v.toDocument = some j ↔ ∀ n, j = .integer n → n.value < Nat.pow 2 63) := by
  refine ⟨ofJson j, ?_, Kind.findSome?_take? j, ?_⟩
  · rw [ofDocument?, h, Option.map_some]
  constructor
  · rintro hback n rfl
    by_contra hgreat
    exact ofText?_toDocument_great hgreat hback
  · intro hsmall
    rw [toDocument_ofJson hsmall]
    exact Json.ofText?_toText_of_ofText? h hwhole

/-- The greatest integer of 64 bits without a sign. -/
def greatest : JsonInteger :=
  ⟨18446744073709551615, by decide, by decide⟩

/-- The least integer of 64 bits with a sign. -/
def least : JsonInteger :=
  ⟨-9223372036854775808, by decide, by decide⟩

/-- Integers at both ends of their range, inside an array inside an object. -/
def extremes : Json :=
  .object [("a", .null), ("b", .array [.integer greatest, .integer least, .string "\"\n"])]

def extremesText : String :=
  "\x7b\"a\":null,\"b\":[18446744073709551615,-9223372036854775808,\"\\\"\\n\"]\x7d"

theorem isWhole_extremes : extremes.IsWhole := by
  refine .object trivial (List.forall_mem_cons.mpr ⟨.simple trivial trivial,
    List.forall_mem_singleton.mpr (.array trivial ?_)⟩)
  exact List.forall_mem_cons.mpr ⟨.simple trivial trivial, List.forall_mem_cons.mpr
    ⟨.simple trivial trivial, List.forall_mem_singleton.mpr (.simple trivial trivial)⟩⟩

theorem isOrdered_extremes : extremes.IsOrdered := by
  have hkeys : compare "a" "b" = .lt := by decide +kernel
  refine .object (List.pairwise_pair.mpr hkeys) (List.forall_mem_cons.mpr ⟨.simple trivial trivial,
    List.forall_mem_singleton.mpr (.array trivial ?_)⟩)
  exact List.forall_mem_cons.mpr ⟨.simple trivial trivial, List.forall_mem_cons.mpr
    ⟨.simple trivial trivial, List.forall_mem_singleton.mpr (.simple trivial trivial)⟩⟩

theorem ofText?_extremesText : Json.ofText? extremesText = some extremes := by
  have htext : extremes.toText = extremesText := by decide +kernel
  rw [← htext]
  exact Json.ofText?_toText_self isWhole_extremes isOrdered_extremes (by decide)

/-- Inside a document the integer comes back that does not by itself. -/
theorem integers_within_a_document_come_back :
    Json.ofText? extremesText = some extremes ∧ extremes.IsWhole ∧
    ∃ v, ofDocument? extremesText = some v ∧ Kind.inOrder.findSome? (·.take? extremes) = some v ∧
      Json.ofText? v.toDocument = some extremes := by
  obtain ⟨v, hv, hkind, hback⟩ :=
    documents_pass_through_values ofText?_extremesText isWhole_extremes
  exact ⟨ofText?_extremesText, isWhole_extremes, v, hv, hkind, hback.mpr fun n hn => nomatch hn⟩

theorem ofText?_greatest : Json.ofText? "18446744073709551615" = some (.integer greatest) := by
  have htext : Json.toText (.integer greatest) = "18446744073709551615" := by decide +kernel
  rw [← htext]
  exact Json.ofText?_toText_self (.simple trivial trivial) (.simple trivial trivial) (Nat.zero_le _)

/-- A bare integer beyond the signed 64 bits is held as a floating point number. -/
theorem greatest_integer_is_rounded : ∃ j v, Json.ofText? "18446744073709551615" = some j ∧
    j.IsWhole ∧ ofDocument? "18446744073709551615" = some v ∧
    Kind.inOrder.findSome? (·.take? j) = some v ∧ Json.ofText? v.toDocument ≠ some j := by
  refine ⟨.integer greatest, ofJson (.integer greatest), ofText?_greatest,
    .simple trivial trivial, ?_, Kind.findSome?_take? _, ofText?_toDocument_great (by decide)⟩
  rw [ofDocument?, ofText?_greatest, Option.map_some]

end SqlBuilder.Value
