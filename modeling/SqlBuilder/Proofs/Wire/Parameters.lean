import SqlBuilder.Proofs.Calendar.Outcome
import SqlBuilder.Proofs.Json.Reading
import SqlBuilder.Proofs.Wire.Cells
import SqlBuilder.Proofs.Wire.Numeric

/-!
# Parameters read back

What is written to a parameter of some type is read as a cell of that type.  The forms in which a
value is written are listed once (`Written`), whatever value it was: a number, a document or an
identifier that a text spells is written as the thing itself.  Each form is then read by the reader
of its type, and there are two whose bytes may be refused: a document may be nested deeper than a
text is read, and the leap second behind the last timestamp has the microseconds of a second that
has none.
-/

namespace SqlBuilder.Wire

open Number Calendar

variable {v : Value} {t : ColumnType} {raw : Bytes} {s : String}

/-! ## Types -/

namespace ColumnType

/-- The types that texts are written to and that no value is read from: byte strings, and
enumerations that are not the name of a type of texts. -/
def isWriteOnly : ColumnType → Bool
  | .bytea => true
  | .custom schema typeName .enumeration =>
    (textForm? (.custom schema typeName .enumeration)).isNone
  | _ => false

/-- The types for which a text is read as a number, a truth value, a document, an identifier, a date
or a time. -/
def parsed : List ColumnType :=
  [.bool, .int2, .int4, .int8, .oid, .float4, .float8, .numeric, .json, .jsonb, .uuid, .date,
    .timestamp, .timestamptz]

/-- The bytes of the integer types with a sign. -/
def integerWidth? : ColumnType → Option Nat
  | .int2 => some 2
  | .int4 => some 4
  | .int8 => some 8
  | _ => none

end ColumnType

/-- A cell of a type that is only written is refused by the name of the type. -/
theorem decode_of_isWriteOnly (ht : t.isWriteOnly = true) (raw : Bytes) :
    decode t (some raw) = .error (.unsupportedType t) := by
  cases t with
  | bytea => rfl
  | custom schema typeName kind =>
      cases kind with
      | enumeration =>
          have hnone := Option.isNone_iff_eq_none.mp ht
          simp only [decode, Decode.cell, hnone]
      | simple => exact absurd ht Bool.false_ne_true
      | domain => exact absurd ht Bool.false_ne_true
  | _ => exact absurd ht Bool.false_ne_true

/-! ## What is written -/

/-- The forms in which a value is written to a type that is also read. -/
inductive Written (v : Value) : ColumnType → Bytes → Prop
  | truth (b : Bool) : Written v .bool (Encode.truth b)
  | signed {t : ColumnType} {width : Nat} {n : Int} (ht : t.integerWidth? = some width)
      (hlow : -(Nat.pow 256 width : Int) ≤ 2 * n) (hhigh : 2 * n < Nat.pow 256 width) :
      Written v t (.ofInt width n)
  | oid {n : Nat} (hn : n < Nat.pow 256 4) : Written v .oid (.ofNat 4 n)
  | single (x : Binary32) : Written v .float4 (Encode.single x)
  | double (x : Binary64) : Written v .float8 (Encode.double x)
  | numeric (d : Decimal) : Written v .numeric (Numeric.encode d)
  | json {j : Json} (hj : v = .json j ∨ ∃ s, v = .text s ∧ Json.ofText? s = some j) :
      Written v .json (Bytes.ofText j.toText)
  | jsonb {j : Json} (hj : v = .json j ∨ ∃ s, v = .text s ∧ Json.ofText? s = some j) :
      Written v .jsonb (1 :: Bytes.ofText j.toText)
  | uuid (u : Uuid) : Written v .uuid u.bytes
  | date (d : Date) : Written v .date (.ofInt 4 d.day)
  | timestamp {s : String} {time : Timestamp} (hs : v = .text s)
      (htime : Timestamp.ofText? (Text.trim s) = some time) :
      Written v .timestamp (.ofInt 8 time.toMicros)
  | timestamptz {s : String} {time : Timestamp}
      (htime : Timestamp.ofUniversalText? (Text.trim s) = some time) :
      Written v .timestamptz (.ofInt 8 time.toMicros)
  | text {t : ColumnType} {s : String} {raw : Bytes} (hraw : Encode.text t s = .ok raw)
      (hs : ∀ s', v = .text s' → s' = s) : Written v t raw

theorem eq_of_orFail {α : Type} {e : EncodeError} {write : α → Bytes} {found : Option α}
    (h : Encode.orFail e write found = .ok raw) : ∃ a, found = some a ∧ raw = write a := by
  cases found with
  | none => cases h
  | some a =>
      cases h
      exact ⟨a, rfl, rfl⟩

/-- An integer that is written in a width fits it. -/
theorem bounds_of_signed {width : Nat} {n : Int} (hwidth : 0 < width)
    (h : Encode.signed width n = .ok raw) :
    raw = .ofInt width n ∧ -(Nat.pow 256 width : Int) ≤ 2 * n ∧ 2 * n < Nat.pow 256 width := by
  unfold Encode.signed at h
  split at h
  · next hfits =>
    cases h
    exact ⟨rfl, (fitsSigned_iff hwidth).mp hfits⟩
  · cases h

theorem written_signed {width : Nat} {n : Int} (ht : t.integerWidth? = some width)
    (hwidth : 0 < width) (h : Encode.signed width n = .ok raw) : Written v t raw := by
  obtain ⟨rfl, hlow, hhigh⟩ := bounds_of_signed hwidth h
  exact .signed ht hlow hhigh

theorem isSome_textForm?_of_text (h : Encode.text t s = .ok raw) : t.textForm?.isSome = true := by
  cases hform : t.textForm? with
  | none =>
      rw [Encode.text, hform] at h
      cases h
  | some form => rfl

/-- A value that is no text, or that a text spells for a type that holds none. -/
def NoText (v : Value) (t : ColumnType) : Prop :=
  t.textForm?.isSome = true → ∀ s, v ≠ .text s

theorem noText_of_none (ht : t.textForm? = none) : NoText v t := by
  intro hform
  rw [ht] at hform
  cases hform

theorem written_text (hv : NoText v t) (h : Encode.text t s = .ok raw) : Written v t raw :=
  .text h fun s' hs' => absurd hs' (hv (isSome_textForm?_of_text h) s')

theorem written_int {n : Int64} (hv : NoText v t) (h : Encode.int n t = .ok raw) :
    Written v t raw := by
  cases t with
  | int2 => exact written_signed rfl (by decide) h
  | int4 => exact written_signed rfl (by decide) h
  | int8 => exact written_signed rfl (by decide) h
  | oid =>
      change (if 0 ≤ n.toInt ∧ n.toInt < (Nat.pow 2 32 : Nat)
        then Except.ok (Bytes.ofNat 4 n.toInt.toNat) else .error EncodeError.outOfRange) = .ok raw at h
      split at h
      · next hn =>
        cases h
        have hpow : Nat.pow 256 4 = Nat.pow 2 32 := by decide
        refine .oid ?_
        rw [hpow]
        omega
      · cases h
  | float4 =>
      cases h
      exact .single _
  | float8 =>
      cases h
      exact .double _
  | numeric =>
      obtain ⟨d, -, rfl⟩ := eq_of_orFail h
      exact .numeric d
  | bool =>
      cases h
      exact .truth _
  | _ => exact written_text (s := toString n.toInt) hv h

theorem written_float {x : Binary64} (hv : NoText v t) (h : Encode.float x t = .ok raw) :
    Written v t raw := by
  cases t with
  | float4 =>
      cases h
      exact .single _
  | float8 =>
      cases h
      exact .double _
  | numeric =>
      obtain ⟨d, -, rfl⟩ := eq_of_orFail h
      exact .numeric d
  | _ => exact written_text (s := x.toText) hv h

theorem written_bool {b : Bool} (hv : NoText v t) (h : Encode.bool b t = .ok raw) :
    Written v t raw := by
  cases t with
  | bool =>
      cases h
      exact .truth b
  | _ => exact written_text (s := if b then "true" else "false") hv h

theorem written_document {j : Json} (hv : NoText v t)
    (hj : v = .json j ∨ ∃ s, v = .text s ∧ Json.ofText? s = some j)
    (h : Encode.document j t = .ok raw) : Written v t raw := by
  cases t with
  | json =>
      cases h
      exact .json hj
  | jsonb =>
      cases h
      exact .jsonb hj
  | _ => exact written_text (s := j.toText) hv h

theorem written_spelledInt (ht : t.textForm? = none) (h : Encode.spelledInt s t = .ok raw) :
    Written v t raw := by
  unfold Encode.spelledInt at h
  split at h
  · exact written_int (noText_of_none ht) h
  · cases h

theorem written_spelledFloat (ht : t.textForm? = none) (h : Encode.spelledFloat s t = .ok raw) :
    Written v t raw := by
  unfold Encode.spelledFloat at h
  split at h
  · exact written_float (noText_of_none ht) h
  · cases h

theorem written_spelledDocument (ht : t.textForm? = none)
    (h : Encode.spelledDocument s t = .ok raw) : Written (.text s) t raw := by
  unfold Encode.spelledDocument at h
  split at h
  · next j hj =>
    exact written_document (noText_of_none ht) (.inr ⟨s, rfl, hj⟩) h
  · cases h

theorem written_spelledTruth (h : Encode.spelledTruth s = .ok raw) : Written v .bool raw := by
  unfold Encode.spelledTruth at h
  dsimp only at h
  split at h
  · cases h
    exact .truth true
  · split at h
    · cases h
      exact .truth false
    · cases h

/-- A text is written as whatever the type holds. -/
theorem written_spelled (ht : t.isWriteOnly = false) (h : Encode.spelled s t = .ok raw) :
    Written (.text s) t raw := by
  have htext : ∀ {t : ColumnType}, Encode.text t s = .ok raw → Written (.text s) t raw :=
    fun h => .text h fun _ hs => (Value.text.inj hs).symm
  cases t with
  | int2 => exact written_spelledInt (s := s) rfl h
  | int4 => exact written_spelledInt (s := s) rfl h
  | int8 => exact written_spelledInt (s := s) rfl h
  | oid => exact written_spelledInt (s := s) rfl h
  | float4 => exact written_spelledFloat (s := s) rfl h
  | float8 => exact written_spelledFloat (s := s) rfl h
  | numeric =>
      change Encode.orFail .invalidDecimal Numeric.encode (Decimal.ofText? (Text.trim s)) = .ok raw
        at h
      obtain ⟨d, -, rfl⟩ := eq_of_orFail h
      exact .numeric d
  | bool => exact written_spelledTruth h
  | json => exact written_spelledDocument (s := s) rfl h
  | jsonb => exact written_spelledDocument (s := s) rfl h
  | uuid =>
      change Encode.orFail .invalidUuid Uuid.bytes (Uuid.ofText? (Text.trim s)) = .ok raw at h
      obtain ⟨u, -, rfl⟩ := eq_of_orFail h
      exact .uuid u
  | date =>
      change Encode.orFail .invalidDateTime (fun d => Bytes.ofInt 4 d.day)
        (Date.ofText? (Text.trim s)) = .ok raw at h
      obtain ⟨d, -, rfl⟩ := eq_of_orFail h
      exact .date d
  | timestamp =>
      change Encode.orFail .invalidDateTime (fun t => Bytes.ofInt 8 t.toMicros)
        (Timestamp.ofText? (Text.trim s)) = .ok raw at h
      obtain ⟨time, htime, rfl⟩ := eq_of_orFail h
      exact .timestamp rfl htime
  | timestamptz =>
      change Encode.orFail .invalidDateTime (fun t => Bytes.ofInt 8 t.toMicros)
        (Timestamp.ofUniversalText? (Text.trim s)) = .ok raw at h
      obtain ⟨time, htime, rfl⟩ := eq_of_orFail h
      exact .timestamptz htime
  | bytea => exact absurd ht.symm Bool.false_ne_true
  | custom schema typeName kind =>
      cases kind with
      | enumeration =>
          have hform : (ColumnType.textForm? (.custom schema typeName .enumeration)).isSome = true := by
            rw [← Option.not_isNone]
            exact congrArg (!·) ht
          rw [spelled_text hform] at h
          exact htext h
      | simple => exact htext h
      | domain => exact htext h
  | _ => exact htext h

/-- **A value is written in one of the forms.** -/
theorem written_of_encode (ht : t.isWriteOnly = false) (h : encode v t = .ok (some raw)) :
    Written v t raw := by
  have hbytes : ∀ {e : Encoding}, e.map some = .ok (some raw) → e = .ok raw := by
    intro e he
    cases e with
    | error e => cases he
    | ok bytes =>
        cases he
        rfl
  cases v with
  | null => cases h
  | bool b => exact written_bool (fun _ s hs => by cases hs) (hbytes h)
  | int n => exact written_int (fun _ s hs => by cases hs) (hbytes h)
  | float x => exact written_float (fun _ s hs => by cases hs) (hbytes h)
  | text s => exact written_spelled ht (hbytes h)
  | json j => exact written_document (fun _ s hs => by cases hs) (.inl rfl) (hbytes h)

/-! ## What is read -/

/-- A value whose bytes its type refuses: a document nested deeper than a text is read, or a text of
the leap second behind the last timestamp. -/
inductive Unreadable : Value → ColumnType → Prop
  | json {j : Json} (hdepth : Json.maxDepth < j.depth) : Unreadable (.json j) .json
  | jsonb {j : Json} (hdepth : Json.maxDepth < j.depth) : Unreadable (.json j) .jsonb
  | timestamp {s : String} {time : Timestamp}
      (htime : Timestamp.ofText? (Text.trim s) = some time) (hpast : time.IsPastLast) :
      Unreadable (.text s) .timestamp

/-- The types that may refuse what was written to them. -/
def refusing : List ColumnType := [.json, .jsonb, .timestamp]

theorem not_unreadable (ht : t ∉ refusing) : ¬Unreadable v t := by
  intro h
  cases h with
  | json => exact ht (by decide)
  | jsonb => exact ht (by decide)
  | timestamp => exact ht (by decide)

theorem not_refusing_of_integerWidth? {width : Nat} (ht : t.integerWidth? = some width) :
    t ∉ refusing := by
  intro hmem
  simp only [refusing, List.mem_cons, List.not_mem_nil, or_false] at hmem
  rcases hmem with rfl | rfl | rfl
  all_goals cases ht

theorem not_refusing_of_text (h : Encode.text t s = .ok raw) : t ∉ refusing := by
  intro hmem
  simp only [refusing, List.mem_cons, List.not_mem_nil, or_false] at hmem
  rcases hmem with rfl | rfl | rfl
  all_goals cases h

theorem exists_orBadBytes {found : Option Value} :
    (∃ w, orBadBytes found = .ok w) ↔ found.isSome = true := by
  cases found with
  | none =>
      refine iff_of_false ?_ Bool.false_ne_true
      rintro ⟨w, hw⟩
      cases hw
  | some w => exact iff_of_true ⟨w, rfl⟩ rfl

theorem decode_integer {width : Nat} (ht : t.integerWidth? = some width) :
    decode t (some raw)
      = orBadBytes ((Decode.signed? width raw).map fun n => .int (.ofInt n)) := by
  cases t with
  | int2 => cases ht; rfl
  | int4 => cases ht; rfl
  | int8 => cases ht; rfl
  | _ => cases ht

theorem decode_oid (raw : Bytes) : decode .oid (some raw)
    = orBadBytes ((Decode.unsigned? 4 raw).map fun n => .int (.ofInt n)) := rfl

theorem unsigned?_ofNat {width n : Nat} (h : n < Nat.pow 256 width) :
    Decode.unsigned? width (Bytes.ofNat width n) = some n := by
  rw [Decode.unsigned?, Decode.exactly?, if_pos (Bytes.length_ofNat width n), Option.map_some,
    Bytes.toNat_ofNat_of_lt h]

/-- A text is read as what was written for it. -/
theorem decode_of_text (h : Encode.text t s = .ok raw) : decode t (some raw) = .ok (.text s) := by
  obtain ⟨form, hform⟩ := Option.isSome_iff_exists.mp (isSome_textForm?_of_text h)
  rw [Encode.text, hform] at h
  rw [decode_text hform]
  cases form with
  | plain =>
      cases h
      show orBadBytes ((Bytes.toText? (Bytes.ofText s)).map .text) = _
      rw [Bytes.toText?_ofText]
      rfl
  | versioned =>
      cases h
      show orBadBytes ((Bytes.toText? (Bytes.ofText s)).map .text) = _
      rw [Bytes.toText?_ofText]
      rfl

theorem isSome_document? (j : Json) :
    (Decode.document? (Bytes.ofText j.toText)).isSome = true ↔ j.depth ≤ Json.maxDepth := by
  rw [Decode.document?, Bytes.toText?_ofText, Option.bind_some]
  exact Json.isSome_ofText?_toText j

/-- A document is nested too deep only if no text spelled it. -/
theorem depth_le_iff {j : Json} (hj : v = .json j ∨ ∃ s, v = .text s ∧ Json.ofText? s = some j)
    (ht : t = .json ∨ t = .jsonb) : j.depth ≤ Json.maxDepth ↔ ¬Unreadable v t := by
  rcases hj with rfl | ⟨s, rfl, hread⟩
  · constructor
    · intro hle hdeep
      cases hdeep with
      | json hdepth => omega
      | jsonb hdepth => omega
    · intro hread
      by_contra hdepth
      rcases ht with rfl | rfl
      · exact hread (.json (by omega))
      · exact hread (.jsonb (by omega))
  · refine iff_of_true (Json.depth_le_of_ofText? hread) ?_
    intro h
    cases h with
    | timestamp => rcases ht with ht | ht <;> cases ht

/-- What is written in one of the forms is read, if its type refuses none. -/
theorem exists_decode_of_written (h : Written v t raw) (ht : t ∉ refusing) :
    ∃ w, decode t (some raw) = .ok w := by
  cases h with
  | truth b => exact ⟨.bool b, by cases b <;> rfl⟩
  | signed hwidth hlow hhigh =>
      rw [decode_integer hwidth, signed?_ofInt hlow hhigh]
      exact ⟨_, rfl⟩
  | oid hn =>
      rw [decode_oid, unsigned?_ofNat hn]
      exact ⟨_, rfl⟩
  | single x =>
      show ∃ w, orBadBytes ((Decode.single? (Encode.single x)).map .ofBinary32) = .ok w
      rw [Decode.single?, Encode.single, unsigned?_ofNat (UInt32.toNat_lt x.bits)]
      exact ⟨_, rfl⟩
  | double x =>
      show ∃ w, orBadBytes ((Decode.double? (Encode.double x)).map .float) = .ok w
      rw [Decode.double?, Encode.double, unsigned?_ofNat (UInt64.toNat_lt x.bits)]
      exact ⟨_, rfl⟩
  | numeric d =>
      obtain ⟨e, he⟩ := Numeric.exists_decode?_encode d
      show ∃ w, orBadBytes ((Numeric.decode? (Numeric.encode d)).map .ofDecimal) = .ok w
      rw [he]
      exact ⟨_, rfl⟩
  | json => exact absurd (by decide) ht
  | jsonb => exact absurd (by decide) ht
  | uuid u =>
      show ∃ w, orBadBytes ((Uuid.ofBytes? u.bytes).map .ofUuid) = .ok w
      rw [Uuid.ofBytes?, dif_pos u.length_eq]
      exact ⟨_, rfl⟩
  | date d =>
      have hfirst := d.firstDay_le
      have hlast := d.le_lastDay
      have hpow : Nat.pow 256 4 = 4294967296 := by decide
      rw [firstDay_eq] at hfirst
      rw [lastDay_eq] at hlast
      rw [decode_date, signed?_ofInt (by rw [hpow]; omega) (by rw [hpow]; omega), Option.bind_some,
        Date.ofDay?_day]
      exact ⟨_, rfl⟩
  | timestamp => exact absurd (by decide) ht
  | timestamptz htime =>
      obtain ⟨hday, hlt⟩ := Timestamp.of_ofUniversalText? htime
      obtain ⟨hlow, hhigh⟩ := Timestamp.toMicros_bounds hday
      rw [decode_timestamptz, signed?_ofInt hlow hhigh, Option.bind_some, exists_orBadBytes,
        Option.isSome_map, Timestamp.isSome_ofMicros?_toMicros hday]
      exact fun hpast => absurd hpast.day_eq (Int.ne_of_lt hlt)
  | text hraw => exact ⟨_, decode_of_text hraw⟩

/-- What is written in one of the forms is read, unless the value is one that its type refuses. -/
theorem decode_of_written (h : Written v t raw) :
    (∃ w, decode t (some raw) = .ok w) ↔ ¬Unreadable v t := by
  have hother : t ∉ refusing → ((∃ w, decode t (some raw) = .ok w) ↔ ¬Unreadable v t) :=
    fun ht => iff_of_true (exists_decode_of_written h ht) (not_unreadable ht)
  cases h with
  | json hj =>
      apply exists_orBadBytes.trans
      rw [Option.isSome_map, isSome_document?]
      exact depth_le_iff hj (.inl rfl)
  | jsonb hj =>
      apply exists_orBadBytes.trans
      rw [Option.isSome_map]
      exact (isSome_document? _).trans (depth_le_iff hj (.inr rfl))
  | timestamp hs htime =>
      have hday := Timestamp.inDay_of_ofText? htime
      obtain ⟨hlow, hhigh⟩ := Timestamp.toMicros_bounds hday
      subst hs
      rw [decode_timestamp, signed?_ofInt hlow hhigh, Option.bind_some, exists_orBadBytes,
        Option.isSome_map, Timestamp.isSome_ofMicros?_toMicros hday]
      refine not_congr ⟨.timestamp htime, fun h => ?_⟩
      cases h with
      | timestamp hread hpast =>
          cases htime.symm.trans hread
          exact hpast
  | signed hwidth => exact hother (not_refusing_of_integerWidth? hwidth)
  | text hraw => exact hother (not_refusing_of_text hraw)
  | _ => exact hother (by decide)

/-- **What is written to a parameter is read as a cell of its type**, unless it is a value that its
type refuses, and a text that is not read as something else is read as it was. -/
theorem written_parameter_read_back (ht : t.isWriteOnly = false)
    (h : encode v t = .ok (some raw)) :
    ((∃ w, decode t (some raw) = .ok w) ↔ ¬Unreadable v t) ∧
    (∀ s, v = .text s → t ∉ ColumnType.parsed → decode t (some raw) = .ok v) := by
  have hwritten := written_of_encode ht h
  refine ⟨decode_of_written hwritten, ?_⟩
  rintro s rfl hparsed
  cases hwritten with
  | signed hwidth =>
      refine absurd ?_ hparsed
      cases t with
      | int2 => decide
      | int4 => decide
      | int8 => decide
      | _ => cases hwidth
  | text hraw hs =>
      rw [hs s rfl]
      exact decode_of_text hraw
  | _ => exact absurd (by decide) hparsed

/-- The type of paths of labels, which travel behind a version. -/
def ltree : ColumnType := .custom "public" "ltree" .simple

theorem path_read_back :
    encode (.text "a.b") ltree = .ok (some [1, 97, 46, 98]) ∧
      ((∃ w, decode ltree (some [1, 97, 46, 98]) = .ok w) ↔ ¬Unreadable (.text "a.b") ltree) ∧
      decode ltree (some [1, 97, 46, 98]) = .ok (.text "a.b") := by
  have hencode : encode (.text "a.b") ltree = .ok (some [1, 97, 46, 98]) := by decide +kernel
  have hback := written_parameter_read_back (t := ltree) rfl hencode
  exact ⟨hencode, hback.1, hback.2 "a.b" rfl (by decide)⟩

/-- An empty array in some number of arrays. -/
def nested : Nat → Json
  | 0 => .array []
  | n + 1 => .array [nested n]

theorem depth_nested (n : Nat) : (nested n).depth = n + 1 := by
  induction n with
  | zero => rfl
  | succ n ih =>
      rw [nested, Json.depth, Json.itemsDepth, Json.itemsDepth, ih, Nat.max_zero]

/-- A type of labels. -/
def mood : ColumnType := .custom "public" "mood" .enumeration

/-- The text of the leap second behind the last timestamp. -/
def lastLeapSecond : String := "+262142-12-31T23:59:60"

/-- Bytes and labels are written and not read, nor are a document of 128 arrays in each other and the
leap second behind the last timestamp. -/
theorem written_and_not_read :
    (encode (.text "raw") .bytea = .ok (some [114, 97, 119]) ∧
      decode .bytea (some [114, 97, 119]) = .error (.unsupportedType .bytea)) ∧
    (encode (.text "happy") mood = .ok (some [104, 97, 112, 112, 121]) ∧
      decode mood (some [104, 97, 112, 112, 121]) = .error (.unsupportedType mood)) ∧
    (encode (.json (nested 127)) .json = .ok (some (Bytes.ofText (nested 127).toText)) ∧
      ¬∃ w, decode .json (some (Bytes.ofText (nested 127).toText)) = .ok w) ∧
    (encode (.text lastLeapSecond) .timestamp = .ok (some [113, 237, 93, 56, 67, 154, 0, 0]) ∧
      ¬∃ w, decode .timestamp (some [113, 237, 93, 56, 67, 154, 0, 0]) = .ok w) := by
  refine ⟨⟨by decide +kernel, rfl⟩, ⟨by decide +kernel, decode_of_isWriteOnly rfl _⟩, ⟨rfl, ?_⟩,
    by decide +kernel, ?_⟩
  · rw [decode_of_written (v := .json (nested 127)) (.json (.inl rfl)), not_not]
    refine .json ?_
    rw [depth_nested]
    decide
  · rw [decode_timestamp, exists_orBadBytes]
    decide +kernel

end SqlBuilder.Wire
