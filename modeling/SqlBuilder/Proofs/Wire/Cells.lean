import SqlBuilder.Proofs.Bytes
import SqlBuilder.Proofs.Calendar.Reading
import SqlBuilder.Proofs.Uuid
import SqlBuilder.Wire.Decode
import SqlBuilder.Wire.Encode

/-!
# Cells written back

What the cells of truth values, integers, identifiers, dates, timestamps and texts are read as is
written to a parameter of the same type as the bytes that were read; a truth value is written as the
byte 1 or 0, whatever the byte was.
-/

namespace SqlBuilder.Wire

open Number Calendar

variable {raw : Bytes} {v : Value}

/-! ## What a cell was read from -/

theorem bytes_of_exactly? {width : Nat} {bytes : Bytes} (h : Decode.exactly? width raw = some bytes) :
    bytes = raw ∧ raw.length = width := by
  unfold Decode.exactly? at h
  split at h
  · next hlength =>
    cases h
    exact ⟨rfl, hlength⟩
  · exact nomatch h

/-- The bytes of an integer that was read are those of the integer, which fits them. -/
theorem ofInt_of_signed? {width : Nat} {n : Int} (h : Decode.signed? width raw = some n) :
    Bytes.ofInt width n = raw ∧ -(Nat.pow 256 width : Int) ≤ 2 * n ∧ 2 * n < Nat.pow 256 width := by
  obtain ⟨bytes, hbytes, hn⟩ := Option.map_eq_some_iff.mp h
  obtain ⟨rfl, hlength⟩ := bytes_of_exactly? hbytes
  cases hn
  cases hlength
  have hpos : 0 < Nat.pow 256 bytes.length := Nat.pos_of_ne_zero (by simp)
  have hlow := Int.le_bmod (x := bytes.toNat) hpos
  have hhigh := Int.bmod_lt (x := bytes.toNat) hpos
  refine ⟨Bytes.ofInt_toInt bytes, ?_⟩
  unfold Bytes.toInt
  omega

theorem signed?_ofInt {width : Nat} {n : Int} (hlow : -(Nat.pow 256 width : Int) ≤ 2 * n)
    (hhigh : 2 * n < Nat.pow 256 width) : Decode.signed? width (.ofInt width n) = some n := by
  rw [Decode.signed?, Decode.exactly?, if_pos (Bytes.length_ofInt width n), Option.map_some,
    Bytes.toInt_ofInt_of_bounds hlow hhigh]

theorem ofNat_of_unsigned? {width n : Nat} (h : Decode.unsigned? width raw = some n) :
    Bytes.ofNat width n = raw ∧ n < Nat.pow 256 width := by
  obtain ⟨bytes, hbytes, hn⟩ := Option.map_eq_some_iff.mp h
  obtain ⟨rfl, hlength⟩ := bytes_of_exactly? hbytes
  cases hn
  cases hlength
  exact ⟨Bytes.ofNat_toNat bytes, Bytes.toNat_lt bytes⟩

/-- The value that was found in the bytes of a cell. -/
def orBadBytes : Option Value → Except DecodeError Value
  | some v => .ok v
  | none => .error .badBytes

theorem eq_some_of_orBadBytes {found : Option Value} (h : orBadBytes found = .ok v) :
    found = some v := by
  cases found with
  | none => exact nomatch h
  | some w =>
      cases h
      rfl

theorem decode_date (raw : Bytes) : decode .date (some raw)
    = orBadBytes (((Decode.signed? 4 raw).bind Date.ofDay?).map .ofDate) := rfl

theorem decode_timestamp (raw : Bytes) : decode .timestamp (some raw)
    = orBadBytes (((Decode.signed? 8 raw).bind Timestamp.ofMicros?).map .ofTimestamp) := rfl

theorem decode_timestamptz (raw : Bytes) : decode .timestamptz (some raw)
    = orBadBytes (((Decode.signed? 8 raw).bind Timestamp.ofMicros?).map .ofInstant) := rfl

/-! ## Integers -/

/-- The byte strings of a width are as many as the integers that fit it. -/
theorem pow_width {width : Nat} (hwidth : 0 < width) :
    2 * Nat.pow 2 (8 * width - 1) = Nat.pow 256 width := by
  have hbits : 8 * width - 1 + 1 = 8 * width := by omega
  simp only [Nat.pow_eq]
  rw [Nat.mul_comm, ← Nat.pow_succ, Nat.succ_eq_add_one, hbits, Nat.pow_mul]

theorem toInt_ofInt64 {width : Nat} {n : Int} (height : width ≤ 8)
    (hlow : -(Nat.pow 256 width : Int) ≤ 2 * n) (hhigh : 2 * n < Nat.pow 256 width) :
    (Int64.ofInt n).toInt = n := by
  have hpow : Nat.pow 256 width ≤ Nat.pow 256 8 := Nat.pow_le_pow_right (by decide) height
  have heq : Nat.pow 256 8 = 18446744073709551616 := by decide
  rw [heq] at hpow
  apply Int64.toInt_ofInt_of_le
  · show (-9223372036854775808 : Int) ≤ n
    omega
  · show n < (9223372036854775808 : Int)
    omega

theorem fitsSigned_iff {width : Nat} {n : Int} (hwidth : 0 < width) :
    fitsSigned (8 * width) n = true ↔
      -(Nat.pow 256 width : Int) ≤ 2 * n ∧ 2 * n < Nat.pow 256 width := by
  have hpow := pow_width hwidth
  rw [fitsSigned, Bool.and_eq_true, decide_eq_true_eq, decide_eq_true_eq]
  omega

/-- An integer that fits a width is written in that width. -/
theorem signed_of_bounds {width : Nat} {n : Int} (hwidth : 0 < width)
    (hlow : -(Nat.pow 256 width : Int) ≤ 2 * n) (hhigh : 2 * n < Nat.pow 256 width) :
    Encode.signed width n = .ok (.ofInt width n) :=
  if_pos ((fitsSigned_iff hwidth).mpr ⟨hlow, hhigh⟩)

/-- What an integer cell of some width is read as is written as the bytes of the cell. -/
theorem signed_of_signed? {width : Nat} {n : Int} (hwidth : 0 < width) (height : width ≤ 8)
    (h : Decode.signed? width raw = some n) :
    Encode.signed width (Int64.ofInt n).toInt = .ok raw := by
  obtain ⟨hraw, hlow, hhigh⟩ := ofInt_of_signed? h
  rw [toInt_ofInt64 height hlow hhigh, signed_of_bounds hwidth hlow hhigh, hraw]

theorem int_of_oid {n : Nat} (h : Decode.unsigned? 4 raw = some n) :
    Encode.int (.ofInt n) .oid = .ok raw := by
  obtain ⟨hraw, hlt⟩ := ofNat_of_unsigned? h
  have hpow : Nat.pow 256 4 = 4294967296 := by decide
  rw [hpow] at hlt
  have hn : (Int64.ofInt n).toInt = n := by
    apply Int64.toInt_ofInt_of_le
    · show (-9223372036854775808 : Int) ≤ n
      omega
    · show (n : Int) < (9223372036854775808 : Int)
      omega
  show (if 0 ≤ (Int64.ofInt n).toInt ∧ (Int64.ofInt n).toInt < (Nat.pow 2 32 : Nat)
    then Except.ok (Bytes.ofNat 4 (Int64.ofInt n).toInt.toNat) else .error EncodeError.outOfRange) = .ok raw
  rw [hn, if_pos ⟨by omega, by show (n : Int) < 4294967296; omega⟩, Int.toNat_natCast, hraw]

/-! ## Identifiers, dates and timestamps -/

theorem spelled_uuid (u : Uuid) : Encode.spelled u.toText .uuid = .ok u.bytes := by
  show Encode.orFail .invalidUuid Uuid.bytes (Uuid.ofText? (Text.trim u.toText)) = _
  rw [Uuid.trim_toText, Uuid.ofText?_toText]
  rfl

theorem spelled_date (d : Date) : Encode.spelled d.toText .date = .ok (.ofInt 4 d.day) := by
  show Encode.orFail .invalidDateTime (fun d => .ofInt 4 d.day) (Date.ofText? (Text.trim d.toText))
    = _
  rw [Date.trim_toText, Date.ofText?_toText]
  rfl

/-- The text of a timestamp is written as the timestamp's microseconds. -/
theorem spelled_timestamp {t : Timestamp} (ht : t.InDay) :
    Encode.spelled t.toText .timestamp = .ok (.ofInt 8 t.toMicros) := by
  show Encode.orFail .invalidDateTime (fun t => .ofInt 8 t.toMicros)
    (Timestamp.ofText? (Text.trim t.toText)) = _
  rw [Timestamp.trim_toText, Timestamp.ofText?_toText ht, ← Timestamp.toMicros_shown]
  rfl

/-- The internet form of a timestamp is written as its microseconds in a year of four digits, and
refused in any other year. -/
theorem spelled_timestamptz {t : Timestamp} (ht : t.InDay) :
    Encode.spelled t.toUniversalText .timestamptz
      = if t.FourDigitYear then .ok (.ofInt 8 t.toMicros) else .error .invalidDateTime := by
  show Encode.orFail .invalidDateTime (fun t => .ofInt 8 t.toMicros)
    (Timestamp.ofUniversalText? (Text.trim t.toUniversalText)) = _
  rw [Timestamp.trim_toUniversalText, Timestamp.ofUniversalText?_toUniversalText ht]
  split
  · rw [← Timestamp.toMicros_shown]
    rfl
  · rfl

/-! ## Texts -/

/-- A type that holds text writes a text in its form. -/
theorem spelled_text {t : ColumnType} (ht : t.textForm?.isSome = true) (s : String) :
    Encode.spelled s t = Encode.text t s := by
  cases t with
  | custom schema typeName kind =>
      cases kind with
      | enumeration => exact if_pos ht
      | simple => rfl
      | domain => rfl
  | text => rfl
  | varchar => rfl
  | bpchar => rfl
  | name => rfl
  | unknown => rfl
  | _ => exact absurd ht Bool.false_ne_true

theorem decode_text {t : ColumnType} {form : TextForm} (ht : t.textForm? = some form) :
    decode t (some raw) = orBadBytes ((Decode.text? form raw).map .text) := by
  cases t with
  | custom schema typeName kind =>
      simp only [decode, Decode.cell, ht]
      rfl
  | text => cases ht; rfl
  | varchar => cases ht; rfl
  | bpchar => cases ht; rfl
  | name => cases ht; rfl
  | unknown => cases ht; rfl
  | _ => cases ht

/-- The text that bytes hold is written as those bytes. -/
theorem text_of_text? {t : ColumnType} {form : TextForm} {s : String}
    (ht : t.textForm? = some form) (h : Decode.text? form raw = some s) :
    Encode.text t s = .ok raw := by
  cases form with
  | plain =>
      rw [Encode.text, ht]
      exact congrArg _ (Bytes.ofText_of_toText? h)
  | versioned =>
      obtain ⟨rest, hrest, hs⟩ := Option.bind_eq_some_iff.mp h
      have hraw : raw = 1 :: rest := by
        unfold Decode.behindVersion? at hrest
        split at hrest
        · cases hrest
          rfl
        · exact nomatch hrest
      rw [Encode.text, ht, hraw]
      exact congrArg _ (congrArg _ (Bytes.ofText_of_toText? hs))

/-! ## Cells -/

/-- The types whose cells are read into values that the type takes: a truth value, an integer, an
identifier, a date, a timestamp without an offset, or a text. -/
def ColumnType.IsWrittenBack (t : ColumnType) : Prop :=
  t ∈ [.bool, .int2, .int4, .int8, .oid, .uuid, .date, .timestamp] ∨ t.textForm?.isSome = true

/-- What is read of a cell is written as the cell's bytes, unless its type is that of truth
values. -/
theorem encode_of_decode {t : ColumnType} (ht : t.IsWrittenBack) (hbool : t ≠ .bool)
    (h : decode t (some raw) = .ok v) : encode v t = .ok (some raw) := by
  -- a value is written as one of the type if what it stands for is
  have hint : ∀ {n : Int64}, Encode.int n t = .ok raw → encode (.int n) t = .ok (some raw) :=
    fun {n} hn => by rw [encode, hn]; rfl
  have htext : ∀ {s : String}, Encode.spelled s t = .ok raw → encode (.text s) t = .ok (some raw) :=
    fun {s} hs => by rw [encode, hs]; rfl
  rcases ht with ht | ht
  · simp only [List.mem_cons, List.not_mem_nil, or_false] at ht
    rcases ht with rfl | rfl | rfl | rfl | rfl | rfl | rfl | rfl
    · exact absurd rfl hbool
    · obtain ⟨n, hn, rfl⟩ := Option.map_eq_some_iff.mp (eq_some_of_orBadBytes h)
      exact hint (signed_of_signed? (by decide) (by decide) hn)
    · obtain ⟨n, hn, rfl⟩ := Option.map_eq_some_iff.mp (eq_some_of_orBadBytes h)
      exact hint (signed_of_signed? (by decide) (by decide) hn)
    · obtain ⟨n, hn, rfl⟩ := Option.map_eq_some_iff.mp (eq_some_of_orBadBytes h)
      exact hint (signed_of_signed? (by decide) (by decide) hn)
    · obtain ⟨n, hn, rfl⟩ := Option.map_eq_some_iff.mp (eq_some_of_orBadBytes h)
      obtain ⟨m, hm, hn⟩ := Option.bind_eq_some_iff.mp hn
      cases hn
      exact hint (int_of_oid hm)
    · obtain ⟨u, hu, rfl⟩ := Option.map_eq_some_iff.mp (eq_some_of_orBadBytes h)
      unfold Uuid.ofBytes? at hu
      split at hu
      · cases hu
        exact htext (spelled_uuid _)
      · exact nomatch hu
    · obtain ⟨d, hd, rfl⟩ := Option.map_eq_some_iff.mp (eq_some_of_orBadBytes h)
      obtain ⟨n, hn, hday⟩ := Option.bind_eq_some_iff.mp hd
      have hraw := (ofInt_of_signed? hn).1
      rw [← Date.day_of_ofDay? hday] at hraw
      exact htext (hraw ▸ spelled_date d)
    · obtain ⟨time, htime, rfl⟩ := Option.map_eq_some_iff.mp (eq_some_of_orBadBytes h)
      obtain ⟨n, hn, hmicros⟩ := Option.bind_eq_some_iff.mp htime
      obtain ⟨hn', hday, -⟩ := Timestamp.ofMicros?_eq_some hmicros
      have hraw := (ofInt_of_signed? hn).1
      rw [← hn'] at hraw
      exact htext (hraw ▸ spelled_timestamp hday)
  · obtain ⟨form, hform⟩ := Option.isSome_iff_exists.mp ht
    rw [decode_text hform] at h
    obtain ⟨s, hs, rfl⟩ := Option.map_eq_some_iff.mp (eq_some_of_orBadBytes h)
    exact htext ((spelled_text ht s).trans (text_of_text? hform hs))

/-- **What a cell is read as is written to a parameter of its type, and read from there again as
what it was.**  The bytes are those of the cell, unless they are those of a truth value. -/
theorem decoded_cell_written_back {t : ColumnType} (ht : t.IsWrittenBack)
    (h : decode t (some raw) = .ok v) : ∃ raw', encode v t = .ok (some raw') ∧
      decode t (some raw') = .ok v ∧ (t ≠ .bool → raw' = raw) := by
  by_cases hbool : t = .bool
  · subst hbool
    obtain ⟨b, -, rfl⟩ := Option.map_eq_some_iff.mp (eq_some_of_orBadBytes h)
    refine ⟨Encode.truth b, rfl, ?_, fun hne => absurd rfl hne⟩
    cases b <;> rfl
  · exact ⟨raw, encode_of_decode ht hbool h, h, fun _ => rfl⟩

theorem leap_day_cell_written_back : ∃ raw',
    encode (.ofDate ⟨59, by decide, by decide⟩) .date = .ok (some raw') ∧
      decode .date (some raw') = .ok (.ofDate ⟨59, by decide, by decide⟩) ∧
      (ColumnType.date ≠ .bool → raw' = [0, 0, 0, 59]) := by
  have hsigned : Decode.signed? 4 [0, 0, 0, 59] = some 59 := by decide
  refine decoded_cell_written_back (.inl (by decide)) ?_
  rw [decode_date, hsigned, Option.bind_some, Date.ofDay?, dif_pos ⟨by decide, by decide⟩]
  rfl

end SqlBuilder.Wire
