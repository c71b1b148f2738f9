import SqlBuilder.Proofs.Wire.Cells

/-!
# Instants written back

An instant is read from its microseconds into the internet form of timestamps, with a sign before a
year that has not four digits, and that form is written by a reader that takes no sign.  So an
instant is written back exactly in the years from 0 to 9999; a timestamp without an offset, which
takes the same way through text, is written back in every year.
-/

namespace SqlBuilder.Wire

open Calendar

theorem encode_ofInstant {t : Timestamp} (ht : t.InDay) : encode (.ofInstant t) .timestamptz
    = if t.FourDigitYear then .ok (some (.ofInt 8 t.toMicros)) else .error .invalidDateTime := by
  show (Encode.spelled t.toUniversalText .timestamptz).map some = _
  rw [spelled_timestamptz ht]
  split <;> rfl

/-- What an instant's bytes are read as. -/
theorem exists_ofInstant_of_decode {raw : Bytes} {v : Value}
    (h : decode .timestamptz (some raw) = .ok v) :
    ∃ t : Timestamp, v = .ofInstant t ∧ t.InDay ∧ Bytes.ofInt 8 t.toMicros = raw := by
  rw [decode_timestamptz] at h
  obtain ⟨t, ht, rfl⟩ := Option.map_eq_some_iff.mp (eq_some_of_orBadBytes h)
  obtain ⟨n, hn, hmicros⟩ := Option.bind_eq_some_iff.mp ht
  obtain ⟨hn', hday, -⟩ := Timestamp.ofMicros?_eq_some hmicros
  exact ⟨t, rfl, hday, hn' ▸ (ofInt_of_signed? hn).1⟩

/-- **An instant that was read is written as the bytes it was read from exactly if its year is one
of 0 to 9999, and so is any instant as its microseconds, which fit their bytes.**  In any other year
it is refused. -/
theorem instant_written_iff_fourDigitYear (raw : Bytes) (v : Value) (t : Timestamp) :
    (decode .timestamptz (some raw) = .ok v →
      ∃ read : Timestamp, v = .ofInstant read ∧ read.toMicros = raw.toInt ∧
        encode v .timestamptz
          = if read.FourDigitYear then .ok (some raw) else .error .invalidDateTime) ∧
    (t.InDay → encode (.ofInstant t) .timestamptz
        = (if t.FourDigitYear then .ok (some (.ofInt 8 t.toMicros)) else .error .invalidDateTime) ∧
      (Bytes.ofInt 8 t.toMicros).toInt = t.toMicros) := by
  have hbytes : ∀ t : Timestamp, t.InDay → (Bytes.ofInt 8 t.toMicros).toInt = t.toMicros :=
    fun t ht => Bytes.toInt_ofInt_of_bounds (Timestamp.toMicros_bounds ht).1
      (Timestamp.toMicros_bounds ht).2
  constructor
  · intro h
    obtain ⟨read, rfl, hread, rfl⟩ := exists_ofInstant_of_decode h
    exact ⟨read, rfl, (hbytes read hread).symm, encode_ofInstant hread⟩
  · intro ht
    exact ⟨encode_ofInstant ht, hbytes t ht⟩

/-- Noon of the first leap day of the millennium. -/
def leapNoon : Timestamp :=
  ⟨⟨59, by decide, by decide⟩, 43200, 0⟩

theorem leapNoon_written_back :
    (∃ read : Timestamp, Value.ofInstant leapNoon = .ofInstant read ∧
      read.toMicros = Bytes.toInt [0, 0, 4, 172, 239, 142, 208, 0] ∧
      encode (.ofInstant leapNoon) .timestamptz = if read.FourDigitYear
        then .ok (some [0, 0, 4, 172, 239, 142, 208, 0]) else .error .invalidDateTime) ∧
    encode (.ofInstant leapNoon) .timestamptz
      = .ok (some (.ofInt 8 leapNoon.toMicros)) := by
  have hsigned : Decode.signed? 8 [0, 0, 4, 172, 239, 142, 208, 0] = some 5140800000000 := by
    decide +kernel
  have hmicros : Timestamp.ofMicros? 5140800000000 = some leapNoon := by decide +kernel
  refine ⟨(instant_written_iff_fourDigitYear _ _ leapNoon).1 ?_, ?_⟩
  · rw [decode_timestamptz, hsigned, Option.bind_some, hmicros]
    rfl
  · rw [((instant_written_iff_fourDigitYear [] .null leapNoon).2 ⟨by decide, by decide⟩).1,
      if_pos (by decide +kernel)]

/-- The first second of the year 10000. -/
def firstFiveDigitYear : Timestamp :=
  ⟨⟨2921940, by decide, by decide⟩, 0, 0⟩

/-- The first instant of the year 10000 is read from its bytes, and what was read is refused. -/
theorem firstFiveDigitYear_refused :
    decode .timestamptz (some [3, 128, 231, 11, 145, 59, 128, 0])
        = .ok (.text "+10000-01-01T00:00:00+00:00") ∧
      encode (.text "+10000-01-01T00:00:00+00:00") .timestamptz = .error .invalidDateTime := by
  have htext : firstFiveDigitYear.toUniversalText = "+10000-01-01T00:00:00+00:00" := by
    decide +kernel
  have hday : firstFiveDigitYear.InDay := ⟨by decide, by decide⟩
  have hvalue : Value.ofInstant firstFiveDigitYear = .text "+10000-01-01T00:00:00+00:00" :=
    congrArg Value.text htext
  have hsigned : Decode.signed? 8 [3, 128, 231, 11, 145, 59, 128, 0] = some 252455616000000000 := by
    decide +kernel
  have hmicros : Timestamp.ofMicros? 252455616000000000 = some firstFiveDigitYear := by
    decide +kernel
  constructor
  · rw [← hvalue, decode_timestamptz, hsigned, Option.bind_some, hmicros]
    rfl
  · rw [← hvalue, encode_ofInstant hday, if_neg (by decide +kernel)]

end SqlBuilder.Wire
