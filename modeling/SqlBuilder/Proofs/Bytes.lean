import Mathlib.Tactic.Linarith
import Mathlib.Tactic.Ring
import SqlBuilder.Bytes.Lossy

/-!
# What bytes stand for

Writing and reading undo each other: a number that fits in its bytes is read back from them, and
bytes are those of the number that they stand for.  The same holds of texts in UTF-8, also where
bytes that are no text have one to be shown by, and of hexadecimal digits.
-/

namespace SqlBuilder.Bytes

/-! ## Big-endian integers -/

@[simp]
theorem length_ofNat (width n : Nat) : (ofNat width n).length = width := by
  induction width with
  | zero => rfl
  | succ width ih => simp [ofNat, ih]

@[simp]
theorem length_ofInt (width : Nat) (n : Int) : (ofInt width n).length = width :=
  length_ofNat width _

theorem foldl_eq (bytes : Bytes) (init : Nat) :
    bytes.foldl (fun n b => n * 256 + b.toNat) init
      = init * Nat.pow 256 bytes.length + bytes.toNat := by
  induction bytes generalizing init with
  | nil => simp [toNat]
  | cons b bytes ih =>
      have hb : Bytes.toNat (b :: bytes)
          = b.toNat * Nat.pow 256 bytes.length + Bytes.toNat bytes := by
        rw [toNat, List.foldl_cons, ih]
        simp
      rw [List.foldl_cons, ih, hb, List.length_cons]
      simp only [Nat.pow_eq]
      ring

theorem toNat_cons (b : UInt8) (bytes : Bytes) :
    Bytes.toNat (b :: bytes) = b.toNat * Nat.pow 256 bytes.length + bytes.toNat := by
  have h := foldl_eq bytes b.toNat
  rw [← h, toNat, List.foldl_cons]
  simp

theorem toNat_lt (bytes : Bytes) : bytes.toNat < Nat.pow 256 bytes.length := by
  induction bytes with
  | nil => simp [toNat]
  | cons b bytes ih =>
      have hb : b.toNat + 1 ≤ 256 := b.toNat_lt
      have hdigit := Nat.mul_le_mul_right (256 ^ bytes.length) hb
      rw [toNat_cons, List.length_cons]
      simp only [Nat.pow_eq, pow_succ] at ih ⊢
      linarith

/-- Bytes are determined by their number and how many they are. -/
theorem toNat_inj {a b : Bytes} (hlength : a.length = b.length) (h : a.toNat = b.toNat) :
    a = b := by
  induction a generalizing b with
  | nil => exact (List.length_eq_zero_iff.mp hlength.symm).symm
  | cons x a ih =>
      obtain ⟨y, b, rfl⟩ := List.exists_cons_of_length_eq_add_one hlength.symm
      have hrest : a.length = b.length := Nat.succ.inj hlength
      rw [toNat_cons, toNat_cons, hrest, Nat.mul_comm, Nat.mul_comm y.toNat] at h
      have ha := toNat_lt a
      have hb := toNat_lt b
      rw [hrest] at ha
      -- the first byte is the quotient, the others are the rest
      have hdiv := congrArg (· / Nat.pow 256 b.length) h
      have hmod := congrArg (· % Nat.pow 256 b.length) h
      have hpos : 0 < Nat.pow 256 b.length := Nat.pos_of_ne_zero (by simp)
      simp only [Nat.mul_add_div hpos, Nat.div_eq_of_lt ha, Nat.div_eq_of_lt hb,
        Nat.mul_add_mod, Nat.mod_eq_of_lt ha, Nat.mod_eq_of_lt hb, Nat.add_zero] at hdiv hmod
      rw [UInt8.toNat_inj.mp hdiv, ih hrest hmod]

/-- Of a number that does not fit, the last digits in base 256 are kept. -/
theorem toNat_ofNat (width n : Nat) : (ofNat width n).toNat = n % Nat.pow 256 width := by
  induction width with
  | zero => simp [ofNat, toNat, Nat.mod_one]
  | succ width ih =>
      have hdigit : (UInt8.ofNat (n / Nat.pow 256 width)).toNat = n / Nat.pow 256 width % 256 := by
        simp
      rw [ofNat, toNat_cons, ih, length_ofNat, hdigit]
      simp only [Nat.pow_eq, pow_succ]
      rw [Nat.mod_mul]
      ring

theorem toNat_ofNat_of_lt {width n : Nat} (h : n < Nat.pow 256 width) :
    (ofNat width n).toNat = n := by
  rw [toNat_ofNat, Nat.mod_eq_of_lt h]

theorem ofNat_toNat (bytes : Bytes) : ofNat bytes.length bytes.toNat = bytes :=
  toNat_inj (length_ofNat _ _) (toNat_ofNat_of_lt (toNat_lt bytes))

/-- Two's complement keeps the rest by the number of byte strings, with a sign. -/
theorem toInt_ofInt (width : Nat) (n : Int) :
    (ofInt width n).toInt = n.bmod (Nat.pow 256 width) := by
  have hpos : (0 : Int) < (Nat.pow 256 width : Nat) := by
    have : 0 < Nat.pow 256 width := Nat.pos_of_ne_zero (by simp)
    omega
  have hnonneg := Int.emod_nonneg n (Int.ne_of_gt hpos)
  have hlt := Int.emod_lt_of_pos n hpos
  rw [toInt, length_ofInt, ofInt, toNat_ofNat_of_lt (by omega), Int.toNat_of_nonneg hnonneg,
    Int.emod_bmod]

theorem toInt_ofInt_of_bounds {width : Nat} {n : Int} (hlow : -(Nat.pow 256 width : Int) ≤ 2 * n)
    (hhigh : 2 * n < Nat.pow 256 width) : (ofInt width n).toInt = n := by
  rw [toInt_ofInt, Int.bmod_eq_of_le_mul_two]
  · omega
  · omega

example : ofInt 2 (-2) = [255, 254] ∧ toInt [255, 254] = -2 := by decide

theorem ofInt_toInt (bytes : Bytes) : ofInt bytes.length bytes.toInt = bytes := by
  have hlt := toNat_lt bytes
  have hrest : bytes.toInt % (Nat.pow 256 bytes.length : Nat) = (bytes.toNat : Int) := by
    rw [toInt, Int.bmod_emod]
    exact Int.emod_eq_of_lt (Int.natCast_nonneg _) (Int.ofNat_lt.mpr hlt)
  rw [ofInt, hrest, Int.toNat_natCast, ofNat_toNat]

/-! ## UTF-8 -/

theorem toText?_ofText (s : String) : toText? (ofText s) = some s := by
  have hdata : (⟨(ofText s).toArray⟩ : ByteArray) = s.toByteArray := by
    rw [ofText, Array.toArray_toList]
    rfl
  rw [toText?, hdata, String.fromUTF8?, dif_pos s.isValidUTF8]
  rfl

theorem ofText_of_toText? {bytes : Bytes} {s : String} (h : bytes.toText? = some s) :
    ofText s = bytes := by
  unfold toText? String.fromUTF8? at h
  split at h
  · cases h
    rfl
  · exact nomatch h

/-! ## Text of any bytes -/

theorem ofText_eq_flatMap (s : String) : ofText s = s.toList.flatMap String.utf8EncodeChar := by
  show s.toByteArray.data.toList = _
  rw [← String.utf8Encode_toList, List.utf8Encode, List.data_toByteArray]

theorem opening_two : ∀ k < 32, 2 ≤ k → opening (.ofNat (k + 192))
    = ([], some ⟨1, k, 0x80, 0xBF⟩) := by
  decide

theorem opening_three : ∀ k < 16, opening (.ofNat (k + 224))
    = ([], some ⟨2, k, if k = 0 then 0xA0 else 0x80, if k = 13 then 0x9F else 0xBF⟩) := by
  decide

theorem opening_four : ∀ k < 5, opening (.ofNat (k + 240))
    = ([], some ⟨3, k, if k = 0 then 0x90 else 0x80, if k = 4 then 0x8F else 0xBF⟩) := by
  decide

/-- A byte inside a character adds six bits to it. -/
theorem lossyFrom_inside {missing value low high k : Nat} (hk : k < 64) (hlow : low ≤ k + 128)
    (hhigh : k + 128 ≤ high) (rest : Bytes) :
    lossyFrom (some ⟨missing, value, low, high⟩) (.ofNat (k + 128) :: rest)
      = if missing = 1 then Char.ofNat (value * 64 + k) :: lossyFrom none rest
        else lossyFrom (some ⟨missing - 1, value * 64 + k, 0x80, 0xBF⟩) rest := by
  have hbyte : (UInt8.ofNat (k + 128)).toNat = k + 128 := by
    rw [UInt8.toNat_ofNat']
    omega
  rw [lossyFrom, hbyte, if_pos ⟨hlow, hhigh⟩]
  simp only [Nat.add_sub_cancel_right]

/-- The last byte of a character completes it. -/
theorem lossyFrom_last {value low high k : Nat} (hk : k < 64) (hlow : low ≤ k + 128)
    (hhigh : k + 128 ≤ high) (rest : Bytes) :
    lossyFrom (some ⟨1, value, low, high⟩) (.ofNat (k + 128) :: rest)
      = Char.ofNat (value * 64 + k) :: lossyFrom none rest := by
  rw [lossyFrom_inside hk hlow hhigh, if_pos rfl]

theorem lossyFrom_more {missing value low high k : Nat} (hk : k < 64) (hlow : low ≤ k + 128)
    (hhigh : k + 128 ≤ high) (rest : Bytes) :
    lossyFrom (some ⟨missing + 2, value, low, high⟩) (.ofNat (k + 128) :: rest)
      = lossyFrom (some ⟨missing + 1, value * 64 + k, 0x80, 0xBF⟩) rest := by
  rw [lossyFrom_inside hk hlow hhigh, if_neg (by omega)]
  rfl

/-- The bytes of a character are shown as the character. -/
theorem lossyFrom_utf8EncodeChar (c : Char) (rest : Bytes) :
    lossyFrom none (String.utf8EncodeChar c ++ rest) = c :: lossyFrom none rest := by
  have hvalid : c.val.toNat < 0xD800 ∨ (0xDFFF < c.val.toNat ∧ c.val.toNat < 0x110000) := c.valid
  have hback : Char.ofNat c.val.toNat = c := Char.ofNat_toNat c
  rw [String.utf8EncodeChar]
  generalize c.val.toNat = n at hvalid hback
  -- one byte, two, three or four
  split
  · next h =>
    have hbyte : (UInt8.ofNat n).toNat = n := by
      rw [UInt8.toNat_ofNat']
      omega
    have hopening : opening (.ofNat n) = ([c], none) := by
      rw [opening, hbyte, if_pos (by omega), hback]
    show lossyFrom none (_ :: rest) = _
    rw [lossyFrom, hopening]
    rfl
  split
  · next h =>
    have hsum : n / 64 % 32 * 64 + n % 64 = n := by omega
    show lossyFrom none (_ :: _ :: rest) = _
    rw [lossyFrom, opening_two _ (by omega) (by omega), List.nil_append,
      lossyFrom_last (by omega) (by omega) (by omega), hsum, hback]
  split
  · next h =>
    have hsum : (n / 4096 % 16 * 64 + n / 64 % 64) * 64 + n % 64 = n := by omega
    show lossyFrom none (_ :: _ :: _ :: rest) = _
    rw [lossyFrom, opening_three _ (by omega), List.nil_append,
      lossyFrom_more (by omega) (by split <;> omega) (by split <;> omega),
      lossyFrom_last (by omega) (by omega) (by omega), hsum, hback]
  · next h =>
    have hsum : ((n / 262144 % 8 * 64 + n / 4096 % 64) * 64 + n / 64 % 64) * 64 + n % 64 = n := by
      omega
    show lossyFrom none (_ :: _ :: _ :: _ :: rest) = _
    rw [lossyFrom, opening_four _ (by omega), List.nil_append,
      lossyFrom_more (by omega) (by split <;> omega) (by split <;> omega),
      lossyFrom_more (by omega) (by omega) (by omega),
      lossyFrom_last (by omega) (by omega) (by omega), hsum, hback]

theorem lossyFrom_flatMap (cs : List Char) :
    lossyFrom none (cs.flatMap String.utf8EncodeChar) = cs := by
  induction cs with
  | nil => rfl
  | cons c cs ih => rw [List.flatMap_cons, lossyFrom_utf8EncodeChar, ih]

/-- **The bytes of a text are shown as the text.** -/
theorem toTextLossy_ofText (s : String) : toTextLossy (ofText s) = s := by
  rw [toTextLossy, ofText_eq_flatMap, lossyFrom_flatMap, String.ofList_toList]

example : toTextLossy (ofText "aé😀") = "aé😀" := by decide +kernel

/-! ## Hexadecimal -/

theorem hexValue?_hexDigit : ∀ n < 16, hexValue? (hexDigit n) = some n := by
  decide

theorem ofHexDigits?_toHexDigits (bytes : Bytes) : ofHexDigits? bytes.toHexDigits = some bytes := by
  induction bytes with
  | nil => rfl
  | cons b bytes ih =>
      have hb := b.toNat_lt
      have hcons : toHexDigits (b :: bytes)
          = hexDigit (b.toNat / 16) :: hexDigit (b.toNat % 16) :: toHexDigits bytes := rfl
      have hbyte : b.toNat / 16 * 16 + b.toNat % 16 = b.toNat := by omega
      rw [hcons, ofHexDigits?, hexValue?_hexDigit _ (by omega), hexValue?_hexDigit _ (by omega), ih]
      show some (UInt8.ofNat (b.toNat / 16 * 16 + b.toNat % 16) :: bytes) = _
      rw [hbyte, UInt8.ofNat_toNat]

end SqlBuilder.Bytes
