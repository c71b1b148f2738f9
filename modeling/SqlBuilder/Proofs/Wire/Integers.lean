import SqlBuilder.Proofs.Number.Integer
import SqlBuilder.Proofs.Wire.Parameters

/-!
# Integer parameters

There are four types of integers, and one rule for what is written to them: a value has an integer,
its own or the one that its text spells, and that integer is written if the type holds it, in the
type's bytes, and refused otherwise.  Written and read are the same integer, so a number and a text
that spells it are as good as each other.
-/

namespace SqlBuilder.Wire

open Number

/-! ## Bytes of an integer -/

/-- The bytes are the last digits of the integer in base 256, most significant first.  Those of a
negative integer are the ones that two's complement gives it, since division rounds down. -/
structure BigEndian (width : Nat) (n : Int) (raw : Bytes) : Prop where
  length_eq : raw.length = width
  byte_eq (i : Nat) (hi : i < raw.length) :
    (raw[i].toNat : Int) = n / 256 ^ (width - 1 - i) % 256

theorem BigEndian.unique {width : Nat} {n : Int} {a b : Bytes} (ha : BigEndian width n a)
    (hb : BigEndian width n b) : a = b := by
  have hlength : a.length = b.length := by rw [ha.length_eq, hb.length_eq]
  refine List.ext_getElem hlength fun i hi hi' => ?_
  have hbyte : (a[i].toNat : Int) = b[i].toNat := by rw [ha.byte_eq i hi, hb.byte_eq i hi']
  exact UInt8.toNat_inj.mp (Int.ofNat.inj hbyte)

theorem toNat_getElem_ofNat {width n i : Nat} (hi : i < (Bytes.ofNat width n).length) :
    (Bytes.ofNat width n)[i].toNat = n / 256 ^ (width - 1 - i) % 256 := by
  induction width generalizing i with
  | zero => exact absurd hi (by simp)
  | succ width ih =>
      cases i with
      | zero =>
          show (UInt8.ofNat (n / Nat.pow 256 width)).toNat = _
          simp
      | succ i =>
          have hi' : i < (Bytes.ofNat width n).length := Nat.lt_of_succ_lt_succ hi
          have hexp : width + 1 - 1 - (i + 1) = width - 1 - i := by omega
          show (Bytes.ofNat width n)[i].toNat = _
          rw [ih hi', hexp]

/-- Digits above the last `width` ones do not reach the bytes. -/
theorem digit_emod (n : Int) {width k : Nat} (hk : k < width) :
    n % 256 ^ width / 256 ^ k % 256 = n / 256 ^ k % 256 := by
  have hsplit : (256 : Int) ^ width = 256 ^ k * (256 * 256 ^ (width - 1 - k)) := by
    rw [← pow_succ', ← pow_add]
    congr 1
    omega
  have hpos : (256 : Int) ^ k ≠ 0 := by positivity
  have hn : n = n % 256 ^ width
      + 256 ^ k * (256 * (256 ^ (width - 1 - k) * (n / 256 ^ width))) := by
    rw [← mul_assoc 256, ← mul_assoc (256 ^ k), ← hsplit, Int.emod_add_mul_ediv]
  conv_rhs => rw [hn, Int.add_mul_ediv_left _ _ hpos, Int.add_mul_emod_self_left]

theorem bigEndian_ofInt (width : Nat) (n : Int) : BigEndian width n (.ofInt width n) where
  length_eq := Bytes.length_ofInt width n
  byte_eq := by
    intro i hi
    have hwidth : i < width := by rwa [Bytes.length_ofInt] at hi
    have hpow : ((Nat.pow 256 width : Nat) : Int) = 256 ^ width := by simp
    have hrest : (0 : Int) ≤ n % 256 ^ width := Int.emod_nonneg n (by positivity)
    have hbyte : (Bytes.ofInt width n)[i].toNat
        = (n % (Nat.pow 256 width : Nat)).toNat / 256 ^ (width - 1 - i) % 256 :=
      toNat_getElem_ofNat hi
    rw [hbyte, hpow]
    push_cast
    rw [Int.toNat_of_nonneg hrest, digit_emod n (by omega)]

theorem bigEndian_iff {width : Nat} {n : Int} {raw : Bytes} :
    BigEndian width n raw ↔ raw = .ofInt width n := by
  constructor
  · intro h
    exact h.unique (bigEndian_ofInt width n)
  · rintro rfl
    exact bigEndian_ofInt width n

/-! ## Types of integers -/

/-- How many bytes a type of integers has, and the least and the greatest integer that it holds. -/
structure IntegerForm where
  width : Nat
  least : Int
  greatest : Int
  deriving DecidableEq, Repr

/-- The type holds the integer. -/
def IntegerForm.Holds (form : IntegerForm) (n : Int) : Prop :=
  form.least ≤ n ∧ n ≤ form.greatest

instance (form : IntegerForm) (n : Int) : Decidable (form.Holds n) :=
  inferInstanceAs (Decidable (_ ∧ _))

/-- The types of integers: three with a sign and one without. -/
def ColumnType.integerForm? : ColumnType → Option IntegerForm
  | .int2 => some ⟨2, -32768, 32767⟩
  | .int4 => some ⟨4, -2147483648, 2147483647⟩
  | .int8 => some ⟨8, -9223372036854775808, 9223372036854775807⟩
  | .oid => some ⟨4, 0, 4294967295⟩
  | _ => none

variable {t : ColumnType} {form : IntegerForm} {v : Value} {raw : Bytes}

/-- A type of integers has a sign, and holds what fits its bytes, or it is the one for identifiers
of objects. -/
theorem signed_or_oid (ht : t.integerForm? = some form) :
    (t.integerWidth? = some form.width ∧ 0 < form.width ∧ ∀ n, form.Holds n ↔
      -(Nat.pow 256 form.width : Int) ≤ 2 * n ∧ 2 * n < Nat.pow 256 form.width) ∨
    (t = .oid ∧ form = ⟨4, 0, 4294967295⟩) := by
  have h2 : Nat.pow 256 2 = 65536 := by decide
  have h4 : Nat.pow 256 4 = 4294967296 := by decide
  have h8 : Nat.pow 256 8 = 18446744073709551616 := by decide
  cases t with
  | int2 =>
      cases ht
      refine .inl ⟨rfl, by decide, fun n => ?_⟩
      simp only [IntegerForm.Holds, h2]
      omega
  | int4 =>
      cases ht
      refine .inl ⟨rfl, by decide, fun n => ?_⟩
      simp only [IntegerForm.Holds, h4]
      omega
  | int8 =>
      cases ht
      refine .inl ⟨rfl, by decide, fun n => ?_⟩
      simp only [IntegerForm.Holds, h8]
      omega
  | oid =>
      cases ht
      exact .inr ⟨rfl, rfl⟩
  | _ => cases ht

theorem int_of_integerWidth? {width : Nat} (ht : t.integerWidth? = some width) (n : Int64) :
    Encode.int n t = Encode.signed width n.toInt := by
  cases t with
  | int2 => cases ht; rfl
  | int4 => cases ht; rfl
  | int8 => cases ht; rfl
  | _ => cases ht

/-- An integer without a sign is written in the bytes that two's complement gives it too. -/
theorem ofInt_eq_ofNat {n : Int} (hn : 0 ≤ n) (hlt : n < 4294967296) :
    Bytes.ofInt 4 n = Bytes.ofNat 4 n.toNat := by
  have hpow : ((Nat.pow 256 4 : Nat) : Int) = 4294967296 := by decide
  rw [Bytes.ofInt, hpow, Int.emod_eq_of_lt hn hlt]

/-- **An integer is written if the type holds it.** -/
theorem int_of_form (ht : t.integerForm? = some form) (n : Int64) :
    Encode.int n t = if form.Holds n.toInt then .ok (.ofInt form.width n.toInt)
      else .error .outOfRange := by
  rcases signed_or_oid ht with ⟨hwidth, hpos, hholds⟩ | ⟨rfl, rfl⟩
  · have hfits := (fitsSigned_iff hpos).trans (hholds n.toInt).symm
    rw [int_of_integerWidth? hwidth, Encode.signed]
    by_cases h : form.Holds n.toInt
    · rw [if_pos h, if_pos (hfits.mpr h)]
    · rw [if_neg h, if_neg fun hf => h (hfits.mp hf)]
  · have hpow : ((Nat.pow 2 32 : Nat) : Int) = 4294967296 := by decide
    show (if 0 ≤ n.toInt ∧ n.toInt < (Nat.pow 2 32 : Nat)
      then Except.ok (Bytes.ofNat 4 n.toInt.toNat) else .error EncodeError.outOfRange) = _
    rw [hpow]
    by_cases h : IntegerForm.Holds ⟨4, 0, 4294967295⟩ n.toInt
    · have hlt : n.toInt < 4294967296 := Int.lt_add_one_of_le h.2
      rw [if_pos h, if_pos ⟨h.1, hlt⟩, ofInt_eq_ofNat h.1 hlt]
    · have hnot : ¬(0 ≤ n.toInt ∧ n.toInt < 4294967296) := fun hn =>
        h ⟨hn.1, Int.le_of_lt_add_one hn.2⟩
      rw [if_neg h, if_neg hnot]

/-- **The bytes of an integer are read as the integer.** -/
theorem BigEndian.decode {n : Int64} (h : BigEndian form.width n.toInt raw)
    (ht : t.integerForm? = some form) (hn : form.Holds n.toInt) :
    Wire.decode t (some raw) = .ok (.int n) := by
  obtain rfl := bigEndian_iff.mp h
  rcases signed_or_oid ht with ⟨hwidth, -, hholds⟩ | ⟨rfl, rfl⟩
  · obtain ⟨hlow, hhigh⟩ := (hholds n.toInt).mp hn
    rw [decode_integer hwidth, signed?_ofInt hlow hhigh, Option.map_some, Int64.ofInt_toInt]
    rfl
  · have hlt : n.toInt < 4294967296 := Int.lt_add_one_of_le hn.2
    have hnat : (n.toInt.toNat : Int) = n.toInt := Int.toNat_of_nonneg hn.1
    have hpow : n.toInt.toNat < Nat.pow 256 4 := by
      have h4 : Nat.pow 256 4 = 4294967296 := by decide
      omega
    rw [ofInt_eq_ofNat hn.1 hlt, decode_oid, unsigned?_ofNat hpow]
    show Except.ok (Value.int (.ofInt (n.toInt.toNat : Int))) = _
    rw [hnat, Int64.ofInt_toInt]

/-! ## Values -/

theorem mem_of_integerForm? (ht : t.integerForm? = some form) :
    t ∈ [ColumnType.int2, .int4, .int8, .oid] := by
  cases t with
  | int2 => decide
  | int4 => decide
  | int8 => decide
  | oid => decide
  | _ => cases ht

theorem spelled_of_form (ht : t.integerForm? = some form) (s : String) :
    Encode.spelled s t = Encode.spelledInt s t := by
  cases t with
  | int2 => rfl
  | int4 => rfl
  | int8 => rfl
  | oid => rfl
  | _ => cases ht

/-- A value with an integer is written as the integer. -/
theorem encode_of_asInt? (ht : t.integerForm? = some form) {n : Int64} (hn : v.asInt? = some n) :
    encode v t = (Encode.int n t).map some := by
  cases v with
  | int m =>
      cases hn
      rfl
  | text s =>
      have hread : int64OfText? (Text.trim s) = some n := hn
      rw [encode, spelled_of_form ht, Encode.spelledInt, hread]
  | _ => cases hn

/-- A value without an integer is refused, unless it is nothing at all. -/
theorem refused_of_asInt? (ht : t.integerForm? = some form) (hv : v ≠ .null)
    (hn : v.asInt? = none) : ∃ e, encode v t = .error e := by
  cases v with
  | null => exact absurd rfl hv
  | int m => cases hn
  | text s =>
      have hread : int64OfText? (Text.trim s) = none := hn
      rw [encode, spelled_of_form ht, Encode.spelledInt, hread]
      exact ⟨.invalidInteger, rfl⟩
  | _ =>
      have hmem := mem_of_integerForm? ht
      simp only [List.mem_cons, List.not_mem_nil, or_false] at hmem
      rcases hmem with rfl | rfl | rfl | rfl
      all_goals exact ⟨.wrongType, rfl⟩

/-- A value that is written has an integer, which the type holds and whose bytes they are. -/
theorem encode_eq_ok_iff (ht : t.integerForm? = some form) (hv : v ≠ .null)
    {bytes : Option Bytes} : encode v t = .ok bytes ↔
      ∃ n raw, v.asInt? = some n ∧ form.Holds n.toInt ∧ BigEndian form.width n.toInt raw ∧
        bytes = some raw := by
  cases hn : v.asInt? with
  | none =>
      obtain ⟨e, he⟩ := refused_of_asInt? ht hv hn
      rw [he]
      exact iff_of_false (fun h => nomatch h) (fun ⟨_, _, h, _⟩ => nomatch h)
  | some n =>
      rw [encode_of_asInt? ht hn, int_of_form ht]
      by_cases hholds : form.Holds n.toInt
      · rw [if_pos hholds]
        constructor
        · intro h
          cases h
          exact ⟨n, _, rfl, hholds, bigEndian_ofInt form.width n.toInt, rfl⟩
        · rintro ⟨m, raw, hm, -, hraw, rfl⟩
          cases hm
          rw [bigEndian_iff.mp hraw]
          rfl
      · rw [if_neg hholds]
        refine iff_of_false (fun h => nomatch h) ?_
        rintro ⟨m, -, hm, hm', -⟩
        cases hm
        exact hholds hm'

/-! ## The theorem -/

/-- **One rule for numbers and numeric text.**  A value is written to a type of integers iff it has
an integer that the type holds.  The bytes are those of the integer in the width of the type, and
are read as the integer again.  A text has the integer that it spells, and is written as that
integer is. -/
theorem integer_written_iff_held (ht : t.integerForm? = some form) (hv : v ≠ .null) :
    ((∃ bytes, encode v t = .ok bytes) ↔ ∃ n, v.asInt? = some n ∧ form.Holds n.toInt) ∧
      (∀ bytes, encode v t = .ok bytes → ∃ n raw, v.asInt? = some n ∧ bytes = some raw ∧
        BigEndian form.width n.toInt raw ∧ decode t (some raw) = .ok (.int n)) ∧
      (∀ (s : String) (n : Int64), v = .text s → (v.asInt? = some n ↔ Spells s n.toInt)) ∧
      (∀ (s : String) (n : Int64), Spells s n.toInt →
        encode (.text s) t = encode (.int n) t) := by
  refine ⟨?_, ?_, ?_, ?_⟩
  · constructor
    · rintro ⟨bytes, h⟩
      obtain ⟨n, -, hn, hholds, -⟩ := (encode_eq_ok_iff ht hv).mp h
      exact ⟨n, hn, hholds⟩
    · rintro ⟨n, hn, hholds⟩
      have hraw := bigEndian_ofInt form.width n.toInt
      exact ⟨_, (encode_eq_ok_iff ht hv).mpr ⟨n, _, hn, hholds, hraw, rfl⟩⟩
  · intro bytes h
    obtain ⟨n, raw, hn, hholds, hraw, rfl⟩ := (encode_eq_ok_iff ht hv).mp h
    exact ⟨n, raw, hn, rfl, hraw, hraw.decode ht hholds⟩
  · rintro s n rfl
    exact Value.asInt?_text
  · intro s n h
    have hread : (Value.text s).asInt? = some n := Value.asInt?_text.mpr h
    have hown : (Value.int n).asInt? = some n := rfl
    rw [encode_of_asInt? ht hread, encode_of_asInt? ht hown]

/-- Blanks, the sign and leading zeros make no difference. -/
theorem spelled_minus_seven_written :
    encode (.text " -007\t") .int2 = .ok (some [255, 249]) ∧
      decode .int2 (some [255, 249]) = .ok (.int (-7)) := by
  have hdigits : IsDigits ['0', '0', '7'] := ⟨by decide, List.all_eq_true.mp rfl⟩
  have hparts : " -007\t".toList = [' '] ++ ['-', '0', '0', '7'] ++ ['\t'] := by decide
  have hspells : Spells " -007\t" (-7 : Int64).toInt :=
    .between hparts (List.all_eq_true.mp rfl) (.minus hdigits) (List.all_eq_true.mp rfl)
  have hform : ColumnType.int2.integerForm? = some ⟨2, -32768, 32767⟩ := rfl
  have hvalue : Value.text " -007\t" ≠ .null := fun h => nomatch h
  obtain ⟨-, hbytes, htext, hsame⟩ := integer_written_iff_held hform hvalue
  have hwritten : encode (.text " -007\t") .int2 = .ok (some [255, 249]) := hsame _ (-7) hspells
  refine ⟨hwritten, ?_⟩
  obtain ⟨n, raw, hn, hraw, -, hdecode⟩ := hbytes _ hwritten
  have hseven : (Value.text " -007\t").asInt? = some (-7) := (htext _ (-7) rfl).mpr hspells
  rw [hseven] at hn
  cases hn
  cases hraw
  exact hdecode

end SqlBuilder.Wire
