import SqlBuilder.Proofs.Bytes
import SqlBuilder.Proofs.Text.Blank
import SqlBuilder.Uuid

/-!
# Identifiers read back

The spelling in groups is read as the identifier that it spells, and no other of the four spellings
is taken for it.
-/

namespace SqlBuilder.Uuid

open Text

/-! ## Hexadecimal digits -/

/-- A lower-case hexadecimal digit. -/
def IsHexDigit (c : Char) : Prop :=
  ∃ n < 16, Bytes.hexDigit n = c

theorem isHexDigit_of_mem {bytes : Bytes} {c : Char} (h : c ∈ bytes.toHexDigits) :
    IsHexDigit c := by
  obtain ⟨b, -, hc⟩ := List.mem_flatMap.mp h
  have hb : b.toNat < 256 := b.toNat_lt
  simp only [List.mem_cons, List.not_mem_nil, or_false] at hc
  rcases hc with hc | hc
  · exact ⟨b.toNat / 16, by omega, hc.symm⟩
  · exact ⟨b.toNat % 16, by omega, hc.symm⟩

/-- A hexadecimal digit begins no other spelling and is no blank. -/
theorem IsHexDigit.spec {c : Char} (h : IsHexDigit c) :
    c ≠ '\x7b' ∧ c.toLower ≠ 'u' ∧ isBlank c = false := by
  have hall : ∀ n < 16, Bytes.hexDigit n ≠ '\x7b' ∧ (Bytes.hexDigit n).toLower ≠ 'u' ∧
      isBlank (Bytes.hexDigit n) = false := by
    decide +kernel
  obtain ⟨n, hn, rfl⟩ := h
  exact hall n hn

theorem length_toHexDigits (bytes : Bytes) : bytes.toHexDigits.length = 2 * bytes.length := by
  induction bytes with
  | nil => rfl
  | cons b bytes ih =>
      rw [Bytes.toHexDigits, List.flatMap_cons, List.length_append]
      rw [Bytes.toHexDigits] at ih
      rw [ih, List.length_cons]
      simp only [List.length_cons, List.length_nil]
      omega

/-! ## Groups -/

variable {ns : List Nat} {cs : List Char}

theorem dehyphenate?_hyphenate (h : ns.sum ≤ cs.length) :
    dehyphenate? ns (hyphenate ns cs) = some cs := by
  induction ns generalizing cs with
  | nil => rfl
  | cons n ns ih =>
      rw [List.sum_cons] at h
      have htake : (cs.take n).length = n := by
        rw [List.length_take]
        omega
      have hrest : ns.sum ≤ (cs.drop n).length := by
        rw [List.length_drop]
        omega
      rw [hyphenate, dehyphenate?, List.drop_left' htake, List.take_left' htake]
      show (dehyphenate? ns (hyphenate ns (cs.drop n))).map (cs.take n ++ ·) = some cs
      rw [ih hrest, Option.map_some, List.take_append_drop]

theorem length_hyphenate : (hyphenate ns cs).length = cs.length + ns.length := by
  induction ns generalizing cs with
  | nil => rfl
  | cons n ns ih =>
      rw [hyphenate, List.length_append, List.length_cons, ih, List.length_take, List.length_drop,
        List.length_cons]
      omega

theorem mem_of_mem_hyphenate {c : Char} (h : c ∈ hyphenate ns cs) : c ∈ cs ∨ c = '-' := by
  induction ns generalizing cs with
  | nil => exact .inl h
  | cons n ns ih =>
      rcases List.mem_append.mp h with h | h
      · exact .inl (List.mem_of_mem_take h)
      · rcases List.mem_cons.mp h with h | h
        · exact .inr h
        · exact (ih h).imp_left List.mem_of_mem_drop

/-! ## The spelling in groups -/

variable (u : Uuid)

theorem length_hexDigits : u.bytes.toHexDigits.length = 32 := by
  rw [length_toHexDigits, u.length_eq]

theorem ofGroups?_hyphenate :
    ofGroups? (hyphenate groupLengths u.bytes.toHexDigits) = some u := by
  have hgroups : groupLengths.sum ≤ u.bytes.toHexDigits.length := by
    rw [length_hexDigits]
    decide
  rw [ofGroups?, dehyphenate?_hyphenate hgroups, Option.bind_some, ofDigits?,
    Bytes.ofHexDigits?_toHexDigits, Option.bind_some, ofBytes?, dif_pos u.length_eq]

theorem exists_cons_hyphenate : ∃ c rest,
    hyphenate groupLengths u.bytes.toHexDigits = c :: rest ∧ IsHexDigit c := by
  obtain ⟨c, cs, hcs⟩ := List.exists_cons_of_length_eq_add_one (length_hexDigits u)
  exact ⟨c, _, by rw [hcs]; rfl, isHexDigit_of_mem (hcs ▸ List.mem_cons_self)⟩

/-- The spelling of an identifier is read as that identifier. -/
theorem ofText?_toText : ofText? u.toText = some u := by
  obtain ⟨c, rest, hcons, hc⟩ := exists_cons_hyphenate u
  obtain ⟨hbrace, hmark, -⟩ := hc.spec
  have hlength : (c :: rest).length ≠ 32 := by
    rw [← hcons, length_hyphenate, length_hexDigits]
    decide
  have hname : ((c :: rest).take 9).map Char.toLower ≠ resourceMark := by
    intro h
    rw [List.take_succ_cons, List.map_cons] at h
    exact hmark (List.cons.inj h).1
  rw [ofText?, toText, String.toList_ofList, hcons]
  split
  · next heq => exact absurd (List.cons.inj heq).1 hbrace
  · rw [if_neg hname, if_neg hlength, ← hcons, ofGroups?_hyphenate]

theorem trim_toText : trim u.toText = u.toText := by
  have hblank : ∀ c ∈ u.toText.toList, isBlank c = false := by
    intro c hc
    rw [toText, String.toList_ofList] at hc
    rcases mem_of_mem_hyphenate hc with hc | rfl
    · exact (isHexDigit_of_mem hc).spec.2.2
    · decide
  apply trim_eq_self
  · exact fun c hc => hblank c (List.mem_of_mem_head? hc)
  · exact fun c hc => hblank c (List.mem_reverse.mp (List.mem_of_mem_head? hc))

end SqlBuilder.Uuid
