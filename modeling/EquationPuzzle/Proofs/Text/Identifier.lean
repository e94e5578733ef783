import EquationPuzzle.Identifier
import EquationPuzzle.Proofs.Text.Numeral

/-!
# Reading back identifiers

An identifier is written in groups of hexadecimal digits, and read back from them.  Two identifiers
with one text are therefore equal.
-/

namespace EquationPuzzle

namespace Identifier

theorem digits_eq_zeroPadded (identifier : Identifier) :
    identifier.digits =
      Text.zeroPadded 16 (32 - (Nat.toDigits 16 identifier.value.toNat).length)
        identifier.value.toNat := rfl

theorem length_digits (identifier : Identifier) : identifier.digits.length = 32 := by
  have hbound : identifier.value.toNat < 16 ^ 32 := identifier.value.isLt
  have hle := (Nat.length_toDigits_le_iff (b := 16) (by decide) (by decide)).mpr hbound
  simp only [digits, List.length_append, List.length_replicate]
  omega

theorem mem_digits {identifier : Identifier} {c : Char} (hmem : c ∈ identifier.digits) :
    ∃ digit < 16, c = Nat.digitChar digit := by
  rw [digits_eq_zeroPadded] at hmem
  exact Text.mem_zeroPadded (by decide) hmem

theorem hyphen_notMem_digits (identifier : Identifier) : '-' ∉ identifier.digits := by
  intro hmem
  obtain ⟨digit, hdigit, heq⟩ := mem_digits hmem
  have hall : ∀ digit < 16, '-' ≠ Nat.digitChar digit := by decide
  exact hall digit hdigit heq

theorem ofDigits?_digits (identifier : Identifier) :
    ofDigits? identifier.digits = some identifier := by
  rw [ofDigits?, if_pos identifier.length_digits, digits_eq_zeroPadded,
    Text.natural?_zeroPadded (by decide) (by decide)]
  simp

/-! ## Groups -/

theorem flatten_split (lengths : List Nat) (characters : List Char)
    (hlength : characters.length = lengths.sum) :
    (split lengths characters).flatten = characters := by
  induction lengths generalizing characters with
  | nil => simpa [split, eq_comm] using hlength
  | cons length rest ih =>
      have hrest : (characters.drop length).length = rest.sum := by
        simp only [List.length_drop, List.sum_cons] at hlength ⊢
        omega
      simp [split, ih _ hrest]

theorem map_length_split (lengths : List Nat) (characters : List Char)
    (hlength : characters.length = lengths.sum) :
    (split lengths characters).map List.length = lengths := by
  induction lengths generalizing characters with
  | nil => rfl
  | cons length rest ih =>
      have hrest : (characters.drop length).length = rest.sum := by
        simp only [List.length_drop, List.sum_cons] at hlength ⊢
        omega
      have hfirst : (characters.take length).length = length := by
        simp only [List.length_take, List.sum_cons] at hlength ⊢
        omega
      simp [split, ih _ hrest, hfirst]

def parts (identifier : Identifier) : List (List Char) :=
  split groups identifier.digits

theorem flatten_parts (identifier : Identifier) : identifier.parts.flatten = identifier.digits :=
  flatten_split _ _ identifier.length_digits

theorem map_length_parts (identifier : Identifier) :
    identifier.parts.map List.length = groups :=
  map_length_split _ _ identifier.length_digits

theorem mem_digits_of_mem_parts {identifier : Identifier} {part : List Char} {c : Char}
    (hpart : part ∈ identifier.parts) (hmem : c ∈ part) : c ∈ identifier.digits := by
  rw [← flatten_parts]
  exact List.mem_flatten.mpr ⟨part, hpart, hmem⟩

theorem toList_text (identifier : Identifier) :
    identifier.text.toList = ['-'].intercalate identifier.parts := by
  simp [text, parts, Function.comp_def]

/-- The text is the digits with a hyphen behind every group but the last. -/
theorem exists_toList_text (identifier : Identifier) :
    ∃ a b c d e : List Char, identifier.parts = [a, b, c, d, e] ∧ a.length = 8 ∧ b.length = 4 ∧
      c.length = 4 ∧ d.length = 4 ∧ e.length = 12 ∧
      identifier.text.toList = a ++ '-' :: b ++ '-' :: c ++ '-' :: d ++ '-' :: e := by
  have hlength := identifier.length_digits
  refine ⟨_, _, _, _, _, rfl, ?_, ?_, ?_, ?_, ?_, ?_⟩
  · simp [hlength]
  · simp [hlength]
  · simp [hlength]
  · simp [hlength]
  · simp [hlength]
  · rw [toList_text]
    simp [parts, split, groups, List.intercalate, List.intersperse]

theorem length_text (identifier : Identifier) : identifier.text.toList.length = 36 := by
  obtain ⟨a, b, c, d, e, _, ha, hb, hc, hd, he, htext⟩ := identifier.exists_toList_text
  simp [htext, ha, hb, hc, hd, he]

theorem ofGroups?_text (identifier : Identifier) :
    ofGroups? identifier.text.toList = some identifier := by
  have hne : identifier.parts ≠ [] := by
    intro hnil
    have hlengths := identifier.map_length_parts
    rw [hnil] at hlengths
    contradiction
  have hparts : identifier.text.toList.splitOn '-' = identifier.parts := by
    rw [toList_text]
    apply List.splitOn_intercalate _ _ hne
    intro part hpart hmem
    exact identifier.hyphen_notMem_digits (mem_digits_of_mem_parts hpart hmem)
  simp only [ofGroups?, hparts, map_length_parts, if_true, flatten_parts, ofDigits?_digits]

theorem exists_head_text (identifier : Identifier) :
    ∃ digit < 16, ∃ rest, identifier.text.toList = Nat.digitChar digit :: rest := by
  obtain ⟨a, b, c, d, e, hparts, ha, _, _, _, _, htext⟩ := identifier.exists_toList_text
  match a, ha with
  | first :: others, _ =>
      obtain ⟨digit, hdigit, rfl⟩ : ∃ digit < 16, first = Nat.digitChar digit :=
        mem_digits (mem_digits_of_mem_parts (by rw [hparts]; exact List.mem_cons_self ..)
          (List.mem_cons_self ..))
      exact ⟨digit, hdigit, _, htext⟩

/-- An identifier is what its text is read as. -/
theorem ofText?_text (identifier : Identifier) : ofText? identifier.text = some identifier := by
  obtain ⟨digit, hdigit, rest, htext⟩ := identifier.exists_head_text
  have hlength := identifier.length_text
  have hgroups := identifier.ofGroups?_text
  have hmarks : ∀ digit < 16, 'u' ≠ Nat.digitChar digit ∧ Nat.digitChar digit ≠ '\x7b' := by
    decide
  obtain ⟨hurn, hbrace⟩ := hmarks digit hdigit
  rw [htext] at hlength hgroups
  have hshort : (Nat.digitChar digit :: rest).length ≠ 32 := by omega
  simp only [ofText?, htext, if_neg hshort]
  rw [if_neg (by simp [List.isPrefixOf, hurn])]
  split
  · next heq =>
      exact absurd (List.cons.inj heq).1 hbrace
  · exact hgroups

theorem text_injective : Function.Injective text := by
  intro a b heq
  have ha := a.ofText?_text
  rw [heq, b.ofText?_text] at ha
  exact (Option.some.inj ha).symm

end Identifier

end EquationPuzzle
