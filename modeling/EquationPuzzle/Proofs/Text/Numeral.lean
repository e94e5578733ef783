import EquationPuzzle.Text.Numeral
import Mathlib.Algebra.Ring.Nat
import Mathlib.Data.List.TakeWhile

/-!
# Reading back written numbers

Numbers are written with the library's digits, perhaps behind zeros.  Each reader of numbers gives
back what was written and stops behind it.
-/

namespace EquationPuzzle

namespace Text

/-- A character of a class is none that does not belong to it. -/
theorem ne_of_class {p : Char → Bool} {c d : Char} (hc : p c) (hd : p d = false) : c ≠ d := by
  rintro rfl
  rw [hc] at hd
  contradiction

/-- A number in a base, behind so many zeros. -/
def zeroPadded (base zeros value : Nat) : List Char :=
  List.replicate zeros '0' ++ Nat.toDigits base value

theorem toList_padded (width value : Nat) :
    (padded width value).toList =
      zeroPadded 10 (width - (Nat.toDigits 10 value).length) value := by
  simp [padded, zeroPadded]

theorem zeroPadded_ne_nil (base zeros value : Nat) : zeroPadded base zeros value ≠ [] := by
  simp [zeroPadded]

theorem length_padded {width value : Nat} (hwidth : 0 < width) (hvalue : value < 10 ^ width) :
    (padded width value).toList.length = width := by
  have hle := (Nat.length_toDigits_le_iff (b := 10) (by decide) hwidth).mpr hvalue
  simp only [padded, String.toList_ofList, List.length_append, List.length_replicate]
  omega

/-! ## The digits that are written -/

theorem mem_toDigits {base value : Nat} (hbase : 1 < base) {c : Char}
    (hmem : c ∈ Nat.toDigits base value) : ∃ digit < base, c = Nat.digitChar digit := by
  induction value using Nat.base_induction base hbase with
  | single value hvalue =>
      rw [Nat.toDigits_of_lt_base hvalue, List.mem_singleton] at hmem
      exact ⟨value, hvalue, hmem⟩
  | digit value last hlast hvalue ih =>
      rw [← Nat.toDigits_append_toDigits hbase hvalue hlast, List.mem_append,
        Nat.toDigits_of_lt_base hlast, List.mem_singleton] at hmem
      rcases hmem with hmem | hmem
      · exact ih hmem
      · exact ⟨last, hlast, hmem⟩

theorem isDigit_of_mem_toDigits {value : Nat} {c : Char} (hmem : c ∈ Nat.toDigits 10 value) :
    c.isDigit := by
  obtain ⟨digit, hdigit, rfl⟩ := mem_toDigits (by decide) hmem
  simpa using hdigit

theorem head?_toDigits {value : Nat} (hpositive : 0 < value) :
    (Nat.toDigits 10 value).head? ≠ some '0' := by
  induction value using Nat.base_induction 10 (by decide) with
  | single value hvalue =>
      have hall : ∀ value < 10, 0 < value → Nat.digitChar value ≠ '0' := by decide
      simpa [Nat.toDigits_of_lt_base hvalue] using hall value hvalue hpositive
  | digit value last hlast hvalue ih =>
      rw [← Nat.toDigits_append_toDigits (by decide) hvalue hlast, List.head?_append]
      cases hhead : (Nat.toDigits 10 value).head? with
      | none => simp at hhead
      | some c => simpa [hhead] using ih hvalue

theorem mem_zeroPadded {base zeros value : Nat} (hbase : 1 < base) {c : Char}
    (hmem : c ∈ zeroPadded base zeros value) : ∃ digit < base, c = Nat.digitChar digit := by
  rw [zeroPadded, List.mem_append] at hmem
  rcases hmem with hmem | hmem
  · exact ⟨0, by omega, (List.mem_replicate.mp hmem).2⟩
  · exact mem_toDigits hbase hmem

theorem isDigit_of_mem_zeroPadded {zeros value : Nat} {c : Char}
    (hmem : c ∈ zeroPadded 10 zeros value) : c.isDigit := by
  obtain ⟨digit, hdigit, rfl⟩ := mem_zeroPadded (by decide) hmem
  simpa using hdigit

theorem isDigit_of_mem_padded {width value : Nat} {c : Char}
    (hmem : c ∈ (padded width value).toList) : c.isDigit := by
  rw [toList_padded] at hmem
  exact isDigit_of_mem_zeroPadded hmem

/-! ## What is read -/

theorem naturalOfDigits_eq (digits : List Char) :
    naturalOfDigits digits = Nat.ofDigitChars 10 digits 0 := by
  simp only [naturalOfDigits, Nat.ofDigitChars, Nat.mul_comm]

theorem naturalOfDigits_zeroPadded (zeros value : Nat) :
    naturalOfDigits (zeroPadded 10 zeros value) = value := by
  rw [naturalOfDigits_eq, zeroPadded, Nat.ofDigitChars_append]
  simp

theorem naturalOfDigits_padded (width value : Nat) :
    naturalOfDigits (padded width value).toList = value := by
  rw [toList_padded, naturalOfDigits_zeroPadded]

/-- A number of digits is read up to their end, if there is room for them and no digit follows
where there would be room for more. -/
theorem readNatural_append {most : Nat} {digits rest : List Char} (hne : digits ≠ [])
    (hdigits : ∀ c ∈ digits, c.isDigit) (hroom : digits.length ≤ most)
    (hstop : digits.length = most ∨ ∀ c ∈ rest.head?, ¬c.isDigit) :
    readNatural most (digits ++ rest) = some (naturalOfDigits digits, rest) := by
  have htaken : ((digits ++ rest).take most).takeWhile Char.isDigit = digits := by
    rw [List.take_append, List.take_of_length_le hroom,
      List.takeWhile_append_of_pos hdigits]
    rcases hstop with hfull | hstop
    · simp [hfull]
    · cases rest with
      | nil => simp
      | cons c rest =>
          have hc : ¬c.isDigit := hstop c (by simp)
          cases hleft : most - digits.length <;> simp [hc]
  simp [readNatural, htaken, hne]

theorem readNatural_padded {most width value : Nat} {rest : List Char}
    (hroom : (padded width value).toList.length ≤ most)
    (hstop : (padded width value).toList.length = most ∨ ∀ c ∈ rest.head?, ¬c.isDigit) :
    readNatural most ((padded width value).toList ++ rest) = some (value, rest) := by
  have hne : (padded width value).toList ≠ [] := by
    rw [toList_padded]
    exact zeroPadded_ne_nil _ _ _
  rw [readNatural_append hne (fun _ hc => isDigit_of_mem_padded hc) hroom hstop,
    naturalOfDigits_padded]

theorem digit?_digitChar {base digit : Nat} (hdigit : digit < base) (hbase : base ≤ 16) :
    digit? base (Nat.digitChar digit) = some digit := by
  have hall : ∀ digit < 16, ∀ base ≤ 16, digit < base →
      digit? base (Nat.digitChar digit) = some digit := by decide
  exact hall digit (by omega) base hbase hdigit

def pushDigit (base value : Nat) (c : Char) : Option Nat :=
  (digit? base c).map fun digit => value * base + digit

theorem foldlM_pushDigit_toDigits {base : Nat} (hone : 1 < base) (hbase : base ≤ 16)
    (value : Nat) :
    (Nat.toDigits base value).foldlM (pushDigit base) 0 = some value := by
  induction value using Nat.base_induction base hone with
  | single value hvalue =>
      simp [Nat.toDigits_of_lt_base hvalue, pushDigit, digit?_digitChar hvalue hbase]
  | digit value last hlast hvalue ih =>
      rw [← Nat.toDigits_append_toDigits hone hvalue hlast, List.foldlM_append, ih,
        Nat.toDigits_of_lt_base hlast]
      simp [pushDigit, digit?_digitChar hlast hbase, Nat.mul_comm]

theorem foldlM_pushDigit_replicate {base : Nat} (hone : 1 < base) (hbase : base ≤ 16)
    (zeros : Nat) : (List.replicate zeros '0').foldlM (pushDigit base) 0 = some 0 := by
  induction zeros with
  | zero => rfl
  | succ zeros ih =>
      have hzero : pushDigit base 0 '0' = some 0 := by
        have hdigit : digit? base '0' = some 0 :=
          digit?_digitChar (show 0 < base by omega) hbase
        simp [pushDigit, hdigit]
      simpa [List.replicate_succ, hzero] using ih

theorem natural?_zeroPadded {base : Nat} (hone : 1 < base) (hbase : base ≤ 16)
    (zeros value : Nat) : natural? base (zeroPadded base zeros value) = some value := by
  rw [natural?, if_neg (by simp [zeroPadded_ne_nil])]
  change (zeroPadded base zeros value).foldlM (pushDigit base) 0 = some value
  rw [zeroPadded, List.foldlM_append, foldlM_pushDigit_replicate hone hbase]
  exact foldlM_pushDigit_toDigits hone hbase value

theorem foldlM_pushDigit_eq_none {base : Nat} {characters : List Char} {c : Char}
    (hmem : c ∈ characters) (hnone : digit? base c = none) (value : Nat) :
    characters.foldlM (pushDigit base) value = none := by
  induction characters generalizing value with
  | nil => simp at hmem
  | cons first rest ih =>
      cases hfirst : digit? base first with
      | none => simp [pushDigit, hfirst]
      | some digit =>
          have hrest : c ∈ rest := by
            rcases List.mem_cons.mp hmem with rfl | hrest
            · rw [hnone] at hfirst
              contradiction
            · exact hrest
          simp [pushDigit, hfirst, ih hrest]

theorem natural?_eq_none {base : Nat} {characters : List Char} {c : Char}
    (hmem : c ∈ characters) (hnone : digit? base c = none) :
    natural? base characters = none := by
  rw [natural?]
  split
  · rfl
  · exact foldlM_pushDigit_eq_none hmem hnone 0

end Text

end EquationPuzzle
