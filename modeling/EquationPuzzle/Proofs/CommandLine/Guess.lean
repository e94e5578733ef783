import EquationPuzzle.CommandLine.Guess
import EquationPuzzle.Proofs.Grammar.Reading
import EquationPuzzle.Proofs.Text.Blank

/-!
# How equations may be typed

A typed guess is read as an equation if, apart from the blanks around it, each of its characters is
one that may be typed for the symbol of the equation in its place.  A symbol has one meaning on the
keyboard, so no equation is taken for another.
-/

namespace EquationPuzzle

/-- The characters that may be typed for a symbol. -/
def Symbol.keys : Symbol → List Char
  | .operator .multiply => ['×', '*', 'x', 'X']
  | .operator .divide => ['÷', '/']
  | symbol => [symbol.toChar]

theorem Symbol.toChar_mem_keys (symbol : Symbol) : symbol.toChar ∈ symbol.keys := by
  cases symbol with
  | digit value => exact List.mem_singleton_self _
  | operator op => cases op <;> exact List.mem_cons_self

namespace CommandLine

/-! ## Characters -/

theorem isBlank_normalizeChar (c : Char) :
    Text.isBlank (normalizeChar c) = Text.isBlank c := by
  unfold normalizeChar
  split
  next htimes => rcases htimes with rfl | rfl | rfl <;> decide
  next =>
    split
    next hdivided =>
      subst c
      decide
    next => rfl

theorem normalizeChar_cases (c : Char) :
    c ∈ ['*', 'x', 'X'] ∧ normalizeChar c = '×' ∨ c = '/' ∧ normalizeChar c = '÷' ∨
      c ∉ ['*', 'x', 'X', '/'] ∧ normalizeChar c = c := by
  unfold normalizeChar
  split
  next htimes => exact .inl ⟨by simpa using htimes, rfl⟩
  next htimes =>
    split
    next hdivided => exact .inr (.inl ⟨hdivided, rfl⟩)
    next hdivided => exact .inr (.inr ⟨by simpa [hdivided] using htimes, rfl⟩)

theorem normalizeChar_normalizeChar (c : Char) :
    normalizeChar (normalizeChar c) = normalizeChar c := by
  rcases normalizeChar_cases c with ⟨_, htimes⟩ | ⟨_, hdivided⟩ | ⟨_, hkept⟩
  · rw [htimes]
    decide
  · rw [hdivided]
    decide
  · rw [hkept, hkept]

/-- What is typed for a digit, a plus or a minus sign is nothing but its character. -/
theorem normalizeChar_eq_iff_of_notMem {meant : Char}
    (hmeant : meant ∉ ['×', '÷', '*', 'x', 'X', '/']) (c : Char) :
    normalizeChar c = meant ↔ c = meant := by
  simp only [List.mem_cons, List.not_mem_nil, or_false, not_or] at hmeant
  rcases normalizeChar_cases c with ⟨hc, htimes⟩ | ⟨rfl, hdivided⟩ | ⟨_, hkept⟩
  · have hne : c ≠ meant := by
      rintro rfl
      simp [hmeant] at hc
    simp [htimes, hne, Ne.symm hmeant.1]
  · simp [hdivided, Ne.symm hmeant.2.1, Ne.symm hmeant.2.2.2.2.2]
  · rw [hkept]

theorem normalizeChar_eq_toChar_iff (c : Char) (symbol : Symbol) :
    normalizeChar c = symbol.toChar ↔ c ∈ symbol.keys := by
  have hdigits : ∀ value : Fin 10,
      (Symbol.digit value).toChar ∉ ['×', '÷', '*', 'x', 'X', '/'] := by decide
  cases symbol with
  | digit value => simp [Symbol.keys, normalizeChar_eq_iff_of_notMem (hdigits value)]
  | operator op =>
      cases op with
      | add => simpa [Symbol.keys] using normalizeChar_eq_iff_of_notMem (by decide) c
      | subtract => simpa [Symbol.keys] using normalizeChar_eq_iff_of_notMem (by decide) c
      | multiply =>
          simp only [Symbol.keys, Symbol.toChar, Operator.toChar]
          unfold normalizeChar
          grind
      | divide =>
          simp only [Symbol.keys, Symbol.toChar, Operator.toChar]
          unfold normalizeChar
          grind

/-! ## Texts -/

theorem toList_normalizeGuess (typed : String) :
    (normalizeGuess typed).toList = (Text.trim typed).toList.map normalizeChar := by
  rw [normalizeGuess, String.toList_ofList]

theorem normalizeGuess_normalizeGuess (typed : String) :
    normalizeGuess (normalizeGuess typed) = normalizeGuess typed := by
  have htrim : Text.trim (normalizeGuess typed) = normalizeGuess typed := by
    rw [normalizeGuess, Text.trim_map isBlank_normalizeChar, Text.trim_trim]
  rw [normalizeGuess, htrim, toList_normalizeGuess, List.map_map]
  congr 2
  funext c
  exact normalizeChar_normalizeChar c

theorem map_normalizeChar_eq_iff (characters : List Char) (symbols : List Symbol) :
    characters.map normalizeChar = symbols.map Symbol.toChar ↔
      List.Forall₂ (fun c symbol => c ∈ symbol.keys) characters symbols := by
  rw [← List.forall₂_eq_eq_eq, List.forall₂_map_left_iff, List.forall₂_map_right_iff]
  simp only [normalizeChar_eq_toChar_iff]

theorem normalizeGuess_eq_text_iff (typed : String) (equation : Equation) :
    normalizeGuess typed = equation.text ↔
      List.Forall₂ (fun c symbol => c ∈ symbol.keys) (Text.trim typed).toList
        equation.spelling.toList := by
  rw [← map_normalizeChar_eq_iff, normalizeGuess, Equation.text, Spelling.text, String.ofList_inj]

theorem ofText_eq_ok_iff_eq_text (text : String) (equation : Equation) :
    Equation.ofText text = .ok equation ↔ text = equation.text := by
  constructor
  · intro hread
    exact (Equation.text_eq_of_ofText hread).symm
  · rintro rfl
    exact equation.ofText_text

/-- A typed guess is read as an equation if and only if what stands between the blanks around it has
for each symbol of the equation one of the characters that may be typed for it.  So a guess that is
an equation already is not taken for another one, and nothing is left to normalize a second time. -/
theorem ofText_normalizeGuess_iff (typed : String) (equation : Equation) :
    (Equation.ofText (normalizeGuess typed) = .ok equation ↔
        ∃ kept, Text.Trimmed typed.toList kept ∧
          List.Forall₂ (fun c symbol => c ∈ symbol.keys) kept equation.spelling.toList) ∧
      (Equation.ofText (Text.trim typed) = .ok equation →
        Equation.ofText (normalizeGuess typed) = .ok equation) ∧
      normalizeGuess (normalizeGuess typed) = normalizeGuess typed := by
  rw [ofText_eq_ok_iff_eq_text, ofText_eq_ok_iff_eq_text, normalizeGuess_eq_text_iff]
  constructor
  · simp only [← Text.toList_trim_eq_iff, exists_eq_left']
  · constructor
    · intro htrimmed
      rw [htrimmed, Equation.text, Spelling.text, String.toList_ofList, List.forall₂_map_left_iff]
      apply List.forall₂_same.mpr
      intro symbol _
      exact symbol.toChar_mem_keys
    · exact normalizeGuess_normalizeGuess typed

end CommandLine

end EquationPuzzle
