import EquationPuzzle.Equation
import Mathlib.Data.Rat.Lemmas

/-!
# Reading back equations

An equation is read back from its text.  The text starts with a digit and has an operator behind it.
-/

namespace EquationPuzzle

theorem Symbol.ofChar?_toChar (symbol : Symbol) : Symbol.ofChar? symbol.toChar = some symbol := by
  cases symbol with
  | digit value =>
      have hall : ∀ value : Fin 10,
          Symbol.ofChar? (Symbol.toChar (.digit value)) = some (.digit value) := by decide
      exact hall value
  | operator op => cases op <;> rfl

def Operator.characters : List Char := ['+', '-', '×', '÷']

theorem Operator.toChar_mem (op : Operator) : op.toChar ∈ Operator.characters := by
  cases op <;> decide

theorem Operator.isDigit_toChar (op : Operator) : op.toChar.isDigit = false := by
  cases op <;> decide

theorem Symbol.isDigit_toChar (value : Fin 10) : (Symbol.digit value).toChar.isDigit := by
  have hall : ∀ value : Fin 10, (Symbol.digit value).toChar.isDigit := by decide
  exact hall value

theorem symbolsOfText_eq_ok {text : String} {symbols : List Symbol}
    (hspelled : text.toList = symbols.map Symbol.toChar) : symbolsOfText text = .ok symbols := by
  rw [symbolsOfText, hspelled]
  clear hspelled
  induction symbols with
  | nil => rfl
  | cons symbol rest ih =>
      rw [List.map_cons, List.mapM_cons, Symbol.ofChar?_toChar, ih]
      rfl

/-- What a text comes to is what its symbols come to. -/
theorem evaluateText_eq {text : String} {symbols : List Symbol}
    (hspelled : text.toList = symbols.map Symbol.toChar) :
    evaluateText text = evaluate symbols := by
  rw [evaluateText, symbolsOfText_eq_ok hspelled]
  rfl

namespace Spelling

theorem symbolsFrom_map_toChar (position : Nat) (symbols : List Symbol) :
    symbolsFrom position (symbols.map Symbol.toChar) = .ok symbols := by
  induction symbols generalizing position with
  | nil => rfl
  | cons symbol symbols ih =>
      rw [List.map_cons, symbolsFrom, Symbol.ofChar?_toChar]
      simp only [ih]
      rfl

theorem ofText_text (spelling : Spelling) : ofText spelling.text = .ok spelling := by
  have hlength : spelling.toList.length = equationLength := spelling.length_toList
  have hsymbols : (text spelling).toList = spelling.toList.map Symbol.toChar := by simp [text]
  have hread : ofList spelling.toList = .ok spelling := by
    rw [ofList, dif_pos hlength]
    rcases spelling with ⟨⟨symbols⟩, hsize⟩
    rfl
  simp only [ofText, hsymbols, List.length_map, hlength, if_true, symbolsFrom_map_toChar]
  exact hread

theorem exists_operator_of_hasOperation {symbols : List Symbol}
    (hoperation : hasOperation symbols) : ∃ op, .operator op ∈ symbols.tail := by
  fun_induction hasOperation symbols with
  | case1 first second third rest ih =>
      rw [Bool.or_eq_true, Bool.and_eq_true, Bool.and_eq_true] at hoperation
      rcases hoperation with ⟨⟨_, hsecond⟩, _⟩ | hrest
      · cases second with
        | digit value => contradiction
        | operator op => exact ⟨op, List.mem_cons_self ..⟩
      · obtain ⟨op, hop⟩ := ih hrest
        exact ⟨op, List.mem_cons_of_mem _ hop⟩
  | case2 => contradiction

theorem exists_of_fault?_eq_none {spelling : Spelling} (hfault : spelling.fault? = none) :
    ∃ value rest op, spelling.toList = .digit value :: rest ∧ .operator op ∈ rest := by
  have hhead : spelling.head.isOperator = false := by
    cases hhead : spelling.head.isOperator with
    | false => rfl
    | true => simp [fault?, hhead] at hfault
  have hoperation : hasOperation spelling.toList := by
    unfold fault? at hfault
    repeat' split at hfault
    all_goals first | contradiction | assumption
  obtain ⟨op, hop⟩ := exists_operator_of_hasOperation hoperation
  have hfirst : spelling.toList.head? = some spelling.head := by
    rcases spelling with ⟨⟨symbols⟩, hsize⟩
    cases symbols with
    | nil => contradiction
    | cons first rest => rfl
  cases hsymbols : spelling.toList with
  | nil => simp [hsymbols] at hfirst
  | cons first rest =>
      rw [hsymbols, List.head?_cons, Option.some.injEq] at hfirst
      cases first with
      | operator op => simp [← hfirst, Symbol.isOperator] at hhead
      | digit value => exact ⟨value, rest, op, rfl, by simpa [hsymbols] using hop⟩

end Spelling

namespace Equation

theorem ofSpelling_spelling (equation : Equation) :
    ofSpelling equation.spelling = .ok equation := by
  unfold ofSpelling
  split
  next cause hfault => simp [equation.grammatical] at hfault
  next hfault =>
    split
    next cause hvalue => simp [equation.evaluates] at hvalue
    next value hvalue => exact congrArg Except.ok (ext rfl)

theorem ofSpelling_eq_ok_iff {spelling : Spelling} {equation : Equation} :
    ofSpelling spelling = .ok equation ↔ equation.spelling = spelling := by
  constructor
  · intro hread
    unfold ofSpelling at hread
    split at hread
    next => contradiction
    next =>
      split at hread
      next => contradiction
      next => exact Except.ok.inj hread ▸ rfl
  · rintro rfl
    exact equation.ofSpelling_spelling

/-- An equation is what its text is read as. -/
theorem ofText_text (equation : Equation) : ofText equation.text = .ok equation := by
  rw [ofText, text, Spelling.ofText_text]
  exact ofSpelling_spelling equation

theorem targetNumber_eq_some_iff (equation : Equation) (target : UInt32) :
    equation.targetNumber = some target ↔
      equation.value = (target.toNat : Int) ∧ 1 ≤ target.toNat := by
  have hsize : target.toNat < UInt32.size := target.toNat_lt_size
  unfold targetNumber
  simp only [Option.ite_none_right_eq_some, Option.some.injEq]
  constructor
  · rintro ⟨⟨hden, hpositive, hbound⟩, rfl⟩
    have hnatural : equation.value.num.toNat < UInt32.size := by omega
    rw [UInt32.toNat_ofNat_of_lt' hnatural, Int.toNat_of_nonneg (by omega)]
    exact ⟨(Rat.den_eq_one_iff _).mp hden |>.symm, by omega⟩
  · rintro ⟨hvalue, hpositive⟩
    rw [hvalue, Rat.num_intCast, Rat.den_intCast, Int.toNat_natCast, UInt32.ofNat_toNat]
    exact ⟨⟨rfl, by omega, by omega⟩, rfl⟩

theorem exists_toList_text (equation : Equation) :
    ∃ digit rest operator, equation.text.toList = digit :: rest ∧ digit.isDigit ∧
      (∀ c ∈ rest, c.isDigit ∨ c ∈ Operator.characters) ∧ operator ∈ rest ∧
      operator.isDigit = false := by
  obtain ⟨value, rest, op, hsymbols, hop⟩ :=
    Spelling.exists_of_fault?_eq_none equation.grammatical
  refine ⟨(Symbol.digit value).toChar, rest.map Symbol.toChar, op.toChar, ?_,
    Symbol.isDigit_toChar value, ?_, ?_, op.isDigit_toChar⟩
  · simp [text, Spelling.text, hsymbols]
  · intro c hc
    obtain ⟨symbol, _, rfl⟩ := List.mem_map.mp hc
    cases symbol with
    | digit value => exact Or.inl (Symbol.isDigit_toChar value)
    | operator op => exact Or.inr op.toChar_mem
  · exact List.mem_map.mpr ⟨.operator op, hop, rfl⟩

end Equation

end EquationPuzzle
