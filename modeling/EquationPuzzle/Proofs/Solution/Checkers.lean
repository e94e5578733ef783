import EquationPuzzle.Proofs.Solution

/-!
# Targets that are no equations

One check of a guess works on an equation, the other one on any text, which it evaluates anew.  They
agree on equations.  What has a value is written by the grammar of expressions, and what can be
rearranged to an equation has its six characters and an operator.  So a text that is no equation
accepts a guess only if the rule about divisors is the one it breaks; and since it has a value, none
of its divisors is zero.
-/

namespace EquationPuzzle

/-! ## Divisors -/

theorem Digits.exists_ne_zero_of_natural_pos {digits : Digits} (hpositive : 0 < digits.natural) :
    ∃ digit ∈ digits, digit ≠ 0 := by
  induction digits using List.reverseRecOn with
  | nil => contradiction
  | append_singleton digits digit ih =>
      rw [natural_concat] at hpositive
      by_cases hdigit : digit = 0
      · subst hdigit
        obtain ⟨other, hother, hnonzero⟩ := ih (Nat.pos_of_mul_pos_right hpositive)
        exact ⟨other, List.mem_append_left _ hother, hnonzero⟩
      · exact ⟨digit, by simp, hdigit⟩

/-- An operator in a row is the first one or stands behind it. -/
theorem Digits.cases_of_append_operator {first : Digits} {op sign : Operator}
    {rest before after : List Symbol}
    (hrow : first.map .digit ++ .operator op :: rest = before ++ .operator sign :: after) :
    (op = sign ∧ rest = after) ∨ ∃ passed, rest = passed ++ .operator sign :: after := by
  induction first generalizing before with
  | nil =>
      cases before with
      | nil =>
          obtain ⟨hop, hrest⟩ := List.cons.inj hrow
          exact Or.inl ⟨Symbol.operator.inj hop, hrest⟩
      | cons symbol passed => exact Or.inr ⟨passed, (List.cons.inj hrow).2⟩
  | cons digit first ih =>
      cases before with
      | nil => simp at hrow
      | cons symbol before => exact ih (List.cons.inj hrow).2

namespace Operations

variable {total term result : Binary64} {pending : Operator}

/-- A division that leads to a value has a divisor other than zero. -/
theorem exists_ne_zero_of_divide {operand : Digits} {rest : Operations}
    (hlength : operand.length ≤ 15)
    (hvalue : (next .divide operand rest).value total pending term = .ok result) :
    ∃ digit ∈ operand, digit ≠ 0 := by
  rw [value] at hvalue
  obtain ⟨quotient, hquotient, _⟩ := Expression.bind_eq_ok hvalue
  rw [Digits.value_eq hlength] at hquotient
  refine Digits.exists_ne_zero_of_natural_pos (Nat.pos_of_ne_zero fun hnatural => ?_)
  simp [Operator.apply, Binary64.isZero, hnatural] at hquotient

/-- Where a sign of division stands in a row that has a value, one of the digits behind it is not
zero. -/
theorem exists_ne_zero_of_value {operations : Operations} (hsound : operations.Sound)
    (hlength : operations.symbols.length ≤ 15)
    (hvalue : operations.value total pending term = .ok result) {first : Digits}
    {before after : List Symbol}
    (hrow : first.map .digit ++ operations.symbols = before ++ .operator .divide :: after) :
    ∃ digit, digit ≠ 0 ∧ Symbol.digit digit ∈ after.takeWhile Symbol.isDigit := by
  induction operations generalizing total pending term first before with
  | fault error => exact hsound.elim
  | done =>
      have hsign : Symbol.operator .divide ∈ first.map Symbol.digit ++ symbols done := by
        rw [hrow]
        simp
      simp [symbols] at hsign
  | next op operand rest ih =>
      have hsymbols : (next op operand rest).symbols.length =
          operand.length + rest.symbols.length + 1 := by
        simp [symbols]
      rcases Digits.cases_of_append_operator hrow with ⟨rfl, hafter⟩ | ⟨passed, hpassed⟩
      · obtain ⟨digit, hdigit, hnonzero⟩ :=
          exists_ne_zero_of_divide (show operand.length ≤ 15 by omega) hvalue
        refine ⟨digit, hnonzero, ?_⟩
        rw [← hafter, List.takeWhile_append_of_pos (by simp [Symbol.isDigit])]
        exact List.mem_append_left _ (List.mem_map_of_mem hdigit)
      · obtain ⟨total, pending, term, hrest⟩ := exists_value_rest hvalue
        exact ih hsound.2 (by omega) hrest hpassed

end Operations

/-! ## Texts that have a value -/

namespace Spelling

open Grammar

/-- Six symbols with a value are numerals with operators between them, and no divisor is zero. -/
theorem isExpression_of_evaluate {spelling : Spelling} {value : Rat}
    (hvalue : evaluate spelling.toList = .ok value) :
    IsExpression (spelling.toList.map Symbol.toChar) ∧
      ∀ before after, spelling.toList = before ++ .operator .divide :: after →
        ∃ digit, digit ≠ 0 ∧ Symbol.digit digit ∈ after.takeWhile Symbol.isDigit := by
  obtain ⟨first, operations, hfirst, hread, result, hresult⟩ := exists_read_of_evaluate hvalue
  have hsound := Operations.sound_of_value hread hresult
  have hrow := Operations.eq_append_of_read hread hsound
  have hlength : first.length + operations.symbols.length = 6 := by
    have hsymbols : spelling.toList.length = 6 := spelling.length_toList
    rwa [hrow, List.length_append, List.length_map] at hsymbols
  rw [hrow]
  refine ⟨isExpression_map_toChar hfirst hsound, fun before after hsplit => ?_⟩
  exact Operations.exists_ne_zero_of_value hsound (by omega) hresult hsplit

end Spelling

/-- The division signs of a row are those of its text, with the same digits behind them. -/
theorem exists_ne_zero_behind {symbols : List Symbol}
    (hdivisors : ∀ before after, symbols = before ++ .operator .divide :: after →
      ∃ digit, digit ≠ 0 ∧ Symbol.digit digit ∈ after.takeWhile Symbol.isDigit)
    {before after : List Char} (hsplit : symbols.map Symbol.toChar = before ++ '÷' :: after) :
    ∃ c ∈ after.takeWhile Char.isDigit, c ≠ '0' := by
  obtain ⟨front, back, rfl, _, hback⟩ := List.map_eq_append_iff.mp hsplit
  obtain ⟨sign, behind, rfl, hsign, rfl⟩ := List.map_eq_cons_iff.mp hback
  obtain rfl : sign = .operator .divide := Symbol.toChar_injective hsign
  obtain ⟨digit, hnonzero, hdigit⟩ := hdivisors front behind rfl
  have hdigits : Char.isDigit ∘ Symbol.toChar = Symbol.isDigit := by
    funext symbol
    rw [Function.comp_apply, Bool.eq_iff_iff, Symbol.isDigit_toChar_iff]
    cases symbol <;> simp [Symbol.isDigit, Symbol.isOperator]
  rw [List.takeWhile_map, hdigits]
  refine ⟨_, List.mem_map_of_mem hdigit, fun hzero => hnonzero ?_⟩
  have hsame : Symbol.digit digit = .digit 0 := Symbol.toChar_injective hzero
  exact Symbol.digit.inj hsame

/-! ## Targets -/

open Grammar

theorem Equation.accepts_iff (target : Equation) (guess : String) :
    target.accepts guess = true ↔
      ∃ equation, ofText guess = .ok equation ∧ equation.value = target.value ∧
        equation.spelling.toList.Perm target.spelling.toList := by
  unfold accepts
  cases hread : ofText guess with
  | error cause => simp
  | ok equation =>
      simp [isPermutationOf_iff]

/-- What an equation is rearranged to has an operator. -/
theorem Equation.exists_operator_of_perm {equation : Equation} {symbols : List Symbol}
    (hperm : equation.spelling.toList.Perm symbols) :
    ∃ c ∈ symbols.map Symbol.toChar, ¬c.isDigit := by
  obtain ⟨value, rest, op, hsymbols, hop⟩ :=
    Spelling.exists_of_fault?_eq_none equation.grammatical
  have hmem : Symbol.operator op ∈ equation.spelling.toList := by
    rw [hsymbols]
    exact List.mem_cons_of_mem _ hop
  refine ⟨op.toChar, List.mem_map_of_mem (hperm.mem_iff.mp hmem), ?_⟩
  rw [op.isDigit_toChar]
  exact Bool.false_ne_true

/-- The two checks agree on equations.  A text that is no equation accepts a guess only if it is
refused for its divisors: it has six characters, which are numerals with operators between them, the
zero behind a division sign is the one rule that it breaks, and the numeral behind each division
sign is not zero. -/
theorem accepts_eq_isAcceptedSolution :
    (∀ (guess : String) (target : Equation),
        target.accepts guess = isAcceptedSolution guess target.text) ∧
      ∀ (guess target : String) (cause : InvalidEquation), Equation.ofText target = .error cause →
        isAcceptedSolution guess target = true →
          cause = .malformed .divisionByZero ∧ target.toList.length = 6 ∧
          IsOperation target.toList ∧
          (∀ fault : Malformed, fault.Breaks target.toList ↔ fault = .divisionByZero) ∧
          ∀ before after, target.toList = before ++ '÷' :: after →
            ∃ c ∈ after.takeWhile Char.isDigit, c ≠ '0' := by
  constructor
  · intro guess target
    rw [Bool.eq_iff_iff, Equation.accepts_iff, isAcceptedSolution_iff, evaluateText_text,
      Equation.text, Spelling.ofText_text]
    simp [@eq_comm _ target.value]
  · intro guess target cause hrefused haccepted
    obtain ⟨equation, spelling, hguess, hspelling, hvalue, hperm⟩ :=
      (isAcceptedSolution_iff guess target).mp haccepted
    have hcharacters : target.toList = spelling.toList.map Symbol.toChar := by
      rcases Spelling.ofText_cases target with ⟨other, hother, hcharacters⟩ | ⟨fault, hfault, _⟩
      · rwa [← Except.ok.inj (hspelling.symm.trans hother)] at hcharacters
      · rw [hspelling] at hfault
        contradiction
    rw [evaluateText_eq hcharacters] at hvalue
    obtain ⟨hexpression, hdivisors⟩ := Spelling.isExpression_of_evaluate hvalue
    have hoperator := Equation.exists_operator_of_perm hperm
    rw [← hcharacters] at hexpression hoperator
    have hoperation := hexpression.isOperation hoperator
    have hlength : target.toList.length = 6 := by
      rw [hcharacters, List.length_map]
      exact spelling.length_toList
    obtain ⟨fault, hfault, hfirst⟩ : ∃ fault,
        Equation.ofText target = .error (.malformed fault) ∧ fault.IsFirst target.toList := by
      rcases Equation.ofText_cases target with ⟨other, hread, _⟩ | hfault
      · rw [hrefused] at hread
        contradiction
      · exact hfault
    obtain rfl := hfirst.breaks.eq_of_isOperation hlength hoperation
    refine ⟨Except.error.inj (hrefused.symm.trans hfault), hlength, hoperation, fun other => ?_,
      fun before after hsplit => ?_⟩
    · constructor
      · exact fun hbreaks => hbreaks.eq_of_isOperation hlength hoperation
      · rintro rfl
        exact hfirst.breaks
    · exact exists_ne_zero_behind hdivisors (hcharacters.symm.trans hsplit)

/-- The divisor four may be written with a zero before it in a target, though not in a guess. -/
theorem accepts_eq_isAcceptedSolution_zero_led :
    Equation.ofText "8÷04+1" = .error (.malformed .divisionByZero) ∧
      isAcceptedSolution "8÷4+01" "8÷04+1" = true ∧ IsOperation "8÷04+1".toList := by
  have hrefused : Equation.ofText "8÷04+1" = .error (.malformed .divisionByZero) := by
    decide +kernel
  have haccepted : isAcceptedSolution "8÷4+01" "8÷04+1" = true := by decide +kernel
  obtain ⟨_, _, hoperation, _⟩ :=
    accepts_eq_isAcceptedSolution.2 "8÷4+01" "8÷04+1" _ hrefused haccepted
  exact ⟨hrefused, haccepted, hoperation⟩

end EquationPuzzle
