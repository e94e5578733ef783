import EquationPuzzle.Evaluation
import Mathlib.Tactic.Common

/-!
# Rows of numerals and operators

What a row of symbols is read as: a numeral and the operations behind it.  A row without a fault is
written back from what was read, and it is the only one that is read that way.
-/

namespace EquationPuzzle

namespace Operations

/-- Every operator has an operand behind it. -/
def Sound : Operations → Prop
  | done => True
  | fault _ => False
  | next _ operand rest => operand ≠ [] ∧ rest.Sound

def symbols : Operations → List Symbol
  | done => []
  | fault _ => []
  | next op operand rest => .operator op :: (operand.map .digit ++ rest.symbols)

/-! ## Reading -/

section Read

variable {position : Nat} {rest : List Symbol} {operand : Digits} {behind : Operations}

theorem read_digit (hrest : read (position + 1) rest = (operand, behind)) (digit : Fin 10) :
    read position (.digit digit :: rest) = (digit :: operand, behind) := by
  simp only [read, hrest]

theorem read_operator (hrest : read (position + 1) rest = (operand, behind))
    (hoperand : operand ≠ []) (op : Operator) :
    read position (.operator op :: rest) = ([], next op operand behind) := by
  have hnonempty : (!operand.isEmpty) = true := by simpa using hoperand
  simp only [read, hrest, hnonempty, if_true]

theorem read_operator_nil (hrest : read (position + 1) rest = ([], behind)) (op : Operator) :
    ∃ error, read position (.operator op :: rest) = ([], fault error) := by
  simp only [read, hrest, List.isEmpty_nil, Bool.not_true, Bool.false_eq_true, if_false]
  split
  · exact ⟨_, rfl⟩
  · exact ⟨_, rfl⟩

end Read

theorem read_append (position : Nat) (digits : Digits) {operations : Operations}
    (hsound : operations.Sound) :
    read position (digits.map .digit ++ operations.symbols) = (digits, operations) := by
  induction operations generalizing position digits with
  | fault error => exact hsound.elim
  | done =>
      induction digits generalizing position with
      | nil => rfl
      | cons digit digits ih => exact read_digit (ih _) digit
  | next op operand rest ihrest =>
      induction digits generalizing position with
      | nil => exact read_operator (ihrest _ _ hsound.2) hsound.1 op
      | cons digit digits ih => exact read_digit (ih _) digit

theorem eq_append_of_read {position : Nat} {symbols : List Symbol} {digits : Digits}
    {operations : Operations} (hread : read position symbols = (digits, operations))
    (hsound : operations.Sound) : symbols = digits.map .digit ++ operations.symbols := by
  induction symbols generalizing position digits operations with
  | nil =>
      obtain ⟨rfl, rfl⟩ := Prod.mk.inj hread
      rfl
  | cons symbol rest ih =>
      rcases hrest : read (position + 1) rest with ⟨operand, behind⟩
      cases symbol with
      | digit digit =>
          obtain ⟨rfl, rfl⟩ := Prod.mk.inj ((read_digit hrest digit).symm.trans hread)
          rw [ih hrest hsound, List.map_cons, List.cons_append]
      | operator op =>
          by_cases hoperand : operand = []
          · subst hoperand
            obtain ⟨error, hfault⟩ := read_operator_nil hrest op
            obtain ⟨rfl, rfl⟩ := Prod.mk.inj (hfault.symm.trans hread)
            exact hsound.elim
          · obtain ⟨rfl, rfl⟩ := Prod.mk.inj ((read_operator hrest hoperand op).symm.trans hread)
            rw [ih hrest hsound.2]
            rfl

/-! ## Rows that have a value -/

theorem exists_value_rest {op pending : Operator} {operand : Digits} {rest : Operations}
    {total term result : Binary64}
    (hvalue : (next op operand rest).value total pending term = .ok result) :
    ∃ total pending term, rest.value total pending term = .ok result := by
  rw [value] at hvalue
  split at hvalue
  · cases happlied : op.apply term operand.value with
    | error cause => simp [happlied, bind, Except.bind] at hvalue
    | ok product =>
        refine ⟨total, pending, product, ?_⟩
        simpa [happlied, bind, Except.bind] using hvalue
  · cases happlied : pending.apply total term with
    | error cause => simp [happlied, bind, Except.bind] at hvalue
    | ok sum =>
        refine ⟨sum, op, operand.value, ?_⟩
        simpa [happlied, bind, Except.bind] using hvalue

/-- Only a row without a fault has a value. -/
theorem sound_of_value {position : Nat} {symbols : List Symbol} {digits : Digits}
    {operations : Operations} (hread : read position symbols = (digits, operations))
    {total term result : Binary64} {pending : Operator}
    (hvalue : operations.value total pending term = .ok result) : operations.Sound := by
  induction symbols generalizing position digits operations total pending term with
  | nil =>
      obtain ⟨rfl, rfl⟩ := Prod.mk.inj hread
      trivial
  | cons symbol rest ih =>
      rcases hrest : read (position + 1) rest with ⟨operand, behind⟩
      cases symbol with
      | digit digit =>
          obtain ⟨rfl, rfl⟩ := Prod.mk.inj ((read_digit hrest digit).symm.trans hread)
          exact ih hrest hvalue
      | operator op =>
          by_cases hoperand : operand = []
          · subst hoperand
            obtain ⟨error, hfault⟩ := read_operator_nil hrest op
            obtain ⟨rfl, rfl⟩ := Prod.mk.inj (hfault.symm.trans hread)
            contradiction
          · obtain ⟨rfl, rfl⟩ := Prod.mk.inj ((read_operator hrest hoperand op).symm.trans hread)
            obtain ⟨total, pending, term, hbehind⟩ := exists_value_rest hvalue
            exact ⟨hoperand, ih hrest hbehind⟩

end Operations

/-- What has a value is read as a numeral and operations that have one. -/
theorem exists_read_of_evaluate {symbols : List Symbol} {value : Rat}
    (hvalue : evaluate symbols = .ok value) :
    ∃ (first : Digits) (operations : Operations), first ≠ [] ∧
      Operations.read 0 symbols = (first, operations) ∧
      ∃ result, operations.value (.finite 0) .add first.value = .ok result := by
  rcases hread : Operations.read 0 symbols with ⟨first, operations⟩
  rw [evaluate, hread] at hvalue
  dsimp only at hvalue
  split at hvalue
  · contradiction
  · split at hvalue
    · contradiction
    · next hfirst =>
        cases hresult : operations.value (.finite 0) .add first.value with
        | error cause => simp [hresult] at hvalue
        | ok result => exact ⟨first, operations, by simpa using hfirst, rfl, result, hresult⟩

end EquationPuzzle
