import EquationPuzzle.Binary64
import EquationPuzzle.Symbol

/-!
# Evaluation

The value of a row of symbols.  Multiplication and division bind more tightly than addition and
subtraction; operators of one level associate to the left.  A row is first read as a numeral and the
operations behind it; a fault in the row stands at the place where the reading meets it.  One pass
over the operations then keeps the sum of the finished terms, the sign with which the current term
will join it, and the current term itself.
-/

namespace EquationPuzzle

inductive EvaluationError where
  | empty
  | invalidCharacter (character : Char)
  | expectedNumber (position : Nat)
  | danglingOperator
  | divisionByZero
  | nonFinite
  deriving DecidableEq, Repr

def EvaluationError.message : EvaluationError → String
  | empty => "empty expression"
  | invalidCharacter character => "invalid character '" ++ character.toString ++ "'"
  | expectedNumber position => "expected a number at position " ++ toString position
  | danglingOperator => "expression ends with an operator"
  | divisionByZero => "division by zero"
  | nonFinite => "result is not a finite number"

/-- An operator on two values.  Only a divisor that is zero is refused. -/
def Operator.apply (op : Operator) (left right : Binary64) : Except EvaluationError Binary64 :=
  match op with
  | .add => .ok (left.add right)
  | .subtract => .ok (left.subtract right)
  | .multiply => .ok (left.multiply right)
  | .divide => if right.isZero then .error .divisionByZero else .ok (left.divide right)

/-- The decimal digits of a number. -/
abbrev Digits := List (Fin 10)

/-- The value of digits, read one by one; each step rounds. -/
def Digits.value (digits : Digits) : Binary64 :=
  digits.foldl (fun value digit =>
    (value.multiply (.finite 10)).add (.finite (digit.val : Rat))) (.finite 0)

/-- What follows the first number of an expression. -/
inductive Operations where
  | done
  | fault (error : EvaluationError)
  | next (op : Operator) (operand : Digits) (rest : Operations)
  deriving DecidableEq, Repr

namespace Operations

/-- The digits at the start of the symbols, and the operations behind them.  The position is where
the symbols start. -/
def read (position : Nat) : List Symbol → Digits × Operations
  | [] => ([], done)
  | .digit digit :: rest =>
    let (digits, operations) := read (position + 1) rest
    (digit :: digits, operations)
  | .operator op :: rest =>
    let (operand, operations) := read (position + 1) rest
    if !operand.isEmpty then ([], next op operand operations)
    else if rest.isEmpty then ([], fault .danglingOperator)
    else ([], fault (.expectedNumber (position + 1)))

/-- The value of an expression up to its end: from what has been summed, the operator that joins
the current term to the sum, and the current term. -/
def value (total : Binary64) (pending : Operator) (term : Binary64) :
    Operations → Except EvaluationError Binary64
  | done => pending.apply total term
  | fault error => .error error
  | next op operand rest =>
    if op.isMultiplicative then do
      value total pending (← op.apply term operand.value) rest
    else do
      value (← pending.apply total term) op operand.value rest

end Operations

/-- The value of the symbols, or the first fault met from left to right. -/
def evaluate (symbols : List Symbol) : Except EvaluationError Rat :=
  if symbols.isEmpty then .error .empty
  else
    let (first, operations) := Operations.read 0 symbols
    if first.isEmpty then .error (.expectedNumber 0)
    else
      match operations.value (.finite 0) .add first.value with
      | .error error => .error error
      | .ok (.finite value) => .ok value
      | .ok _ => .error .nonFinite

/-- The symbols of a text. -/
def symbolsOfText (text : String) : Except EvaluationError (List Symbol) :=
  text.toList.mapM fun c =>
    match Symbol.ofChar? c with
    | some symbol => .ok symbol
    | none => .error (.invalidCharacter c)

def evaluateText (text : String) : Except EvaluationError Rat := do
  evaluate (← symbolsOfText text)

end EquationPuzzle
