import EquationPuzzle.Evaluation

/-!
# Equations

A spelling is a row of six symbols.  An equation is a spelling that is grammatical and has a value:
it starts and ends with a digit, no two operators stand together, no numeral after a division sign
starts with a zero, and there is at least one operator.  Since the value is fixed by the spelling,
two equations are equal, ordered and hashed by their spellings alone.
-/

namespace EquationPuzzle

/-- The number of symbols in an equation. -/
abbrev equationLength : Nat := 6

abbrev Spelling := Vector Symbol equationLength

inductive Malformed where
  | wrongLength (length : Nat)
  | invalidCharacter (character : Char) (position : Nat)
  | leadingOperator
  | trailingOperator
  | adjacentOperators (position : Nat)
  | divisionByZero
  | missingOperation
  deriving DecidableEq, Repr

def Malformed.message : Malformed → String
  | wrongLength length =>
    "expected " ++ toString equationLength ++ " characters, found " ++ toString length
  | invalidCharacter character position =>
    "invalid character '" ++ character.toString ++ "' at position " ++ toString position
  | leadingOperator => "equation cannot start with an operator"
  | trailingOperator => "equation cannot end with an operator"
  | adjacentOperators position => "consecutive operators at position " ++ toString position
  | divisionByZero => "division by zero"
  | missingOperation => "equation must contain an operation between two numbers"

inductive InvalidEquation where
  | malformed (cause : Malformed)
  | evaluation (cause : EvaluationError)
  deriving DecidableEq, Repr

def InvalidEquation.message : InvalidEquation → String
  | malformed cause => cause.message
  | evaluation cause => cause.message

namespace Spelling

instance : Hashable Spelling := ⟨fun spelling => hash spelling.toList⟩

/-- The symbols of characters, the first of which stands at the given position. -/
def symbolsFrom (position : Nat) : List Char → Except Malformed (List Symbol)
  | [] => .ok []
  | c :: rest =>
    match Symbol.ofChar? c with
    | none => .error (.invalidCharacter c position)
    | some symbol => do return symbol :: (← symbolsFrom (position + 1) rest)

/-- Six symbols as a spelling. -/
def ofList (symbols : List Symbol) : Except Malformed Spelling :=
  if h : symbols.length = equationLength then .ok ⟨symbols.toArray, by simpa using h⟩
  else .error (.wrongLength symbols.length)

/-- Reads six symbols.  The length is checked before any character. -/
def ofText (text : String) : Except Malformed Spelling :=
  let characters := text.toList
  if characters.length = equationLength then do ofList (← symbolsFrom 0 characters)
  else .error (.wrongLength characters.length)

def text (spelling : Spelling) : String :=
  String.ofList (spelling.toList.map Symbol.toChar)

def tally (spelling : Spelling) : Tally :=
  Tally.of spelling.toList

/-- The position of the second of the first two operators that stand together, in symbols that
start at the given position. -/
def adjacentOperators? (position : Nat) : List Symbol → Option Nat
  | first :: second :: rest =>
    if first.isOperator && second.isOperator then some (position + 1)
    else adjacentOperators? (position + 1) (second :: rest)
  | _ => none

/-- Whether a division sign is followed by a zero, which may start a longer numeral. -/
def dividesByZero : List Symbol → Bool
  | first :: second :: rest =>
    (first == .operator .divide && second == .digit 0) || dividesByZero (second :: rest)
  | _ => false

/-- Whether some operator stands between two digits. -/
def hasOperation : List Symbol → Bool
  | first :: second :: third :: rest =>
    (first.isDigit && second.isOperator && third.isDigit) || hasOperation (second :: third :: rest)
  | _ => false

/-- The first rule of the grammar that the spelling breaks. -/
def fault? (spelling : Spelling) : Option Malformed :=
  if spelling.head.isOperator then some .leadingOperator
  else if spelling.back.isOperator then some .trailingOperator
  else match adjacentOperators? 0 spelling.toList with
    | some position => some (.adjacentOperators position)
    | none =>
      if dividesByZero spelling.toList then some .divisionByZero
      else if hasOperation spelling.toList then none
      else some .missingOperation

instance : Ord Spelling := ⟨fun a b => compareOfLists a.toList b.toList⟩
where
  /-- Symbol by symbol, from the first. -/
  compareOfLists : List Symbol → List Symbol → Ordering
    | [], [] => .eq
    | [], _ :: _ => .lt
    | _ :: _, [] => .gt
    | a :: as, b :: bs => (compare a b).then (compareOfLists as bs)

end Spelling

structure Equation where
  spelling : Spelling
  value : Rat
  grammatical : spelling.fault? = none
  evaluates : evaluate spelling.toList = .ok value

namespace Equation

@[ext]
theorem ext {a b : Equation} (h : a.spelling = b.spelling) : a = b := by
  obtain ⟨spelling, value, _, evaluates⟩ := a
  obtain ⟨_, _, _, evaluates'⟩ := b
  obtain rfl : spelling = _ := h
  obtain rfl := Except.ok.inj (evaluates.symm.trans evaluates')
  rfl

instance : DecidableEq Equation := fun a b =>
  if h : a.spelling = b.spelling then isTrue (ext h)
  else isFalse fun equal => h (congrArg spelling equal)

instance : Hashable Equation := ⟨fun equation => hash equation.spelling⟩

instance : Ord Equation := ⟨fun a b => compare a.spelling b.spelling⟩

/-- The equation with the given spelling.  Its grammar is checked before its value. -/
def ofSpelling (spelling : Spelling) : Except InvalidEquation Equation :=
  match grammar : spelling.fault? with
  | some cause => .error (.malformed cause)
  | none =>
    match evaluation : evaluate spelling.toList with
    | .error cause => .error (.evaluation cause)
    | .ok value => .ok ⟨spelling, value, grammar, evaluation⟩

def ofText (text : String) : Except InvalidEquation Equation :=
  match Spelling.ofText text with
  | .error cause => .error (.malformed cause)
  | .ok spelling => ofSpelling spelling

def text (equation : Equation) : String :=
  equation.spelling.text

/-- The value, if it is a positive whole number of at most 32 bits. -/
def targetNumber (equation : Equation) : Option UInt32 :=
  let value := equation.value
  if value.den = 1 ∧ 1 ≤ value.num ∧ value.num < UInt32.size then
    some (UInt32.ofNat value.num.toNat)
  else none

/-- The operators from left to right. -/
def operators (equation : Equation) : List Operator :=
  equation.spelling.toList.filterMap Symbol.operator?

def tally (equation : Equation) : Tally :=
  equation.spelling.tally

/-- Whether two equations use the same symbols equally often. -/
def isPermutationOf (a b : Equation) : Bool :=
  a.tally == b.tally

end Equation

end EquationPuzzle
