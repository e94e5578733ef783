import EquationPuzzle.Chance
import EquationPuzzle.Puzzle

/-!
# Random puzzles

Puzzles are drawn from six templates.  A template fixes where the operators stand and which digits
may be zero; a drawn row of symbols is kept if it is an equation whose value is a whole number from
one up to `Generator.maxTarget`.  A generator gives up after a number of attempts.
-/

namespace EquationPuzzle

inductive Template where
  | productPlusDigit
  | digitsPlusTens
  | tensPlusDigits
  | productPlusTens
  | digitPlusProduct
  | quotientPlusTens
  deriving DecidableEq, Repr

namespace Template

def all : List Template :=
  [productPlusDigit, digitsPlusTens, tensPlusDigits, productPlusTens, digitPlusProduct,
    quotientPlusTens]

def name : Template → String
  | productPlusDigit => "ProductPlusDigit"
  | digitsPlusTens => "DigitsPlusTens"
  | tensPlusDigits => "TensPlusDigits"
  | productPlusTens => "ProductPlusTens"
  | digitPlusProduct => "DigitPlusProduct"
  | quotientPlusTens => "QuotientPlusTens"

/-- What may stand in one place of a template. -/
inductive Place where
  | nonzero
  | anyDigit
  | fixed (operator : Operator)
  | additive
  deriving DecidableEq, Repr

/-- The six places of a template. -/
def places : Template → Vector Place equationLength
  | productPlusDigit => #v[.nonzero, .anyDigit, .fixed .multiply, .nonzero, .fixed .add, .nonzero]
  | digitsPlusTens => #v[.nonzero, .fixed .add, .nonzero, .additive, .nonzero, .anyDigit]
  | tensPlusDigits => #v[.nonzero, .anyDigit, .fixed .add, .nonzero, .additive, .nonzero]
  | productPlusTens => #v[.nonzero, .fixed .multiply, .nonzero, .fixed .add, .nonzero, .anyDigit]
  | digitPlusProduct => #v[.nonzero, .fixed .add, .nonzero, .fixed .multiply, .nonzero, .anyDigit]
  | quotientPlusTens => #v[.nonzero, .fixed .divide, .nonzero, .additive, .nonzero, .anyDigit]

/-- The symbols that may stand in a place. -/
def Place.symbols : Place → List Symbol
  | nonzero => (List.finRange 9).map fun value => .digit value.succ
  | anyDigit => (List.finRange 10).map .digit
  | fixed op => [.operator op]
  | additive => [.operator .add, .operator .subtract]

/-- Draws a place's digit.  Where the template leaves a choice of operator open, the plus sign
stands in for it. -/
def Place.drawDigit : Place → Draw Symbol
  | nonzero => do return .digit (← Draw.below 9 (by decide)).succ
  | anyDigit => do return .digit (← Draw.below 10 (by decide))
  | fixed op => return .operator op
  | additive => return .operator .add

/-- Draws a place's operator, where the template leaves it open. -/
def Place.drawOperator (drawn : Symbol) : Place → Draw Symbol
  | additive => do
    if ← Draw.coin then return .operator .add else return .operator .subtract
  | _ => return drawn

/-- Draws a row of symbols: all digits from left to right, then the open operators. -/
def instantiate (template : Template) : Draw Spelling := do
  let places := template.places
  let digits ← places.mapM Place.drawDigit
  (digits.zip places).mapM fun (drawn, place) => place.drawOperator drawn

/-- Every row of symbols that the places allow. -/
def rows : List Place → List (List Symbol)
  | [] => [[]]
  | place :: rest =>
    let tails := rows rest
    place.symbols.flatMap fun symbol => tails.map fun tail => symbol :: tail

/-- Every equation that a template allows. -/
def equations (template : Template) : List Equation :=
  (rows template.places.toList).filterMap fun row =>
    match Spelling.ofList row with
    | .error _ => none
    | .ok spelling => (Equation.ofSpelling spelling).toOption

end Template

/-- A search that makes at most `maxAttempts` attempts. -/
structure Generator where
  maxAttempts : Nat
  deriving DecidableEq, Repr

/-- No puzzle was found in that many attempts. -/
structure GenerationExhausted where
  attempts : Nat
  deriving DecidableEq, Repr

def GenerationExhausted.message (error : GenerationExhausted) : String :=
  "failed to generate a valid equation after " ++ toString error.attempts ++ " attempts"

namespace Generator

def defaultMaxAttempts : Nat := 1000

/-- The largest number a generated equation may yield. -/
def maxTarget : UInt32 := 9999

def drawTemplate : Draw Template := do
  let choice ← Draw.below Template.all.length (by decide)
  return Template.all.get choice

/-- The puzzle of a row of symbols, if it is fit to be played. -/
def puzzle? (spelling : Spelling) : Option Puzzle :=
  match Equation.ofSpelling spelling with
  | .error _ => none
  | .ok equation =>
    match equation.targetNumber with
    | none => none
    | some target => if target ≤ maxTarget then some ⟨equation, target⟩ else none

def attempt : Draw (Option Puzzle) := do
  let template ← drawTemplate
  return puzzle? (← template.instantiate)

/-- The first success of a number of attempts. -/
def search : Nat → Draw (Option Puzzle)
  | 0 => return none
  | attempts + 1 => do
    match ← attempt with
    | some puzzle => return some puzzle
    | none => search attempts

def generate (generator : Generator) : Draw (Except GenerationExhausted Puzzle) := do
  match ← search generator.maxAttempts with
  | some puzzle => return .ok puzzle
  | none => return .error ⟨generator.maxAttempts⟩

end Generator

end EquationPuzzle
