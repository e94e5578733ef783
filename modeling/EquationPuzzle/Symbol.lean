/-!
# Symbols

The fourteen symbols of an equation: ten digits and four operators.  Their order is the digits from
zero to nine, then `+`, `-`, `×`, `÷`; `Symbol.index` numbers them in that order.
-/

namespace EquationPuzzle

inductive Operator where
  | add
  | subtract
  | multiply
  | divide
  deriving DecidableEq, Repr, Hashable

namespace Operator

def all : List Operator := [add, subtract, multiply, divide]

def toChar : Operator → Char
  | add => '+'
  | subtract => '-'
  | multiply => '×'
  | divide => '÷'

def ofChar? : Char → Option Operator
  | '+' => some add
  | '-' => some subtract
  | '×' => some multiply
  | '÷' => some divide
  | _ => none

/-- Whether the operator binds more tightly than addition and subtraction. -/
def isMultiplicative : Operator → Bool
  | multiply => true
  | divide => true
  | _ => false

/-- The place of the operator in `Operator.all`. -/
def index : Operator → Fin 4
  | add => 0
  | subtract => 1
  | multiply => 2
  | divide => 3

end Operator

inductive Symbol where
  | digit (value : Fin 10)
  | operator (operator : Operator)
  deriving DecidableEq, Repr, Hashable

namespace Symbol

abbrev count : Nat := 14

def digitOfChar? (c : Char) : Option (Fin 10) :=
  if h : '0'.toNat ≤ c.toNat ∧ c.toNat ≤ '9'.toNat then
    some ⟨c.toNat - '0'.toNat, by
      have upper : c.toNat ≤ 57 := h.2
      have lower : '0'.toNat = 48 := rfl
      omega⟩
  else none

def ofChar? (c : Char) : Option Symbol :=
  match digitOfChar? c with
  | some value => some (digit value)
  | none => (Operator.ofChar? c).map operator

def toChar : Symbol → Char
  | digit value => Char.ofNat ('0'.toNat + value)
  | operator op => op.toChar

def isDigit : Symbol → Bool
  | digit _ => true
  | operator _ => false

def isOperator : Symbol → Bool
  | digit _ => false
  | operator _ => true

def operator? : Symbol → Option Operator
  | digit _ => none
  | operator op => some op

def index : Symbol → Fin count
  | digit value => value.castLE (by decide)
  | operator op => op.index.natAdd 10

instance : Ord Symbol := ⟨fun a b => compare a.index.val b.index.val⟩

/-- All symbols in their order. -/
def all : List Symbol := (List.finRange 10).map digit ++ Operator.all.map operator

end Symbol

/-- How often each symbol occurs. -/
abbrev Tally := Vector Nat Symbol.count

def Tally.of (symbols : List Symbol) : Tally :=
  Vector.ofFn fun index => symbols.countP fun symbol => symbol.index = index

end EquationPuzzle
