/-!
# Binary floating point

Values of the 64-bit binary floating-point format.  A finite value is kept as the rational number it
stands for, so that each operation is the exact rational operation followed by one rounding to
nearest, ties to even.  There is a single zero: no operation on values met in an expression of
unsigned numerals gives a zero with a sign.
-/

namespace EquationPuzzle

inductive Binary64 where
  | finite (value : Rat)
  | infinite (negative : Bool)
  | nan
  deriving DecidableEq, Repr

namespace Binary64

/-- The quotient of two natural numbers to the nearest natural number; a half goes to the even
neighbour. -/
def roundQuotient (numerator denominator : Nat) : Nat :=
  let quotient := numerator / denominator
  let twice := 2 * (numerator % denominator)
  if twice < denominator then quotient
  else if denominator < twice then quotient + 1
  else quotient + quotient % 2

/-- A number with so many binary zeros behind it; none for a negative count. -/
def shifted (number : Nat) (zeros : Int) : Nat :=
  number * Nat.pow 2 zeros.toNat

/-- A number with so many decimal zeros behind it; none for a negative count. -/
def shiftedDecimal (number : Nat) (zeros : Int) : Nat :=
  number * Nat.pow 10 zeros.toNat

/-- The largest `e` with `2 ^ e ≤ numerator / denominator`, for positive arguments. -/
def binaryExponent (numerator denominator : Nat) : Int :=
  let difference : Int := (Nat.log2 numerator : Int) - (Nat.log2 denominator : Int)
  if shifted denominator difference ≤ shifted numerator (-difference) then difference
  else difference - 1

/-- The exponent of the last place of a positive number: 53 significant bits, and never below the
last place of the subnormal numbers. -/
def lastPlace (numerator denominator : Nat) : Int :=
  max (binaryExponent numerator denominator - 52) (-1074)

/-- A natural number of units of the place `2 ^ place`. -/
def scaled (units : Nat) (place : Int) : Rat :=
  mkRat (shifted units place) (shifted 1 (-place))

/-- The nonnegative rational number rounded to the format's grid, without a bound on the
exponent. -/
def roundMagnitude (numerator denominator : Nat) : Rat :=
  if numerator = 0 then 0
  else
    let place := lastPlace numerator denominator
    scaled (roundQuotient (shifted numerator (-place)) (shifted denominator place)) place

/-- From this number on, magnitudes are infinite: `2 ^ 1024`. -/
def limit : Rat := scaled 1 1024

/-- The nearest value of the format; from the limit on, infinity. -/
def round (exact : Rat) : Binary64 :=
  let magnitude := roundMagnitude exact.num.natAbs exact.den
  if limit ≤ magnitude then infinite (exact < 0)
  else if exact < 0 then finite (-magnitude)
  else finite magnitude

/-- Whether `significand · 10 ^ exponent` rounds to a finite value.  Exponents far outside of the
format's range are decided without writing the number out. -/
def isFiniteDecimal (significand : Nat) (exponent : Int) : Bool :=
  let size := (Nat.toDigits 10 significand).length + exponent
  if significand = 0 ∨ size ≤ 308 then true
  else if 310 < size then false
  else
    match round (mkRat (shiftedDecimal significand exponent) (shiftedDecimal 1 (-exponent))) with
    | finite _ => true
    | _ => false

def isZero : Binary64 → Bool
  | finite value => value = 0
  | _ => false

def negate : Binary64 → Binary64
  | finite value => finite (-value)
  | infinite negative => infinite (!negative)
  | nan => nan

def add : Binary64 → Binary64 → Binary64
  | finite a, finite b => round (a + b)
  | nan, _ => nan
  | _, nan => nan
  | infinite a, infinite b => if a = b then infinite a else nan
  | infinite a, finite _ => infinite a
  | finite _, infinite b => infinite b

def subtract (a b : Binary64) : Binary64 :=
  add a (negate b)

def multiply : Binary64 → Binary64 → Binary64
  | finite a, finite b => round (a * b)
  | nan, _ => nan
  | _, nan => nan
  | infinite a, infinite b => infinite (a != b)
  | infinite a, finite b => if b = 0 then nan else infinite (a != decide (b < 0))
  | finite a, infinite b => if a = 0 then nan else infinite (b != decide (a < 0))

/-- The quotient, for a divisor other than zero. -/
def divide : Binary64 → Binary64 → Binary64
  | finite a, finite b => round (a / b)
  | nan, _ => nan
  | _, nan => nan
  | infinite _, infinite _ => nan
  | infinite a, finite b => infinite (a != decide (b < 0))
  | finite _, infinite _ => finite 0

/-- The bit above the fraction, which a normal number has without writing it: `2 ^ 52`. -/
def hiddenBit : Nat := 4503599627370496

/-- The bit of the sign: `2 ^ 63`. -/
def signBit : Nat := 9223372036854775808

/-- The bit that tells a quiet value that is no number: `2 ^ 51`. -/
def quietBit : Nat := 2251799813685248

/-- The bits of a value: sign, eleven bits of biased exponent, 52 bits of fraction. -/
def pattern : Binary64 → Nat
  | finite value =>
    let numerator := value.num.natAbs
    if numerator = 0 then 0
    else
      let sign := if value < 0 then signBit else 0
      let place := lastPlace numerator value.den
      let units := shifted numerator (-place) / shifted value.den place
      if units < hiddenBit then sign + units
      else sign + (place + 1075).toNat * hiddenBit + (units - hiddenBit)
  | infinite negative => (if negative then signBit else 0) + 2047 * hiddenBit
  | nan => 2047 * hiddenBit + quietBit

/-- The bits as sixteen hexadecimal digits. -/
def hexadecimal (value : Binary64) : String :=
  let digits := Nat.toDigits 16 value.pattern
  String.ofList (List.replicate (16 - digits.length) '0' ++ digits)

/-- A decimal numeral `units / 10 ^ places`. -/
structure Numeral where
  units : Nat
  places : Int
  deriving DecidableEq, Repr

def Numeral.value (numeral : Numeral) : Rat :=
  mkRat (shiftedDecimal numeral.units (-numeral.places)) (shiftedDecimal 1 numeral.places)

/-- The two numerals with the given number of places next to a nonnegative number, the nearer one
first; of two equally near ones the larger first. -/
def neighbours (value : Rat) (places : Int) : List Numeral :=
  let units := value * mkRat (shiftedDecimal 1 places) (shiftedDecimal 1 (-places))
  let below := units.floor.toNat
  let above := units.ceil.toNat
  if units - below < above - units then [⟨below, places⟩, ⟨above, places⟩]
  else [⟨above, places⟩, ⟨below, places⟩]

/-- The first number of places, from the given one on, at which a neighbouring numeral rounds to
the value. -/
def shortestFrom (value : Rat) (places : Int) : Nat → Numeral
  | 0 => ⟨value.floor.toNat, 0⟩
  | fuel + 1 =>
    match (neighbours value places).find? fun numeral => round numeral.value = finite value with
    | some numeral => numeral
    | none => shortestFrom value (places + 1) fuel

/-- The numeral with the fewest places that reads back as the nonnegative value.  No value of the
format needs more than 1074 places or more than 309 digits before the point. -/
def shortest (value : Rat) : Numeral :=
  let leading := (Nat.toDigits 10 value.floor.toNat).length
  shortestFrom value (1 - (leading : Int)) (leading + 1075)

/-- Positional notation, with a point only before digits that follow it. -/
def Numeral.text (numeral : Numeral) : String :=
  if numeral.places ≤ 0 then toString (shiftedDecimal numeral.units (-numeral.places))
  else
    let places := numeral.places.toNat
    let fraction := Nat.toDigits 10 (numeral.units % Nat.pow 10 places)
    toString (numeral.units / Nat.pow 10 places) ++ "." ++
      String.ofList (List.replicate (places - fraction.length) '0' ++ fraction)

/-- The shortest decimal text that reads back as the value. -/
def decimal (value : Rat) : String :=
  if value < 0 then "-" ++ (shortest (-value)).text else (shortest value).text

end Binary64

end EquationPuzzle
