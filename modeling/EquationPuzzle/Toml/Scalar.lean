import EquationPuzzle.Binary64
import EquationPuzzle.Calendar.Day
import EquationPuzzle.Datum

/-!
# TOML scalars

Unquoted values of TOML: booleans, whole numbers in four bases, decimal numbers, and dates and
times.  A date or time is data only as the text it is written with.
-/

namespace EquationPuzzle.Toml

/-- The digits of a numeral without its underscores, each of which must stand between digits. -/
def digits? (isDigit : Char → Bool) : List Char → Option (List Char)
  | [] => none
  | [c] => if isDigit c then some [c] else none
  | c :: '_' :: rest => if isDigit c then (digits? isDigit rest).map (c :: ·) else none
  | c :: rest => if isDigit c then (digits? isDigit rest).map (c :: ·) else none

def isDigitOf (base : Nat) (c : Char) : Bool :=
  (Text.digit? base c).isSome

/-- A number whose digits may be grouped by underscores. -/
def natural? (base : Nat) (characters : List Char) : Option Nat := do
  Text.natural? base (← digits? (isDigitOf base) characters)

/-- A sign, and what follows it. -/
def splitSign : List Char → Option Char × List Char
  | '+' :: rest => (some '+', rest)
  | '-' :: rest => (some '-', rest)
  | rest => (none, rest)

/-- Decimal digits without a superfluous zero in front. -/
def decimal? (characters : List Char) : Option Nat :=
  if characters.length > 1 ∧ characters.head? = some '0' then none else natural? 10 characters

/-- A whole number.  Signs stand before decimal digits only. -/
def integer? (characters : List Char) : Option Int :=
  match characters with
  | '0' :: 'x' :: rest => (natural? 16 rest).map Int.ofNat
  | '0' :: 'o' :: rest => (natural? 8 rest).map Int.ofNat
  | '0' :: 'b' :: rest => (natural? 2 rest).map Int.ofNat
  | _ =>
    let (sign, rest) := splitSign characters
    (decimal? rest).map fun value => if sign = some '-' then -(value : Int) else value

/-- Whether the characters are a decimal number: with a fraction or an exponent, or one of the
names of the special values. -/
def isReal (characters : List Char) : Bool :=
  let (_, rest) := splitSign characters
  if rest = "inf".toList ∨ rest = "nan".toList then true
  else
    let isExponentMark (c : Char) : Bool := c = 'e' || c = 'E'
    let mantissa := rest.takeWhile fun c => !isExponentMark c
    let exponent? : Option (Option Int) :=
      match rest.dropWhile fun c => !isExponentMark c with
      | [] => some none
      | _ :: written =>
        let (sign, digits) := splitSign written
        (natural? 10 digits).map fun value =>
          some (if sign = some '-' then -(value : Int) else value)
    let whole := mantissa.takeWhile (· ≠ '.')
    let fraction? : Option (List Char) :=
      match mantissa.dropWhile (· ≠ '.') with
      | [] => some []
      | _ :: written => digits? Char.isDigit written
    match decimal? whole, fraction?, exponent? with
    | some _, some fraction, some exponent =>
      (!fraction.isEmpty || exponent.isSome) &&
        Binary64.isFiniteDecimal (Text.naturalOfDigits (whole.filter Char.isDigit ++ fraction))
          (exponent.getD 0 - fraction.length)
    | _, _, _ => false

/-- Two digits below a bound. -/
def readPair (bound : Nat) : List Char → Option (List Char)
  | a :: b :: rest =>
    if a.isDigit ∧ b.isDigit ∧ Text.naturalOfDigits [a, b] < bound then some rest else none
  | _ => none

def readMark (mark : Char) : List Char → Option (List Char)
  | c :: rest => if c = mark then some rest else none
  | [] => none

/-- A clock time with seconds and possibly a fraction. -/
def readTime (characters : List Char) : Option (List Char) := do
  let rest ← readPair 24 characters
  let rest ← readPair 60 (← readMark ':' rest)
  let rest ← readPair 61 (← readMark ':' rest)
  match rest with
  | '.' :: rest =>
    let (digits, rest) := Text.spanDigits rest
    if digits.isEmpty then none else some rest
  | rest => some rest

/-- An offset from universal time, or none. -/
def isOffset : List Char → Bool
  | [] => true
  | [c] => c = 'Z' || c = 'z'
  | c :: rest =>
    (c = '+' || c = '-') &&
      (do
        let rest ← readPair 24 rest
        let rest ← readPair 60 (← readMark ':' rest)
        return rest.isEmpty).getD false

/-- A date of four, two and two digits, and what follows it. -/
def readDate (characters : List Char) : Option (List Char) := do
  let (year, rest) := Text.spanDigits characters
  if year.length ≠ 4 then none
  let monthRest ← readMark '-' rest
  let (month, rest) := Text.spanDigits monthRest
  let dayRest ← readMark '-' rest
  let (day, rest) := Text.spanDigits dayRest
  if month.length ≠ 2 ∨ day.length ≠ 2 then none
  let _ ← Day.ofParts? (Text.naturalOfDigits year) (Text.naturalOfDigits month)
    (Text.naturalOfDigits day)
  return rest

/-- Whether the characters are a date, a time, or both. -/
def isMoment (characters : List Char) : Bool :=
  match readDate characters with
  | some [] => true
  | some (c :: rest) =>
    (c = 'T' || c = 't' || c = ' ') && ((readTime rest).map isOffset).getD false
  | none => ((readTime characters).map List.isEmpty).getD false

/-- The data of an unquoted value.  Whole numbers must fit into 64 bits, signed or unsigned. -/
def scalar? (characters : List Char) : Option Datum :=
  if characters = "true".toList then some (.bool true)
  else if characters = "false".toList then some (.bool false)
  else match integer? characters with
    | some value =>
      if Datum.integerMin ≤ value ∧ value ≤ Datum.integerMax then some (.integer value) else none
    | none =>
      if isReal characters then some .real
      else if isMoment characters then some (.text (String.ofList characters))
      else none

end EquationPuzzle.Toml
