import EquationPuzzle.Text.Blank
import EquationPuzzle.Text.Numeral

/-!
# Days

The days of the Gregorian calendar, extended to all years from -262143 to 262142, in their order.  A
day is written as year, month and day with hyphens between them.  Years with more than four digits
and years before the year zero are written with a sign.
-/

namespace EquationPuzzle

/-- Whether a year has a 29th of February. -/
def isLeapYear (year : Int) : Bool :=
  year % 4 = 0 && (year % 100 ≠ 0 || year % 400 = 0)

def daysInMonth (year : Int) (month : Nat) : Nat :=
  if month = 2 then (if isLeapYear year then 29 else 28)
  else if month = 4 ∨ month = 6 ∨ month = 9 ∨ month = 11 then 30
  else 31

namespace Day

def firstYear : Int := -262143

def lastYear : Int := 262142

/-- Whether the calendar has such a day. -/
abbrev Valid (year : Int) (month day : Nat) : Prop :=
  firstYear ≤ year ∧ year ≤ lastYear ∧ 1 ≤ month ∧ month ≤ 12 ∧ 1 ≤ day ∧
    day ≤ daysInMonth year month

end Day

structure Day where
  year : Int
  month : Nat
  day : Nat
  valid : Day.Valid year month day
  deriving DecidableEq

namespace Day

def ofParts? (year : Int) (month day : Nat) : Option Day :=
  if valid : Valid year month day then some ⟨year, month, day, valid⟩ else none

instance : Hashable Day := ⟨fun d => hash (d.year, d.month, d.day)⟩

/-- The days before the first of January of a year, counted from that of the year one. -/
def daysBeforeYear (year : Int) : Int :=
  365 * (year - 1) + (year - 1) / 4 - (year - 1) / 100 + (year - 1) / 400

/-- The days of a year before the first of a month. -/
def daysBeforeMonth (year : Int) (month : Nat) : Nat :=
  (List.range (month - 1)).foldl (fun days earlier => days + daysInMonth year (earlier + 1)) 0

/-- The number of a day in the order of all days. -/
def ordinal (d : Day) : Int :=
  daysBeforeYear d.year + daysBeforeMonth d.year d.month + d.day

instance : Ord Day := ⟨fun a b => compare a.ordinal b.ordinal⟩

/-- The day after, unless this is the last one. -/
def next? (d : Day) : Option Day :=
  if d.day < daysInMonth d.year d.month then ofParts? d.year d.month (d.day + 1)
  else if d.month < 12 then ofParts? d.year (d.month + 1) 1
  else ofParts? (d.year + 1) 1 1

/-- The day before, unless this is the first one. -/
def previous? (d : Day) : Option Day :=
  if 1 < d.day then ofParts? d.year d.month (d.day - 1)
  else if 1 < d.month then ofParts? d.year (d.month - 1) (daysInMonth d.year (d.month - 1))
  else ofParts? (d.year - 1) 12 31

/-- The day so many days after. -/
def later? (d : Day) : Nat → Option Day
  | 0 => some d
  | count + 1 => d.next?.bind fun following => following.later? count

/-- At most so many days from a day on; the last of all days is left out. -/
def consecutive (d : Day) : Nat → List Day
  | 0 => []
  | count + 1 =>
    match d.next? with
    | none => []
    | some following => d :: following.consecutive count

/-- The days from the first to the last, both included; the last of all days is left out. -/
def span (first last : Day) : List Day :=
  first.consecutive (last.ordinal - first.ordinal + 1).toNat

/-- The first and the last day of a year. -/
def boundsOfYear? (year : Int) : Option (Day × Day) := do
  return (← ofParts? year 1 1, ← ofParts? year 12 31)

def yearText (year : Int) : String :=
  if 0 ≤ year ∧ year ≤ 9999 then Text.padded 4 year.toNat
  else (if year < 0 then "-" else "+") ++ Text.padded 4 year.natAbs

def text (d : Day) : String :=
  yearText d.year ++ "-" ++ Text.padded 2 d.month ++ "-" ++ Text.padded 2 d.day

instance : ToString Day := ⟨text⟩

/-- A year: at most four digits, or a sign and any number of digits. -/
def readYear (characters : List Char) : Option (Int × List Char) :=
  match Text.skipBlanks characters with
  | '-' :: rest => do
    let (year, rest) ← Text.readNatural rest.length rest
    return (-(year : Int), rest)
  | '+' :: rest => do
    let (year, rest) ← Text.readNatural rest.length rest
    return ((year : Int), rest)
  | rest => do
    let (year, rest) ← Text.readNatural 4 rest
    return ((year : Int), rest)

/-- A mark, possibly after blanks. -/
def readMark (mark : Char) (characters : List Char) : Option (List Char) :=
  match Text.skipBlanks characters with
  | c :: rest => if c = mark then some rest else none
  | [] => none

/-- A number of one or two digits, possibly after blanks. -/
def readPart (characters : List Char) : Option (Nat × List Char) :=
  Text.readNatural 2 (Text.skipBlanks characters)

/-- A day at the start of the characters. -/
def read (characters : List Char) : Option (Day × List Char) := do
  let (year, rest) ← readYear characters
  let (month, rest) ← readPart (← readMark '-' rest)
  let (day, rest) ← readPart (← readMark '-' rest)
  return (← ofParts? year month day, rest)

def ofText? (text : String) : Option Day := do
  let (d, rest) ← read text.toList
  if (Text.skipBlanks rest).isEmpty then some d else none

end Day

end EquationPuzzle
