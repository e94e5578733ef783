import EquationPuzzle.Calendar.Day

/-!
# Timestamps

Points in universal time to the nanosecond.  A leap second is counted as part of the second before
it, so that the fraction of a second may reach up to two seconds.  A timestamp may be read in any
offset from universal time, and is always written in universal time.
-/

namespace EquationPuzzle

def secondsPerDay : Nat := 86400

def nanosecondsPerSecond : Nat := 1000000000

structure Timestamp where
  day : Day
  /-- Whole seconds since midnight. -/
  second : Nat
  /-- Nanoseconds since that second began. -/
  fraction : Nat
  second_lt : second < secondsPerDay
  fraction_lt : fraction < 2 * nanosecondsPerSecond
  deriving DecidableEq

namespace Timestamp

def ofParts? (day : Day) (second fraction : Nat) : Option Timestamp :=
  if valid : second < secondsPerDay ∧ fraction < 2 * nanosecondsPerSecond then
    some ⟨day, second, fraction, valid.1, valid.2⟩
  else none

/-- The timestamp of a local time that is so many seconds ahead of universal time. -/
def ofLocal? (day : Day) (second fraction : Nat) (ahead : Int) : Option Timestamp := do
  let universal := (second : Int) - ahead
  if universal < 0 then
    ofParts? (← day.previous?) (universal + secondsPerDay).toNat fraction
  else if universal < secondsPerDay then ofParts? day universal.toNat fraction
  else ofParts? (← day.next?) (universal - secondsPerDay).toNat fraction

/-- The timestamp so many seconds and nanoseconds after the start of the year 1970. -/
def ofUnixTime? (seconds nanoseconds : Nat) : Option Timestamp := do
  let start ← Day.ofParts? 1970 1 1
  ofParts? (← start.later? (seconds / secondsPerDay)) (seconds % secondsPerDay) nanoseconds

/-- As few groups of three digits as write the fraction exactly. -/
def fractionText (fraction : Nat) : String :=
  if fraction = 0 then ""
  else if fraction % 1000000 = 0 then "." ++ Text.padded 3 (fraction / 1000000)
  else if fraction % 1000 = 0 then "." ++ Text.padded 6 (fraction / 1000)
  else "." ++ Text.padded 9 fraction

def text (t : Timestamp) : String :=
  let leap := t.fraction / nanosecondsPerSecond
  t.day.text ++ "T" ++ Text.padded 2 (t.second / 3600) ++ ":" ++
    Text.padded 2 (t.second / 60 % 60) ++ ":" ++ Text.padded 2 (t.second % 60 + leap) ++
    fractionText (t.fraction % nanosecondsPerSecond) ++ "Z"

/-- Whole seconds and nanoseconds of a clock time.  The second 60 is a leap second. -/
def clock? (hour minute second nanosecond : Nat) : Option (Nat × Nat) :=
  if hour < 24 ∧ minute < 60 ∧ second ≤ 60 then
    let start := hour * 3600 + minute * 60
    if second = 60 then some (start + 59, nanosecondsPerSecond + nanosecond)
    else some (start + second, nanosecond)
  else none

/-- The nanoseconds of a fraction.  Digits after the ninth are passed over. -/
def readFraction : List Char → Option (Nat × List Char)
  | '.' :: rest =>
    let (digits, rest) := Text.spanDigits rest
    if digits.isEmpty then none
    else
      let kept := digits.take 9
      some (Text.naturalOfDigits kept * Nat.pow 10 (9 - kept.length), rest)
  | rest => some (0, rest)

/-- Two digits. -/
def readPair : List Char → Option (Nat × List Char)
  | a :: b :: rest =>
    if a.isDigit ∧ b.isDigit then some (Text.naturalOfDigits [a, b], rest) else none
  | _ => none

/-- Hours and minutes of an offset, with colons or blanks between them, as seconds. -/
def readSpread (characters : List Char) : Option (Nat × List Char) := do
  let (hours, rest) ← readPair characters
  let (minutes, rest) ← readPair (rest.dropWhile fun c => c = ':' || Text.isBlank c)
  if 60 ≤ minutes then none
  let seconds := hours * 3600 + minutes * 60
  if secondsPerDay ≤ seconds then none
  return (seconds, rest)

/-- The seconds by which an offset is ahead of universal time. -/
def readOffset (characters : List Char) : Option (Int × List Char) :=
  match characters with
  | 'Z' :: rest => some (0, rest)
  | 'z' :: rest => some (0, rest)
  | '+' :: rest => do
    let (seconds, rest) ← readSpread rest
    return ((seconds : Int), rest)
  | '-' :: rest => behind rest
  | '\u2212' :: rest => behind rest
  | u :: t :: c :: rest =>
    if [u, t, c].map Char.toUpper = ['U', 'T', 'C'] then some (0, rest) else none
  | _ => none
where
  behind (rest : List Char) : Option (Int × List Char) := do
    let (seconds, rest) ← readSpread rest
    return (-(seconds : Int), rest)

def ofText? (text : String) : Option Timestamp := do
  let (day, rest) ← Day.read text.toList
  let rest ← match rest with
    | c :: rest => if c = 'T' ∨ c = 't' ∨ c = ' ' then some rest else none
    | [] => none
  let (hour, rest) ← Day.readPart rest
  let (minute, rest) ← Day.readPart (← Day.readMark ':' rest)
  let (second, rest) ← Day.readPart (← Day.readMark ':' rest)
  let (nanosecond, rest) ← readFraction rest
  let (ahead, rest) ← readOffset (Text.skipBlanks rest)
  if !(Text.skipBlanks rest).isEmpty then none
  let (second, fraction) ← clock? hour minute second nanosecond
  ofLocal? day second fraction ahead

end Timestamp

end EquationPuzzle
