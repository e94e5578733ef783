import EquationPuzzle.Json
import EquationPuzzle.Text.Numeral

/-!
# Reading JSON

A text is cut into tokens, and the tokens are put together to one value.  The grammar is strict: no
comments, no trailing commas, no leading zeros, no control characters inside strings, and nothing
but blanks after the value.
-/

namespace EquationPuzzle.Json

inductive Token where
  | openArray
  | closeArray
  | openObject
  | closeObject
  | colon
  | comma
  | scalar (value : Json)

/-- Four hexadecimal digits. -/
def hexadecimalUnit? : List Char → Option (Nat × List Char)
  | a :: b :: c :: d :: rest => do return (← Text.natural? 16 [a, b, c, d], rest)
  | _ => none

/-- The character of an escape by a single letter. -/
def escaped? : Char → Option Char
  | '"' => some '"'
  | '\\' => some '\\'
  | '/' => some '/'
  | 'b' => some '\x08'
  | 'f' => some '\x0c'
  | 'n' => some '\n'
  | 'r' => some '\r'
  | 't' => some '\t'
  | _ => none

/-- The second half of a surrogate pair, written as an escape. -/
def lowSurrogate? : List Char → Option (Nat × List Char)
  | '\\' :: 'u' :: rest =>
    match hexadecimalUnit? rest with
    | some (unit, rest) => if 0xDC00 ≤ unit ∧ unit ≤ 0xDFFF then some (unit, rest) else none
    | none => none
  | _ => none

/-- The rest of a string after its opening quote: the characters read so far in reverse, and whether
all surrogates were paired.  The fuel bounds the number of characters. -/
def readString (characters : List Char) (paired : Bool) :
    Nat → List Char → Option (Json × List Char)
  | 0, _ => none
  | fuel + 1, input =>
    match input with
    | [] => none
    | '"' :: rest =>
      some (if paired then .string (String.ofList characters.reverse) else .unpaired, rest)
    | '\\' :: 'u' :: rest =>
      match hexadecimalUnit? rest with
      | none => none
      | some (unit, rest) =>
        if 0xD800 ≤ unit ∧ unit ≤ 0xDBFF then
          match lowSurrogate? rest with
          | some (low, rest) =>
            let code := 0x10000 + (unit - 0xD800) * 0x400 + (low - 0xDC00)
            readString (Char.ofNat code :: characters) paired fuel rest
          | none => readString characters false fuel rest
        else if 0xDC00 ≤ unit ∧ unit ≤ 0xDFFF then readString characters false fuel rest
        else readString (Char.ofNat unit :: characters) paired fuel rest
    | '\\' :: c :: rest =>
      match escaped? c with
      | some character => readString (character :: characters) paired fuel rest
      | none => none
    | c :: rest =>
      if c = '\\' ∨ c.toNat < 32 then none else readString (c :: characters) paired fuel rest

/-- The fraction of a numeral, without its point. -/
def readFraction : List Char → Option (List Char × List Char)
  | '.' :: rest =>
    let digits := rest.takeWhile Char.isDigit
    if digits.isEmpty then none else some (digits, rest.dropWhile Char.isDigit)
  | rest => some ([], rest)

/-- The exponent of a numeral, if there is one. -/
def readExponent : List Char → Option (Option Int × List Char)
  | c :: rest =>
    if c = 'e' ∨ c = 'E' then
      let (negative, rest) := match rest with
        | '+' :: rest => (false, rest)
        | '-' :: rest => (true, rest)
        | rest => (false, rest)
      let digits := rest.takeWhile Char.isDigit
      if digits.isEmpty then none
      else
        let exponent : Int := Text.naturalOfDigits digits
        some (some (if negative then -exponent else exponent), rest.dropWhile Char.isDigit)
    else some (none, c :: rest)
  | [] => some (none, [])

/-- A numeral after its sign. -/
def readNumeral (negative : Bool) (input : List Char) : Option (Json × List Char) := do
  let whole := input.takeWhile Char.isDigit
  if whole.isEmpty ∨ (whole.length > 1 ∧ whole.head? = some '0') then none
  let (fraction, rest) ← readFraction (input.dropWhile Char.isDigit)
  let (exponent, rest) ← readExponent rest
  let significand := Text.naturalOfDigits (whole ++ fraction)
  if fraction.isEmpty ∧ exponent.isNone ∧ ¬(negative ∧ significand = 0) then
    return (.integer (if negative then -significand else significand), rest)
  return (.decimal negative significand (exponent.getD 0 - fraction.length), rest)

def readWord (input : List Char) : Option (Json × List Char) :=
  let words : List (String × Json) :=
    [("null", .null), ("true", .bool true), ("false", .bool false)]
  words.findSome? fun (word, value) =>
    if word.toList.isPrefixOf input then some (value, input.drop word.length) else none

def readToken (input : List Char) : Option (Token × List Char) :=
  match input with
  | '[' :: rest => some (.openArray, rest)
  | ']' :: rest => some (.closeArray, rest)
  | '\x7b' :: rest => some (.openObject, rest)
  | '\x7d' :: rest => some (.closeObject, rest)
  | ':' :: rest => some (.colon, rest)
  | ',' :: rest => some (.comma, rest)
  | '"' :: rest => do
    let (value, rest) ← readString [] true (rest.length + 1) rest
    return (.scalar value, rest)
  | '-' :: rest => do
    let (value, rest) ← readNumeral true rest
    return (.scalar value, rest)
  | c :: rest => do
    let (value, rest) ← if c.isDigit then readNumeral false (c :: rest) else readWord (c :: rest)
    return (.scalar value, rest)
  | [] => none

def isBlank (c : Char) : Bool :=
  c = ' ' || c = '\n' || c = '\t' || c = '\r'

/-- All tokens of a text, of which each takes at least one character. -/
def tokens : Nat → List Char → Option (List Token)
  | 0, input => if input.all isBlank then some [] else none
  | fuel + 1, input =>
    match input.dropWhile isBlank with
    | [] => some []
    | c :: rest => do
      let (token, rest) ← readToken (c :: rest)
      return token :: (← tokens fuel rest)

mutual

/-- One value at the start of the tokens.  The fuel bounds the number of steps. -/
def readValue : Nat → List Token → Option (Json × List Token)
  | 0, _ => none
  | fuel + 1, input =>
    match input with
    | .scalar value :: rest => some (value, rest)
    | .openArray :: .closeArray :: rest => some (.array [], rest)
    | .openArray :: rest => do
      let (items, rest) ← readItems fuel rest
      return (.array items, rest)
    | .openObject :: .closeObject :: rest => some (.object [], rest)
    | .openObject :: rest => do
      let (members, rest) ← readMembers fuel rest
      return (.object members, rest)
    | _ => none

/-- The items of an array up to its end, at least one. -/
def readItems : Nat → List Token → Option (List Json × List Token)
  | 0, _ => none
  | fuel + 1, input => do
    match ← readValue fuel input with
    | (item, .closeArray :: rest) => return ([item], rest)
    | (item, .comma :: rest) =>
      let (items, rest) ← readItems fuel rest
      return (item :: items, rest)
    | _ => none

/-- The members of an object up to its end, at least one. -/
def readMembers : Nat → List Token → Option (List (Json × Json) × List Token)
  | 0, _ => none
  | fuel + 1, input =>
    match input with
    | .scalar key :: .colon :: rest =>
      if isKey key then do
        match ← readValue fuel rest with
        | (value, .closeObject :: rest) => return ([(key, value)], rest)
        | (value, .comma :: rest) =>
          let (members, rest) ← readMembers fuel rest
          return ((key, value) :: members, rest)
        | _ => none
      else none
    | _ => none
where
  isKey : Json → Bool
    | .string _ => true
    | .unpaired => true
    | _ => false

end

/-- The value written in a text. -/
def ofText? (text : String) : Option Json := do
  let input := text.toList
  let tokens ← tokens input.length input
  match ← readValue (2 * tokens.length + 2) tokens with
  | (value, []) => return value
  | _ => none

end EquationPuzzle.Json
