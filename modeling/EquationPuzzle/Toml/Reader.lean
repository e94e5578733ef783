import EquationPuzzle.Toml.Scalar
import EquationPuzzle.Toml.Table

/-!
# Reading TOML

A document is read line by line: assignments, headers of tables, and blank lines, each with an
optional comment.  Strings and lists may extend over several lines.  All readers take characters
from the front and give back the rest; fuel bounds the number of their steps by the length of the
text.
-/

namespace EquationPuzzle.Toml

def isSpace (c : Char) : Bool :=
  c = ' ' || c = '\t'

def skipSpaces (input : List Char) : List Char :=
  input.dropWhile isSpace

/-- Characters that may stand in comments and strings as they are. -/
def isPlain (c : Char) : Bool :=
  c = '\t' || (32 ≤ c.toNat && c.toNat ≠ 127)

/-- What follows a line break, if there is one. -/
def readBreak? : List Char → Option (List Char)
  | '\n' :: rest => some rest
  | '\r' :: '\n' :: rest => some rest
  | _ => none

def skipComment : List Char → List Char
  | '#' :: rest => rest.dropWhile isPlain
  | rest => rest

/-- The rest of a line that must hold nothing more than a comment. -/
def readLineEnd (input : List Char) : Option (List Char) :=
  match skipComment (skipSpaces input) with
  | [] => some []
  | rest => readBreak? rest

/-- Blanks, line breaks and comments inside a list. -/
def skipLines : Nat → List Char → List Char
  | 0, input => input
  | fuel + 1, input =>
    let rest := skipComment (skipSpaces input)
    match readBreak? rest with
    | some rest => skipLines fuel rest
    | none => rest

/-- A character given by a number of hexadecimal digits. -/
def readCode (count : Nat) (input : List Char) : Option (Char × List Char) := do
  let written := input.take count
  if written.length ≠ count then none
  let code ← Text.natural? 16 written
  if code.isValidChar then return (Char.ofNat code, input.drop count)
  none

/-- A character after a backslash. -/
def readEscape : List Char → Option (Char × List Char)
  | 'b' :: rest => some ('\x08', rest)
  | 't' :: rest => some ('\t', rest)
  | 'n' :: rest => some ('\n', rest)
  | 'f' :: rest => some ('\x0c', rest)
  | 'r' :: rest => some ('\r', rest)
  | '"' :: rest => some ('"', rest)
  | '\\' :: rest => some ('\\', rest)
  | 'u' :: rest => readCode 4 rest
  | 'U' :: rest => readCode 8 rest
  | _ => none

/-- A string with escapes, after its opening quote. -/
def readBasic : Nat → List Char → Option (List Char × List Char)
  | 0, _ => none
  | fuel + 1, input =>
    match input with
    | [] => none
    | '"' :: rest => some ([], rest)
    | '\\' :: rest => do
      let (c, rest) ← readEscape rest
      let (characters, rest) ← readBasic fuel rest
      return (c :: characters, rest)
    | c :: rest =>
      if isPlain c then do
        let (characters, rest) ← readBasic fuel rest
        return (c :: characters, rest)
      else none

/-- A string without escapes, after its opening quote. -/
def readLiteral (input : List Char) : Option (List Char × List Char) :=
  match input.dropWhile fun c => isPlain c && c ≠ '\'' with
  | '\'' :: rest => some (input.takeWhile fun c => isPlain c && c ≠ '\'', rest)
  | _ => none

/-- Three quotes that close a long string, with up to two more in front that belong to it. -/
def readClosing? (quote : Char) (input : List Char) : Option (List Char × List Char) :=
  let quotes := input.takeWhile (· = quote)
  if quotes.length < 3 then none
  else
    let inside := min (quotes.length - 3) 2
    some (List.replicate inside quote, input.drop (inside + 3))

/-- The blanks and line breaks that a backslash at the end of a line removes. -/
def readContinuation? (input : List Char) : Option (List Char) :=
  match readBreak? (skipSpaces input) with
  | none => none
  | some rest => some (rest.dropWhile fun c => isSpace c || c = '\n' || c = '\r')

/-- A string over several lines, after its opening quotes. -/
def readLong (quote : Char) : Nat → List Char → Option (List Char × List Char)
  | 0, _ => none
  | fuel + 1, input =>
    match readClosing? quote input with
    | some (inside, rest) => some (inside, rest)
    | none =>
      match readBreak? input with
      | some rest => do
        let (characters, rest) ← readLong quote fuel rest
        return ('\n' :: characters, rest)
      | none =>
        match input with
        | [] => none
        | c :: rest =>
          if c = '\\' ∧ quote = '"' then
            match readContinuation? rest with
            | some rest => readLong quote fuel rest
            | none => do
              let (c, rest) ← readEscape rest
              let (characters, rest) ← readLong quote fuel rest
              return (c :: characters, rest)
          else if isPlain c then do
            let (characters, rest) ← readLong quote fuel rest
            return (c :: characters, rest)
          else none

/-- A quoted text in any of the four forms. -/
def readText? (input : List Char) : Option (String × List Char) :=
  let long (quote : Char) (rest : List Char) : Option (String × List Char) := do
    let rest := (readBreak? rest).getD rest
    let (characters, rest) ← readLong quote (rest.length + 1) rest
    return (String.ofList characters, rest)
  match input with
  | '"' :: '"' :: '"' :: rest => long '"' rest
  | '\'' :: '\'' :: '\'' :: rest => long '\'' rest
  | '"' :: rest => do
    let (characters, rest) ← readBasic (rest.length + 1) rest
    return (String.ofList characters, rest)
  | '\'' :: rest => do
    let (characters, rest) ← readLiteral rest
    return (String.ofList characters, rest)
  | _ => none

def isKeyCharacter (c : Char) : Bool :=
  c.isAlphanum || c = '_' || c = '-'

/-- One part of a key. -/
def readKeyPart (input : List Char) : Option (String × List Char) :=
  match input with
  | '"' :: rest => do
    let (characters, rest) ← readBasic (rest.length + 1) rest
    return (String.ofList characters, rest)
  | '\'' :: rest => do
    let (characters, rest) ← readLiteral rest
    return (String.ofList characters, rest)
  | _ =>
    let part := input.takeWhile isKeyCharacter
    if part.isEmpty then none
    else some (String.ofList part, input.dropWhile isKeyCharacter)

/-- A key with its parts, and the spaces after it. -/
def readPath : Nat → List Char → Option (List String × List Char)
  | 0, _ => none
  | fuel + 1, input => do
    let (part, rest) ← readKeyPart (skipSpaces input)
    match skipSpaces rest with
    | '.' :: rest =>
      let (path, rest) ← readPath fuel rest
      return (part :: path, rest)
    | rest => return ([part], rest)

def isScalarCharacter (c : Char) : Bool :=
  c.isAlphanum || c = '_' || c = '+' || c = '-' || c = '.' || c = ':'

/-- An unquoted value.  A space may stand between a date and a time. -/
def readScalar (input : List Char) : Option (Datum × List Char) := do
  let word := input.takeWhile isScalarCharacter
  let rest := input.dropWhile isScalarCharacter
  let (word, rest) := match readDate word, rest with
    | some [], ' ' :: c :: following =>
      if c.isDigit then
        (word ++ ' ' :: (c :: following).takeWhile isScalarCharacter,
          (c :: following).dropWhile isScalarCharacter)
      else (word, rest)
    | _, _ => (word, rest)
  return (← scalar? word, rest)

mutual

def readValue : Nat → List Char → Option (Datum × List Char)
  | 0, _ => none
  | fuel + 1, input =>
    match input with
    | '[' :: rest => do
      let (items, rest) ← readItems fuel (skipLines rest.length rest)
      return (.list items, rest)
    | '\x7b' :: rest =>
      match skipSpaces rest with
      | '\x7d' :: rest => some (.map [], rest)
      | rest => do
        let (entries, rest) ← readEntries fuel [] rest
        return (.map (Node.dataOfEntries entries), rest)
    | _ =>
      match readText? input with
      | some (text, rest) => some (.text text, rest)
      | none => readScalar input

/-- The items of a list up to its end.  A comma may follow the last one. -/
def readItems : Nat → List Char → Option (List Datum × List Char)
  | 0, _ => none
  | _ + 1, ']' :: rest => some ([], rest)
  | fuel + 1, input => do
    let (item, rest) ← readValue fuel input
    match skipLines rest.length rest with
    | ']' :: rest => return ([item], rest)
    | ',' :: rest =>
      let (items, rest) ← readItems fuel (skipLines rest.length rest)
      return (item :: items, rest)
    | _ => none

/-- The entries of a table on one line, up to its end. -/
def readEntries : Nat → Entries → List Char → Option (Entries × List Char)
  | 0, _, _ => none
  | fuel + 1, entries, input => do
    let (path, rest) ← readPath input.length input
    match rest with
    | '=' :: rest =>
      let (datum, rest) ← readValue fuel (skipSpaces rest)
      let entries ← Entries.assign? datum path entries
      match skipSpaces rest with
      | '\x7d' :: rest => return (entries, rest)
      | ',' :: rest => readEntries fuel entries rest
      | _ => none
    | _ => none

end

/-- A line that is not blank. -/
def readStatement (input : List Char) : Option (Statement × List Char) := do
  match input with
  | '[' :: '[' :: rest =>
    match ← readPath rest.length rest with
    | (path, ']' :: ']' :: rest) => return (.elementHeader path, rest)
    | _ => none
  | '[' :: rest =>
    match ← readPath rest.length rest with
    | (path, ']' :: rest) => return (.header path, rest)
    | _ => none
  | _ =>
    match ← readPath input.length input with
    | (path, '=' :: rest) =>
      let (datum, rest) ← readValue (2 * input.length) (skipSpaces rest)
      return (.assign path datum, rest)
    | _ => none

/-- All lines of a document. -/
def readStatements : Nat → List Char → Option (List Statement)
  | 0, input => if input.isEmpty then some [] else none
  | fuel + 1, input =>
    match skipLines input.length input with
    | [] => some []
    | rest => do
      let (statement, rest) ← readStatement rest
      return statement :: (← readStatements fuel (← readLineEnd rest))

/-- The document written in a text, which a byte order mark may precede. -/
def ofText? (text : String) : Option Document := do
  let input := match text.toList with
    | '\uFEFF' :: rest => rest
    | input => input
  Document.ofStatements? (← readStatements (input.length + 1) input)

end EquationPuzzle.Toml
