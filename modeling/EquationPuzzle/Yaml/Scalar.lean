import EquationPuzzle.Text.Numeral
import EquationPuzzle.Yaml.Cursor

/-!
# YAML scalars

The five ways to write a text: plain, in single or double quotes, and as a literal or folded block.
A line break inside a plain or quoted text is folded: one break becomes a space, and of several the
first one is dropped.  All readers give back the text and the place behind it; fuel bounds the
number of their steps by the number of characters left.
-/

namespace EquationPuzzle.Yaml

/-- The blanks between two words: spaces on one line, or the breaks between lines. -/
structure Gap where
  spaces : List Char := []
  /-- Whether there was a line break. -/
  broken : Bool := false
  first : List Char := []
  others : List Char := []

namespace Gap

/-- What a gap stands for. -/
def folded (gap : Gap) : List Char :=
  if gap.broken then
    if gap.first = ['\n'] then (if gap.others.isEmpty then [' '] else gap.others)
    else gap.first ++ gap.others
  else gap.spaces

/-- The gap that starts at a place, and the place behind it.  Tabs that start a line to the left of
the given column are refused. -/
def read (tabLimit : Nat) (gap : Gap) : Nat → Cursor → Option (Gap × Cursor)
  | 0, _ => none
  | fuel + 1, cursor =>
    match cursor.peek? with
    | none => some (gap, cursor)
    | some c =>
      if isSpaceOrTab c then
        if gap.broken then
          if c = '\t' ∧ cursor.column < tabLimit then none
          else read tabLimit gap fuel cursor.skip
        else read tabLimit { gap with spaces := gap.spaces ++ [c] } fuel cursor.skip
      else if isBreak c then
        let gap :=
          if gap.broken then { gap with others := gap.others ++ cursor.breakText }
          else { gap with spaces := [], broken := true, first := cursor.breakText }
        read tabLimit gap fuel cursor.skipBreak
      else some (gap, cursor)

end Gap

/-- A text that has been read. -/
structure Scalar where
  text : List Char
  /-- Whether it stands without quotes on a line. -/
  plain : Bool
  /-- Whether a line break follows it directly. -/
  broken : Bool
  cursor : Cursor

namespace Plain

def isFlowMark (c : Char) : Bool :=
  c = ',' || c = '[' || c = ']' || c = '\x7b' || c = '\x7d'

/-- Whether a plain text ends here: before a colon that ends a word, and before the marks of a flow
collection inside one. -/
def endsAt (inFlow : Bool) (cursor : Cursor) : Bool :=
  cursor.endsWord 0 || (cursor.sees ':' 0 && cursor.endsWord 1) ||
    (inFlow && cursor.holds isFlowMark 0)

/-- Whether a colon stands where a flow collection allows none. -/
def isStray (inFlow : Bool) (cursor : Cursor) : Bool :=
  inFlow && cursor.sees ':' 0 && cursor.holds (fun c => isFlowMark c || c = '?') 1

/-- The characters of a run without blanks. -/
def readRun (inFlow : Bool) (run : List Char) : Nat → Cursor → Option (List Char × Cursor)
  | 0, _ => none
  | fuel + 1, cursor =>
    match cursor.peek? with
    | none => some (run.reverse, cursor)
    | some c =>
      if cursor.endsWord 0 then some (run.reverse, cursor)
      else if isStray inFlow cursor then none
      else if endsAt inFlow cursor then some (run.reverse, cursor)
      else readRun inFlow (c :: run) fuel cursor.skip

/-- A plain text whose further lines must be indented at least to the given column. -/
def read (inFlow : Bool) (indent : Nat) (text : List Char) (gap : Gap) :
    Nat → Cursor → Option Scalar
  | 0, _ => none
  | fuel + 1, cursor => do
    if cursor.atDocumentMark ∨ cursor.sees '#' 0 then return ⟨text, true, gap.broken, cursor⟩
    let (run, next) ← readRun inFlow [] (cursor.rest.length + 1) cursor
    let (text, gap) := if run.isEmpty then (text, gap) else (text ++ gap.folded ++ run, {})
    if ¬next.holds (fun c => isSpaceOrTab c || isBreak c) 0 then
      return ⟨text, true, gap.broken, next⟩
    let (gap, next) ← gap.read indent (next.rest.length + 1) next
    if ¬inFlow ∧ next.column < indent then return ⟨text, true, gap.broken, next⟩
    read inFlow indent text gap fuel next

end Plain

namespace Quoted

/-- The character of an escape by a single letter. -/
def escaped? : Char → Option Char
  | '0' => some '\x00'
  | 'a' => some '\x07'
  | 'b' => some '\x08'
  | 't' => some '\t'
  | '\t' => some '\t'
  | 'n' => some '\n'
  | 'v' => some '\x0b'
  | 'f' => some '\x0c'
  | 'r' => some '\r'
  | 'e' => some '\x1b'
  | ' ' => some ' '
  | '"' => some '"'
  | '/' => some '/'
  | '\\' => some '\\'
  | 'N' => some '\u0085'
  | '_' => some '\u00a0'
  | 'L' => some '\u2028'
  | 'P' => some '\u2029'
  | _ => none

/-- How many digits follow the letter of an escape by number. -/
def codeLength? : Char → Option Nat
  | 'x' => some 2
  | 'u' => some 4
  | 'U' => some 8
  | _ => none

/-- The character of an escape, after its backslash. -/
def readEscape (cursor : Cursor) : Option (Char × Cursor) := do
  let letter ← cursor.peek?
  match codeLength? letter with
  | none => return (← escaped? letter, cursor.skip)
  | some length =>
    let digits := cursor.rest.tail.take length
    if digits.length ≠ length then none
    let code ← Text.natural? 16 digits
    if code.isValidChar then return (Char.ofNat code, cursor.skipMany (length + 1))
    none

/-- The characters of a run without blanks, and whether an escaped line break ends it. -/
def readRun (quote : Char) (run : List Char) : Nat → Cursor → Option (List Char × Bool × Cursor)
  | 0, _ => none
  | fuel + 1, cursor =>
    match cursor.peek? with
    | none => some (run.reverse, false, cursor)
    | some c =>
      if cursor.endsWord 0 then some (run.reverse, false, cursor)
      else if quote = '\'' ∧ c = '\'' ∧ cursor.sees '\'' 1 then
        readRun quote ('\'' :: run) fuel (cursor.skipMany 2)
      else if c = quote then some (run.reverse, false, cursor)
      else if quote = '"' ∧ c = '\\' then
        if cursor.holds isBreak 1 then some (run.reverse, true, cursor.skip.skipBreak)
        else
          match readEscape cursor.skip with
          | none => none
          | some (character, next) => readRun quote (character :: run) fuel next
      else readRun quote (c :: run) fuel cursor.skip

/-- A quoted text after its opening quote. -/
def read (quote : Char) (text : List Char) : Nat → Cursor → Option Scalar
  | 0, _ => none
  | fuel + 1, cursor => do
    if cursor.atDocumentMark ∨ cursor.atEnd then none
    let (run, escapedBreak, next) ← readRun quote [] (cursor.rest.length + 1) cursor
    let text := text ++ run
    if next.sees quote 0 then return ⟨text, false, false, next.skip⟩
    let (gap, next) ← Gap.read 0 { broken := escapedBreak } (next.rest.length + 1) next
    read quote (text ++ gap.folded) fuel next

end Quoted

namespace Block

/-- What happens to the line breaks at the end of a block. -/
inductive Chomping where
  | strip
  | clip
  | keep
  deriving DecidableEq, Repr

def chomping? : Option Char → Option Chomping
  | some '+' => some .keep
  | some '-' => some .strip
  | _ => none

/-- The number of columns by which a block is indented, if it is given. -/
def indentation? : Option Char → Option Nat
  | some c => if c.isDigit then some (c.toNat - '0'.toNat) else none
  | none => none

/-- The chomping and the indentation after the mark of a block, in either order. -/
def readHeader (cursor : Cursor) : Option (Chomping × Option Nat × Cursor) := do
  let (chomping, indentation, cursor) :=
    match chomping? cursor.peek? with
    | some chomping =>
      let cursor := cursor.skip
      match indentation? cursor.peek? with
      | some columns => (chomping, some columns, cursor.skip)
      | none => (chomping, none, cursor)
    | none =>
      match indentation? cursor.peek? with
      | some columns =>
        let cursor := cursor.skip
        match chomping? cursor.peek? with
        | some chomping => (chomping, some columns, cursor.skip)
        | none => (.clip, some columns, cursor)
      | none => (.clip, none, cursor)
  if indentation = some 0 then none
  let cursor := cursor.skipWhile isSpaceOrTab
  let cursor := if cursor.sees '#' 0 then cursor.skipWhile fun c => !isBreak c else cursor
  if ¬cursor.endsLine then none
  return (chomping, indentation, cursor.skipBreak)

/-- The empty lines at a place: their breaks, and the column of the longest of them.  The
indentation may still be unknown. -/
def readBreaks (indent : Option Nat) (breaks : List Char) (longest : Nat) :
    Nat → Cursor → Option (List Char × Nat × Cursor)
  | 0, _ => none
  | fuel + 1, cursor =>
    let isInside (column : Nat) : Bool := indent.all (column < ·)
    let spaces := (cursor.rest.takeWhile (· = ' ')).length
    let most := match indent with
      | some columns => min spaces (columns - cursor.column)
      | none => spaces
    let cursor := cursor.skipMany most
    let longest := max longest cursor.column
    if isInside cursor.column && cursor.sees '\t' 0 then none
    else if cursor.holds isBreak 0 then
      readBreaks indent (breaks ++ cursor.breakText) longest fuel cursor.skipBreak
    else some (breaks, longest, cursor)

/-- What has been read of a block. -/
structure Progress where
  text : List Char := []
  /-- The break after the last line. -/
  first : List Char := []
  /-- The breaks of the empty lines after it. -/
  others : List Char
  /-- Whether the last line began with a blank. -/
  indented : Bool := false

/-- The lines of a block at a column. -/
def readLines (literal : Bool) (column : Nat) (progress : Progress) :
    Nat → Cursor → Option (Progress × Cursor)
  | 0, _ => none
  | fuel + 1, cursor =>
    if cursor.column ≠ column ∨ cursor.atEnd then some (progress, cursor)
    else do
      let indented := cursor.holds isSpaceOrTab 0
      let joint :=
        if !literal && progress.first = ['\n'] && !progress.indented && !indented then
          if progress.others.isEmpty then [' '] else []
        else progress.first
      let line := cursor.rest.takeWhile fun c => !isBreak c
      let next := cursor.skipMany line.length
      let first := next.breakText
      let (others, _, next) ←
        readBreaks (some column) [] 0 (next.rest.length + 1) next.skipBreak
      let text := progress.text ++ joint ++ progress.others ++ line
      readLines literal column ⟨text, first, others, indented⟩ fuel next

/-- A block after its mark, inside a collection at the given indentation. -/
def read (literal : Bool) (parent : Int) (cursor : Cursor) : Option Scalar := do
  let (chomping, indentation, cursor) ← readHeader cursor
  let given := indentation.map fun columns => (max parent 0).toNat + columns
  let (others, longest, cursor) ← readBreaks given [] 0 (cursor.rest.length + 1) cursor
  let column := given.getD (max longest (max (parent + 1) 1).toNat)
  let (progress, cursor) ← readLines literal column { others } (cursor.rest.length + 1) cursor
  let ending := match chomping with
    | .strip => []
    | .clip => progress.first
    | .keep => progress.first ++ progress.others
  return ⟨progress.text ++ ending, false, false, cursor⟩

end Block

end EquationPuzzle.Yaml
