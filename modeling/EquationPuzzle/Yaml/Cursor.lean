/-!
# Positions in a YAML text

A cursor stands in a text and knows its place: how many characters came before it, on which line it
is, and in which column.  Line feeds, carriage returns (alone or before a line feed) and three rarer
characters break lines.
-/

namespace EquationPuzzle.Yaml

def isSpaceOrTab (c : Char) : Bool :=
  c = ' ' || c = '\t'

def isBreak (c : Char) : Bool :=
  c = '\n' || c = '\r' || c = '\u0085' || c = '\u2028' || c = '\u2029'

/-- The characters of names: of anchors, tag handles and directives. -/
def isNameCharacter (c : Char) : Bool :=
  c.isAlphanum || c = '_' || c = '-'

/-- The characters that a text may hold. -/
def isPrintable (c : Char) : Bool :=
  let code := c.toNat
  code = 0x09 || code = 0x0A || code = 0x0D || (0x20 ≤ code && code ≤ 0x7E) || code = 0x85 ||
    (0xA0 ≤ code && code ≤ 0xFFFD) || 0x10000 ≤ code

structure Cursor where
  rest : List Char
  index : Nat := 0
  line : Nat := 0
  column : Nat := 0

namespace Cursor

def peek? (cursor : Cursor) : Option Char := cursor.rest.head?

def atEnd (cursor : Cursor) : Bool := cursor.rest.isEmpty

/-- Whether the character at some distance is the given one. -/
def sees (cursor : Cursor) (c : Char) (distance : Nat) : Bool :=
  cursor.rest[distance]? = some c

/-- Whether the character at some distance passes a test. -/
def holds (cursor : Cursor) (test : Char → Bool) (distance : Nat) : Bool :=
  cursor.rest[distance]?.any test

/-- Whether a word ends before the given distance: at a space, a tab, a line break or the end. -/
def endsWord (cursor : Cursor) (distance : Nat) : Bool :=
  cursor.rest[distance]?.all fun c => isSpaceOrTab c || isBreak c

/-- Whether a line ends here. -/
def endsLine (cursor : Cursor) : Bool :=
  cursor.peek?.all isBreak

/-- One character on. -/
def skip (cursor : Cursor) : Cursor :=
  { cursor with
    rest := cursor.rest.tail
    index := cursor.index + 1
    column := cursor.column + 1 }

def skipMany (cursor : Cursor) : Nat → Cursor
  | 0 => cursor
  | count + 1 => cursor.skip.skipMany count

/-- As long as the characters pass a test, of which none may be a line break. -/
def skipWhile (test : Char → Bool) (cursor : Cursor) : Cursor :=
  cursor.skipMany (cursor.rest.takeWhile test).length

/-- Beyond a line break. -/
def skipBreak (cursor : Cursor) : Cursor :=
  match cursor.rest with
  | '\r' :: '\n' :: rest =>
    { cursor with rest, index := cursor.index + 2, line := cursor.line + 1, column := 0 }
  | c :: rest =>
    if isBreak c then
      { cursor with rest, index := cursor.index + 1, line := cursor.line + 1, column := 0 }
    else cursor
  | [] => cursor

/-- What a line break stands for in a scalar. -/
def breakText (cursor : Cursor) : List Char :=
  match cursor.peek? with
  | some c =>
    if c = '\u2028' ∨ c = '\u2029' then [c] else if isBreak c then ['\n'] else []
  | none => []

/-- Whether a line of three hyphens or three dots starts here, which ends a document. -/
def atDocumentMark (cursor : Cursor) : Bool :=
  cursor.column = 0 &&
    ['-', '.'].any fun c =>
      cursor.sees c 0 && cursor.sees c 1 && cursor.sees c 2 && cursor.endsWord 3

end Cursor

end EquationPuzzle.Yaml
