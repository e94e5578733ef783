import EquationPuzzle.Yaml.Property

/-!
# YAML tokens

A YAML text as a row of tokens.  Indentation becomes visible as tokens that open and close block
collections.  A value may turn out to be a key only when a colon follows it: therefore the scanner
remembers, for each flow collection and for the block around them, where a key could begin.  Such a
key stands on one line and has at most 1024 characters.
-/

namespace EquationPuzzle.Yaml

inductive Token where
  | directive (directive : Directive)
  | documentStart
  | documentEnd
  | blockSequenceStart
  | blockMappingStart
  | blockEnd
  | flowSequenceStart
  | flowSequenceEnd
  | flowMappingStart
  | flowMappingEnd
  | blockEntry
  | flowEntry
  | key
  | value
  | alias (name : String)
  | anchor (name : String)
  | tag (tag : Tag)
  | scalar (text : String) (plain : Bool)
  deriving DecidableEq, Repr

/-- A place where a key could begin. -/
structure KeyCandidate where
  /-- Whether nothing but a key can begin there. -/
  required : Bool
  /-- The number of the token that would be the key. -/
  position : Nat
  index : Nat
  line : Nat
  column : Nat

structure Scanner where
  cursor : Cursor
  tokens : Array Token := #[]
  /-- Whether a key may begin at the next token. -/
  keyAllowed : Bool := true
  /-- The column of the innermost block collection; none is open at -1. -/
  indent : Int := -1
  /-- The columns of the block collections around it. -/
  outer : List Int := []
  /-- The candidates for a key: in the innermost flow collection first, in the block last. -/
  candidates : List (Option KeyCandidate) := [none]

namespace Scanner

/-- Whether the scanner is inside a flow collection. -/
def inFlow (scanner : Scanner) : Bool :=
  1 < scanner.candidates.length

def column (scanner : Scanner) : Nat := scanner.cursor.column

def push (scanner : Scanner) (token : Token) : Scanner :=
  { scanner with tokens := scanner.tokens.push token }

def insert (scanner : Scanner) (position : Nat) (token : Token) : Scanner :=
  { scanner with tokens := scanner.tokens.insertIdxIfInBounds position token }

def moveTo (scanner : Scanner) (cursor : Cursor) : Scanner :=
  { scanner with cursor }

def allowKey (scanner : Scanner) (keyAllowed : Bool) : Scanner :=
  { scanner with keyAllowed }

/-- Whether a candidate is too far away to be a key still. -/
def isStale (cursor : Cursor) (candidate : KeyCandidate) : Bool :=
  candidate.line < cursor.line || candidate.index + 1024 < cursor.index

/-- Drops the candidates that are too far away, unless one of them was required. -/
def dropStale? (scanner : Scanner) : Option Scanner := do
  let candidates ← scanner.candidates.mapM fun
    | none => some none
    | some candidate =>
      if isStale scanner.cursor candidate then
        if candidate.required then none else some none
      else some (some candidate)
  return { scanner with candidates }

/-- Drops the candidate of the innermost collection, unless it was required. -/
def dropCandidate? (scanner : Scanner) : Option Scanner :=
  match scanner.candidates with
  | some candidate :: others =>
    if candidate.required then none else some { scanner with candidates := none :: others }
  | _ => some scanner

/-- Notes that a key may begin here. -/
def noteCandidate? (scanner : Scanner) : Option Scanner := do
  if ¬scanner.keyAllowed then return scanner
  let required := !scanner.inFlow && scanner.indent = scanner.column
  let scanner ← scanner.dropCandidate?
  let candidate : KeyCandidate :=
    ⟨required, scanner.tokens.size, scanner.cursor.index, scanner.cursor.line, scanner.column⟩
  return { scanner with candidates := some candidate :: scanner.candidates.tail }

/-- Closes the block collections that lie to the right of a column. -/
def unroll (scanner : Scanner) (column : Int) : Scanner :=
  if scanner.inFlow then scanner
  else close scanner scanner.indent scanner.outer
where
  close (scanner : Scanner) (indent : Int) : List Int → Scanner
    | [] => { scanner with indent, outer := [] }
    | around :: outer =>
      if column < indent then close (scanner.push .blockEnd) around outer
      else { scanner with indent, outer := around :: outer }

/-- Opens a block collection at a column, if it lies to the right of the open one. -/
def roll (scanner : Scanner) (column : Int) (position : Nat) (token : Token) : Scanner :=
  if scanner.inFlow ∨ column ≤ scanner.indent then scanner
  else
    { scanner.insert position token with
      indent := column
      outer := scanner.indent :: scanner.outer }

/-- Spaces, line breaks and comments before a token.  Tabs do not indent a block. -/
def skipGap : Nat → Scanner → Scanner
  | 0, scanner => scanner
  | fuel + 1, scanner =>
    let cursor := scanner.cursor
    let cursor := if cursor.index = 0 ∧ cursor.sees '\uFEFF' 0 then cursor.skip else cursor
    let cursor := cursor.skipWhile fun c =>
      c = ' ' || (c = '\t' && (scanner.inFlow || !scanner.keyAllowed))
    let cursor := if cursor.sees '#' 0 then cursor.skipWhile fun c => !isBreak c else cursor
    let scanner := scanner.moveTo cursor
    if cursor.holds isBreak 0 then
      let scanner := scanner.moveTo cursor.skipBreak
      skipGap fuel (if scanner.inFlow then scanner else scanner.allowKey true)
    else scanner

/-- A mark of so many characters that is a token. -/
def mark (scanner : Scanner) (length : Nat) (token : Token) : Scanner :=
  (scanner.push token).moveTo (scanner.cursor.skipMany length)

def fetchDirective? (scanner : Scanner) : Option Scanner := do
  let scanner ← (scanner.unroll (-1)).dropCandidate?
  let (directive, cursor) ← Directive.read scanner.cursor
  return ((scanner.allowKey false).push (.directive directive)).moveTo cursor

def fetchDocumentMark? (token : Token) (scanner : Scanner) : Option Scanner := do
  let scanner ← (scanner.unroll (-1)).dropCandidate?
  return (scanner.allowKey false).mark 3 token

def fetchFlowStart? (token : Token) (scanner : Scanner) : Option Scanner := do
  let scanner ← scanner.noteCandidate?
  let scanner := { scanner with candidates := none :: scanner.candidates }
  return (scanner.allowKey true).mark 1 token

def fetchFlowEnd? (token : Token) (scanner : Scanner) : Option Scanner := do
  let scanner ← scanner.dropCandidate?
  let scanner :=
    if scanner.inFlow then { scanner with candidates := scanner.candidates.tail } else scanner
  return (scanner.allowKey false).mark 1 token

def fetchFlowEntry? (scanner : Scanner) : Option Scanner := do
  let scanner ← scanner.dropCandidate?
  return (scanner.allowKey true).mark 1 .flowEntry

/-- Opens a block collection here, where one may begin, unless a flow collection is open. -/
def openBlock? (token : Token) (scanner : Scanner) : Option Scanner :=
  if scanner.inFlow then some scanner
  else if scanner.keyAllowed then
    some (scanner.roll scanner.column scanner.tokens.size token)
  else none

def fetchBlockEntry? (scanner : Scanner) : Option Scanner := do
  let scanner ← (← scanner.openBlock? .blockSequenceStart).dropCandidate?
  return (scanner.allowKey true).mark 1 .blockEntry

def fetchKey? (scanner : Scanner) : Option Scanner := do
  let scanner ← (← scanner.openBlock? .blockMappingStart).dropCandidate?
  return (scanner.allowKey !scanner.inFlow).mark 1 .key

/-- A colon makes the candidate for a key a key. -/
def fetchValue? (scanner : Scanner) : Option Scanner :=
  match scanner.candidates with
  | some candidate :: others =>
    let scanner := { scanner with candidates := none :: others }
    let scanner := scanner.insert candidate.position .key
    let scanner := scanner.roll candidate.column candidate.position .blockMappingStart
    some ((scanner.allowKey false).mark 1 .value)
  | _ => do
    let scanner ← scanner.openBlock? .blockMappingStart
    return (scanner.allowKey !scanner.inFlow).mark 1 .value

def fetchName? (token : String → Token) (scanner : Scanner) : Option Scanner := do
  let scanner ← scanner.noteCandidate?
  let (name, cursor) ← readName scanner.cursor.skip
  return ((scanner.allowKey false).push (token name)).moveTo cursor

def fetchTag? (scanner : Scanner) : Option Scanner := do
  let scanner ← scanner.noteCandidate?
  let (tag, cursor) ← Tag.read scanner.inFlow scanner.cursor
  return ((scanner.allowKey false).push (.tag tag)).moveTo cursor

def pushScalar (scanner : Scanner) (scalar : Scalar) : Scanner :=
  (scanner.push (.scalar (String.ofList scalar.text) scalar.plain)).moveTo scalar.cursor

def fetchBlockScalar? (literal : Bool) (scanner : Scanner) : Option Scanner := do
  let scanner ← scanner.dropCandidate?
  return (scanner.allowKey true).pushScalar
    (← Block.read literal scanner.indent scanner.cursor.skip)

def fetchQuoted? (quote : Char) (scanner : Scanner) : Option Scanner := do
  let scanner ← scanner.noteCandidate?
  let cursor := scanner.cursor.skip
  return (scanner.allowKey false).pushScalar
    (← Quoted.read quote [] (cursor.rest.length + 1) cursor)

def fetchPlain? (scanner : Scanner) : Option Scanner := do
  let scanner ← scanner.noteCandidate?
  let cursor := scanner.cursor
  let scalar ←
    Plain.read scanner.inFlow (scanner.indent + 1).toNat [] {} (cursor.rest.length + 1) cursor
  return (scanner.allowKey scalar.broken).pushScalar scalar

/-- Whether a plain text may begin here. -/
def startsPlain (scanner : Scanner) (c : Char) : Bool :=
  let marks := "-?:,[]\x7b\x7d#&*!|>'\"%@\x60".toList
  (!marks.contains c && !isSpaceOrTab c) ||
    (c = '-' && !scanner.cursor.holds isSpaceOrTab 1) ||
    (!scanner.inFlow && (c = '?' || c = ':') && !scanner.cursor.endsWord 1)

/-- The token that begins with a character. -/
def fetch? (scanner : Scanner) (c : Char) : Option Scanner :=
  let cursor := scanner.cursor
  if cursor.column = 0 ∧ c = '%' then scanner.fetchDirective?
  else if cursor.atDocumentMark then
    scanner.fetchDocumentMark? (if c = '-' then .documentStart else .documentEnd)
  else if c = '[' then scanner.fetchFlowStart? .flowSequenceStart
  else if c = '\x7b' then scanner.fetchFlowStart? .flowMappingStart
  else if c = ']' then scanner.fetchFlowEnd? .flowSequenceEnd
  else if c = '\x7d' then scanner.fetchFlowEnd? .flowMappingEnd
  else if c = ',' then scanner.fetchFlowEntry?
  else if c = '-' ∧ cursor.endsWord 1 then scanner.fetchBlockEntry?
  else if c = '?' ∧ (scanner.inFlow ∨ cursor.endsWord 1) then scanner.fetchKey?
  else if c = ':' ∧ (scanner.inFlow ∨ cursor.endsWord 1) then scanner.fetchValue?
  else if c = '*' then scanner.fetchName? .alias
  else if c = '&' then scanner.fetchName? .anchor
  else if c = '!' then scanner.fetchTag?
  else if c = '|' ∧ ¬scanner.inFlow then scanner.fetchBlockScalar? true
  else if c = '>' ∧ ¬scanner.inFlow then scanner.fetchBlockScalar? false
  else if c = '\'' ∨ c = '"' then scanner.fetchQuoted? c
  else if scanner.startsPlain c then scanner.fetchPlain?
  else none

/-- All tokens.  Each takes at least one character. -/
def run : Nat → Scanner → Option (Array Token)
  | 0, _ => none
  | fuel + 1, scanner => do
    let scanner := skipGap (scanner.cursor.rest.length + 1) scanner
    let scanner := (← scanner.dropStale?).unroll scanner.column
    match scanner.cursor.peek? with
    | some c => run fuel (← scanner.fetch? c)
    | none =>
      let scanner ← (scanner.unroll (-1)).dropCandidate?
      return scanner.tokens

end Scanner

/-- The tokens of a text. -/
def tokens? (text : String) : Option (Array Token) :=
  let characters := text.toList
  if characters.all isPrintable then
    Scanner.run (characters.length + 1) { cursor := { rest := characters } }
  else none

end EquationPuzzle.Yaml
