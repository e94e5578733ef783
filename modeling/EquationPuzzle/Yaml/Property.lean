import EquationPuzzle.Yaml.Scalar

/-!
# YAML names, tags and directives

What may stand before a value or before a document: anchors and aliases, tags, and the directives
that set the version and the handles of tags.  A tag is a handle and a suffix; a tag between angle
brackets has no handle.
-/

namespace EquationPuzzle.Yaml

/-- The name of an anchor or an alias, after its mark. -/
def readName (cursor : Cursor) : Option (String × Cursor) :=
  let name := cursor.rest.takeWhile isNameCharacter
  let next := cursor.skipMany name.length
  let isFollowed := next.endsWord 0 ||
    next.holds (fun c => ['?', ':', ',', ']', '\x7d', '%', '@', '\x60'].contains c) 0
  if name.isEmpty ∨ !isFollowed then none else some (String.ofList name, next)

structure Tag where
  handle : String
  suffix : String
  deriving DecidableEq, Repr

namespace Tag

/-- The characters of tags.  Commas and square brackets count only between angle brackets and in
directives. -/
def isCharacter (verbatim : Bool) (c : Char) : Bool :=
  isNameCharacter c || ";/?:@&=+$.%!~*'()".toList.contains c ||
    (verbatim && (c = ',' || c = '[' || c = ']'))

/-- The bytes of characters escaped by a percent sign and two hexadecimal digits. -/
def readBytes : Nat → List Char → Option (List UInt8 × List Char)
  | 0, input => some ([], input)
  | fuel + 1, input =>
    match input with
    | '%' :: a :: b :: rest => do
      let byte ← Text.natural? 16 [a, b]
      let (bytes, rest) ← readBytes fuel rest
      return (UInt8.ofNat byte :: bytes, rest)
    | '%' :: _ => none
    | input => some ([], input)

/-- The text of a tag with its escapes resolved. -/
def unescape? : Nat → List Char → Option (List Char)
  | 0, _ => some []
  | fuel + 1, input =>
    match input with
    | [] => some []
    | '%' :: rest => do
      let (bytes, rest) ← readBytes fuel ('%' :: rest)
      let text ← String.fromUTF8? ⟨bytes.toArray⟩
      return text.toList ++ (← unescape? fuel rest)
    | c :: rest => (unescape? fuel rest).map (c :: ·)

/-- The rest of a tag after what is already known of it. -/
def readSuffix (verbatim : Bool) (known : List Char) (cursor : Cursor) :
    Option (List Char × Cursor) := do
  let written := cursor.rest.takeWhile (isCharacter verbatim)
  let text := known ++ (← unescape? (written.length + 1) written)
  return (text, cursor.skipMany written.length)

/-- A handle: a mark alone, two marks, or a name between two marks.  The second mark may be missing
outside of directives. -/
def readHandle (directive : Bool) (cursor : Cursor) : Option (List Char × Cursor) :=
  if ¬cursor.sees '!' 0 then none
  else
    let name := cursor.rest.tail.takeWhile isNameCharacter
    let next := cursor.skipMany (name.length + 1)
    if next.sees '!' 0 then some ('!' :: name ++ ['!'], next.skip)
    else if directive && !name.isEmpty then none
    else some ('!' :: name, next)

/-- A tag, from its mark on. -/
def read (inFlow : Bool) (cursor : Cursor) : Option (Tag × Cursor) := do
  let (tag, next) ←
    if cursor.sees '<' 1 then do
      let (suffix, next) ← readSuffix true [] (cursor.skipMany 2)
      if suffix.isEmpty ∨ ¬next.sees '>' 0 then none
      pure ((⟨"", String.ofList suffix⟩ : Tag), next.skip)
    else do
      let (handle, next) ← readHandle false cursor
      if handle.length > 1 ∧ handle.getLast? = some '!' then do
        let (suffix, next) ← readSuffix false [] next
        if suffix.isEmpty then none
        pure (⟨String.ofList handle, String.ofList suffix⟩, next)
      else do
        let (suffix, next) ← readSuffix false handle.tail next
        if suffix.isEmpty then pure (⟨"", "!"⟩, next)
        else pure (⟨"!", String.ofList suffix⟩, next)
  if next.endsWord 0 ∨ (inFlow ∧ next.sees ',' 0) then return (tag, next)
  none

end Tag

inductive Directive where
  | version (major minor : Nat)
  /-- What a handle of tags stands for. -/
  | tagHandle (handle expansion : String)
  deriving DecidableEq, Repr

namespace Directive

/-- A number of at most nine digits. -/
def readNumber (cursor : Cursor) : Option (Nat × Cursor) :=
  let digits := cursor.rest.takeWhile Char.isDigit
  if digits.isEmpty ∨ 9 < digits.length then none
  else some (Text.naturalOfDigits digits, cursor.skipMany digits.length)

def skipBlanks (cursor : Cursor) : Cursor :=
  cursor.skipWhile isSpaceOrTab

/-- A directive, from its mark on, up to the end of its line. -/
def read (cursor : Cursor) : Option (Directive × Cursor) := do
  let name := cursor.rest.tail.takeWhile isNameCharacter
  let next := cursor.skipMany (name.length + 1)
  if ¬next.endsWord 0 then none
  let (directive, next) ←
    if name = "YAML".toList then do
      let (major, next) ← readNumber (skipBlanks next)
      if ¬next.sees '.' 0 then none
      let (minor, next) ← readNumber next.skip
      pure (Directive.version major minor, next)
    else if name = "TAG".toList then do
      let (handle, next) ← Tag.readHandle true (skipBlanks next)
      if ¬next.holds isSpaceOrTab 0 then none
      let (expansion, next) ← Tag.readSuffix true [] (skipBlanks next)
      if expansion.isEmpty ∨ ¬next.endsWord 0 then none
      pure (Directive.tagHandle (String.ofList handle) (String.ofList expansion), next)
    else none
  let next := skipBlanks next
  let next := if next.sees '#' 0 then next.skipWhile fun c => !isBreak c else next
  if next.endsLine then return (directive, next.skipBreak)
  none

end Directive

end EquationPuzzle.Yaml
