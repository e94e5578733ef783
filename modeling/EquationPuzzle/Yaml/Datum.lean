import EquationPuzzle.Binary64
import EquationPuzzle.Datum
import EquationPuzzle.Yaml.Node

/-!
# YAML as data

The data of a YAML document.  A plain text is a null, a truth value or a number if it is written as
one; digits after a leading zero are a text.  A tag of the core schema asks for one kind of data,
and other tags of the schema for a text; a local tag has no data at all.
-/

namespace EquationPuzzle.Yaml

namespace Core

def null? (text : String) : Option Datum :=
  if ["null", "Null", "NULL", "~"].contains text then some .unit else none

def bool? (text : String) : Option Datum :=
  if ["true", "True", "TRUE"].contains text then some (.bool true)
  else if ["false", "False", "FALSE"].contains text then some (.bool false)
  else none

/-- Whether the characters are several digits of which the first is a zero. -/
def isPadded (characters : List Char) : Bool :=
  1 < characters.length && characters.head? = some '0' && characters.all Char.isDigit

/-- A number without its sign. -/
def magnitude? : List Char → Option Nat
  | '0' :: 'x' :: rest => Text.natural? 16 rest
  | '0' :: 'o' :: rest => Text.natural? 8 rest
  | '0' :: 'b' :: rest => Text.natural? 2 rest
  | rest => if isPadded rest then none else Text.natural? 10 rest

def integer? (text : String) : Option Int :=
  match text.toList with
  | '-' :: rest => (magnitude? rest).map fun value => -(value : Int)
  | '+' :: rest => (magnitude? rest).map Int.ofNat
  | rest => (magnitude? rest).map Int.ofNat

/-- Whether the characters are a decimal number with a finite value: digits, of which some may
stand after a point, and perhaps an exponent. -/
def isFiniteReal (characters : List Char) : Bool :=
  let whole := characters.takeWhile Char.isDigit
  let rest := characters.dropWhile Char.isDigit
  let (fraction, rest) := match rest with
    | '.' :: rest => (rest.takeWhile Char.isDigit, rest.dropWhile Char.isDigit)
    | rest => ([], rest)
  let exponent? : Option Int := match rest with
    | [] => some 0
    | mark :: rest =>
      if mark = 'e' ∨ mark = 'E' then
        match rest with
        | '-' :: digits => (Text.natural? 10 digits).map fun value => -(value : Int)
        | '+' :: digits => (Text.natural? 10 digits).map Int.ofNat
        | digits => (Text.natural? 10 digits).map Int.ofNat
      else none
  match Text.natural? 10 (whole ++ fraction), exponent? with
  | some significand, some exponent =>
    Binary64.isFiniteDecimal significand (exponent - fraction.length)
  | _, _ => false

def isReal (text : String) : Bool :=
  let isInfinity (text : String) : Bool := [".inf", ".Inf", ".INF"].contains text
  let characters := text.toList
  if [".nan", ".NaN", ".NAN"].contains text then true
  else match characters with
    | '+' :: rest => isInfinity (String.ofList rest) || isFiniteReal rest
    | '-' :: rest => isInfinity (String.ofList rest) || isFiniteReal rest
    | rest => isInfinity text || isFiniteReal rest

/-- Whether the characters, perhaps after a sign, are digits that do not make a number. -/
def isPaddedText (text : String) : Bool :=
  match text.toList with
  | '-' :: rest => isPadded rest
  | '+' :: rest => isPadded rest
  | rest => isPadded rest

/-- The least signed number of 128 bits. -/
def wideMin : Int := -170141183460469231731687303715884105728

/-- The greatest unsigned number of 128 bits. -/
def wideMax : Int := 340282366920938463463374607431768211455

/-- The data of a whole number.  Between the range of 64 bits and that of 128 bits there is none;
beyond that it is read as a decimal number. -/
def integerDatum? (value : Int) : Option (Option Datum) :=
  if Datum.integerMin ≤ value ∧ value ≤ Datum.integerMax then some (some (.integer value))
  else if wideMin ≤ value ∧ value ≤ wideMax then some none
  else none

/-- The data of a plain text. -/
def datum? (text : String) : Option Datum :=
  if text.isEmpty then some .unit
  else match null? text with
    | some datum => some datum
    | none => match bool? text with
      | some datum => some datum
      | none => match (integer? text).bind integerDatum? with
        | some datum => datum
        | none =>
          if !isPaddedText text && isReal text then some .real else some (.text text)

/-- The data of a text with a tag. -/
def taggedDatum? (tag : String) (text : String) : Option Datum :=
  if tag = "tag:yaml.org,2002:bool" then bool? text
  else if tag = "tag:yaml.org,2002:int" then ((integer? text).bind integerDatum?).join
  else if tag = "tag:yaml.org,2002:float" then (if isReal text then some .real else none)
  else if tag = "tag:yaml.org,2002:null" then null? text
  else some (.text text)

end Core

def isLocal (tag : Option String) : Bool :=
  tag.any fun name => name.toList.head? = some '!'

mutual

/-- The data of a node, if collections may be nested to the given depth. -/
def Node.datum? : Nat → Node → Option Datum
  | _, .scalar tag text plain =>
    if isLocal tag then none
    else match tag with
      | some tag => Core.taggedDatum? tag text
      | none => if plain then Core.datum? text else some (.text text)
  | 0, .sequence _ _ => none
  | 0, .mapping _ _ => none
  | depth + 1, .sequence tag items =>
    if isLocal tag then none else (Node.dataOfItems? depth items).map .list
  | depth + 1, .mapping tag entries =>
    if isLocal tag then none else (Node.dataOfEntries? depth entries).map .map

def Node.dataOfItems? (depth : Nat) : List Node → Option (List Datum)
  | [] => some []
  | item :: rest => do return (← item.datum? depth) :: (← Node.dataOfItems? depth rest)

def Node.dataOfEntries? (depth : Nat) : List (Node × Node) → Option (List (Datum × Datum))
  | [] => some []
  | (key, value) :: rest => do
    return (← key.datum? depth, ← value.datum? depth) :: (← Node.dataOfEntries? depth rest)

end

namespace Node

/-- How deeply collections may be nested. -/
def depthLimit : Nat := 128

/-- The text of a node as it is written, whatever its tag and its style. -/
def written? : Node → Option String
  | scalar _ text _ => some text
  | _ => none

def isKey (key : String) (node : Node) : Bool :=
  match node.datum? depthLimit with
  | some (.text text) => text = key
  | _ => false

/-- A record with the given key for its version. -/
def tagged? (versionKey : String) : Node → Option Datum.Tagged
  | mapping tag entries =>
    match entries.filter fun (key, _) => key.isKey versionKey with
    | [(_, version)] => do
      let others := entries.filter fun (key, _) => !key.isKey versionKey
      return ⟨← version.written?, ← datum? depthLimit (mapping tag others)⟩
    | _ => none
  | sequence tag (version :: items) => do
    return ⟨← version.written?, ← datum? depthLimit (sequence tag items)⟩
  | _ => none

end Node

end EquationPuzzle.Yaml
