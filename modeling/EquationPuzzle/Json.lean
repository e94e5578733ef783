/-!
# JSON values

The values of JSON and their two written forms: compact, and indented by two spaces.  Members of an
object keep their order.  A numeral is kept as written enough to tell whole numbers from decimal
ones: `40` is whole, `40.0` and `-0` are decimal.
-/

namespace EquationPuzzle

inductive Json where
  | null
  | bool (value : Bool)
  | integer (value : Int)
  /-- The numeral `± significand · 10 ^ exponent`, written with a point or an exponent. -/
  | decimal (negative : Bool) (significand : Nat) (exponent : Int)
  | string (text : String)
  /-- A string whose escapes leave half of a surrogate pair, which no text holds. -/
  | unpaired
  | array (items : List Json)
  | object (members : List (Json × Json))
  deriving Repr

namespace Json

/-- Members of an object whose keys are texts. -/
def record (members : List (String × Json)) : Json :=
  object (members.map fun (key, value) => (string key, value))

def isString (text : String) : Json → Bool
  | string value => value = text
  | _ => false

def escapeChar (c : Char) : List Char :=
  match c with
  | '"' => ['\\', '"']
  | '\\' => ['\\', '\\']
  | '\x08' => ['\\', 'b']
  | '\x0c' => ['\\', 'f']
  | '\n' => ['\\', 'n']
  | '\r' => ['\\', 'r']
  | '\t' => ['\\', 't']
  | c =>
    if c.toNat < 32 then
      ['\\', 'u', '0', '0', Nat.digitChar (c.toNat / 16), Nat.digitChar (c.toNat % 16)]
    else [c]

def quoted (text : String) : String :=
  String.ofList ('"' :: text.toList.flatMap escapeChar ++ ['"'])

def decimalText (negative : Bool) (significand : Nat) (exponent : Int) : String :=
  (if negative then "-" else "") ++ toString significand ++ "e" ++ toString exponent

mutual

/-- Without any blank. -/
def compact : Json → String
  | null => "null"
  | bool value => if value then "true" else "false"
  | integer value => toString value
  | decimal negative significand exponent => decimalText negative significand exponent
  | string text => quoted text
  | unpaired => quoted ""
  | array items => "[" ++ ",".intercalate (compactItems items) ++ "]"
  | object members => "\x7b" ++ ",".intercalate (compactMembers members) ++ "\x7d"

def compactItems : List Json → List String
  | [] => []
  | item :: rest => compact item :: compactItems rest

def compactMembers : List (Json × Json) → List String
  | [] => []
  | (key, value) :: rest => (compact key ++ ":" ++ compact value) :: compactMembers rest

end

/-- The lines between two brackets, one step further in. -/
def enclosed (opening closing indent : String) (lines : List String) : String :=
  if lines.isEmpty then opening ++ closing
  else
    opening ++ "\n" ++ ",\n".intercalate (lines.map fun line => indent ++ "  " ++ line) ++ "\n" ++
      indent ++ closing

mutual

/-- One item or member to a line, under an indentation that is already there. -/
def indented (indent : String) : Json → String
  | array items => enclosed "[" "]" indent (indentedItems (indent ++ "  ") items)
  | object members => enclosed "\x7b" "\x7d" indent (indentedMembers (indent ++ "  ") members)
  | null => "null"
  | bool value => if value then "true" else "false"
  | integer value => toString value
  | decimal negative significand exponent => decimalText negative significand exponent
  | string text => quoted text
  | unpaired => quoted ""

def indentedItems (indent : String) : List Json → List String
  | [] => []
  | item :: rest => indented indent item :: indentedItems indent rest

def indentedMembers (indent : String) : List (Json × Json) → List String
  | [] => []
  | (key, value) :: rest =>
    (compact key ++ ": " ++ indented indent value) :: indentedMembers indent rest

end

def pretty (value : Json) : String :=
  value.indented ""

end Json

end EquationPuzzle
