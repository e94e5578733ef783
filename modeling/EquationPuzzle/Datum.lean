/-!
# Data of a text format

What a text format yields before its meaning is known: the common ground of JSON, TOML and YAML.
Records are read from it by the names of their fields.  A record starts with a tag that names its
version; it may be written as a map, or as a list of the tag and then its fields in order.  The
number of a field may stand for its name.
-/

namespace EquationPuzzle

inductive Datum where
  | unit
  | bool (value : Bool)
  | integer (value : Int)
  | real
  | text (value : String)
  | list (items : List Datum)
  | map (entries : List (Datum × Datum))
  deriving Repr

namespace Datum

/-- The least signed number of 64 bits. -/
def integerMin : Int := -9223372036854775808

/-- The greatest unsigned number of 64 bits. -/
def integerMax : Int := 18446744073709551615

/-- The fields of a record after its tag has been taken out. -/
structure Tagged where
  version : String
  body : Datum

def text? : Datum → Option String
  | text value => some value
  | _ => none

def bool? : Datum → Option Bool
  | bool value => some value
  | _ => none

/-- A natural number below a bound. -/
def natural? (bound : Nat) : Datum → Option Nat
  | integer value => if 0 ≤ value ∧ value < bound then some value.toNat else none
  | _ => none

/-- The name that a key stands for, given the known names.  No answer at all means that the key
cannot be one; no name means that it is to be passed over. -/
def name? (names : List String) : Datum → Option (Option String)
  | text name => some (if names.contains name then some name else none)
  | integer index => if 0 ≤ index then some names[index.toNat]? else none
  | _ => none

/-- The known fields among the entries of a map, none of which may be given twice. -/
def fieldsOfEntries? (names : List String) :
    List (Datum × Datum) → Option (List (String × Datum))
  | [] => some []
  | (key, value) :: rest => do
    let name ← key.name? names
    let fields ← fieldsOfEntries? names rest
    match name with
    | none => return fields
    | some name => if (fields.lookup name).isSome then none else return (name, value) :: fields

/-- The known fields of a record. -/
def fields? (names : List String) : Datum → Option (List (String × Datum))
  | map entries => fieldsOfEntries? names entries
  | list items => if items.length ≤ names.length then some (names.zip items) else none
  | _ => none

/-- One of several names: as a text, or as the only key of a map with nothing behind it. -/
def choice? (names : List String) : Datum → Option String
  | text name => if names.contains name then some name else none
  | map [(key, unit)] => (key.name? names).join
  | map [(key, map [])] => (key.name? names).join
  | _ => none

end Datum

end EquationPuzzle
