import EquationPuzzle.Binary64
import EquationPuzzle.Datum
import EquationPuzzle.Json

/-!
# JSON as data

The data that a JSON value holds.  Strings must be texts, decimal numbers must not overflow the
binary format, and lists and maps may be nested to a depth of `Json.depthLimit` only.
-/

namespace EquationPuzzle.Json

def depthLimit : Nat := 127

mutual

/-- The data of a value, if lists and maps may be nested to the given depth. -/
def datum? : Nat → Json → Option Datum
  | _, null => some .unit
  | _, bool value => some (.bool value)
  | _, integer value =>
    if Datum.integerMin ≤ value ∧ value ≤ Datum.integerMax then some (.integer value)
    else if Binary64.isFiniteDecimal value.natAbs 0 then some .real
    else none
  | _, decimal _ significand exponent =>
    if Binary64.isFiniteDecimal significand exponent then some .real else none
  | _, string text => some (.text text)
  | _, unpaired => none
  | 0, array _ => none
  | 0, object _ => none
  | depth + 1, array items => (dataOfItems? depth items).map .list
  | depth + 1, object members => (dataOfMembers? depth members).map .map

def dataOfItems? (depth : Nat) : List Json → Option (List Datum)
  | [] => some []
  | item :: rest => do return (← datum? depth item) :: (← dataOfItems? depth rest)

def dataOfMembers? (depth : Nat) : List (Json × Json) → Option (List (Datum × Datum))
  | [] => some []
  | (key, value) :: rest => do
    return (← datum? depth key, ← datum? depth value) :: (← dataOfMembers? depth rest)

end

/-- A record with the given key for its version, which must be a string. -/
def tagged? (versionKey : String) : Json → Option Datum.Tagged
  | object members =>
    match members.filter fun (key, _) => key.isString versionKey with
    | [(_, string version)] => do
      let others := members.filter fun (key, _) => !key.isString versionKey
      return ⟨version, ← datum? depthLimit (object others)⟩
    | _ => none
  | array (string version :: fields) => do
    return ⟨version, ← datum? depthLimit (array fields)⟩
  | _ => none

end EquationPuzzle.Json
