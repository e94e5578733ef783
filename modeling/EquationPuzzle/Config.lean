import EquationPuzzle.Datum
import EquationPuzzle.Generator
import EquationPuzzle.Json

/-!
# Configuration

The settings of a store: how many attempts a generation may take, and whether files that are not
records are put up with.  Its record has version `1`.
-/

namespace EquationPuzzle

structure Config where
  maxAttempts : UInt64
  allowUnrecognised : Bool
  deriving DecidableEq, Repr

namespace Config

def default : Config := ⟨UInt64.ofNat Generator.defaultMaxAttempts, false⟩

instance : Inhabited Config := ⟨default⟩

/-- The key under which a record names its version. -/
def versionKey : String := "_version"

def version : String := "1"

/-- The settings of a record; a missing field has its default. -/
def ofTagged? (record : Datum.Tagged) : Option Config := do
  if record.version ≠ version then none
  let fields ← record.body.fields? ["max_attempts", "allow_unrecognised"]
  let maxAttempts ← match fields.lookup "max_attempts" with
    | none => some default.maxAttempts
    | some value => (value.natural? UInt64.size).map UInt64.ofNat
  let allowUnrecognised ← match fields.lookup "allow_unrecognised" with
    | none => some default.allowUnrecognised
    | some value => value.bool?
  return ⟨maxAttempts, allowUnrecognised⟩

def toJson (config : Config) : Json :=
  .record [(versionKey, .string version), ("max_attempts", .integer config.maxAttempts.toNat),
    ("allow_unrecognised", .bool config.allowUnrecognised)]

def generator (config : Config) : Generator := ⟨config.maxAttempts.toNat⟩

end Config

end EquationPuzzle
