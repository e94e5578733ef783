import EquationPuzzle.Calendar.Day

/-!
# Command lines

The commands of the program and how they are written.  An option may come before or after other
arguments; short options may be joined; a value follows its option as the next argument, after an
equals sign, or directly behind a short option.  What begins with a hyphen is an option, unless it
is the hyphen alone or stands behind two hyphens.  An option that takes no count is given at most
once.
-/

namespace EquationPuzzle.CommandLine

inductive OutputFormat where
  | table
  | json
  deriving DecidableEq, Repr

inductive DayRange where
  | days (first last : Day)
  | year (year : Int)
  deriving DecidableEq

inductive Command where
  | version
  | status (output : OutputFormat) (quiet : Bool)
  | init
  /-- The equation of a day, or of today. -/
  | daily (date : Option Day) (output : OutputFormat)
  | practice (output : OutputFormat)
  | validate (guess : String)
  /-- Scores guesses against an equation, or against that of a day. -/
  | check (guesses : List String) (target : Option String) (date : Option Day)
  | pregenerate (range : DayRange)
  deriving DecidableEq

structure Invocation where
  /-- The root of the store. -/
  root : String
  command : Command
  deriving DecidableEq

inductive OptionKind where
  | flag
  /-- A flag that may be repeated. -/
  | count
  | value
  deriving DecidableEq, Repr

structure OptionForm where
  name : String
  short : Option Char
  kind : OptionKind

/-- Options with their values, and the other arguments. -/
structure Arguments where
  settings : List (String × String)
  positionals : List String

namespace Arguments

/-- The options of joined letters, and the name of the last one if its value is still to come. -/
def readLetters (forms : List OptionForm) :
    List Char → Option (List (String × String) × Option String)
  | [] => some ([], none)
  | c :: rest =>
    match forms.find? fun form => form.short = some c with
    | none => none
    | some form =>
      match form.kind, rest with
      | .value, [] => some ([], some form.name)
      | .value, '=' :: value => some ([(form.name, String.ofList value)], none)
      | .value, value => some ([(form.name, String.ofList value)], none)
      | _, rest => do
        let (settings, pending) ← readLetters forms rest
        return ((form.name, "") :: settings, pending)

/-- The option of a long name, perhaps with its value, or its name if the value is still to come. -/
def readName (forms : List OptionForm) (written : List Char) :
    Option (List (String × String) × Option String) :=
  let name := String.ofList (written.takeWhile (· ≠ '='))
  match forms.find? fun form => form.name = name with
  | none => none
  | some form =>
    match form.kind, written.dropWhile (· ≠ '=') with
    | .value, [] => some ([], some name)
    | .value, _ :: value => some ([(name, String.ofList value)], none)
    | _, [] => some ([(name, "")], none)
    | _, _ => none

/-- Whether an argument is an option rather than a value. -/
def isOption (argument : String) : Bool :=
  match argument.toList with
  | '-' :: _ :: _ => true
  | _ => false

/-- All arguments, up to the first that is no option if the rest belongs to a command. -/
def read (forms : List OptionForm) (hasCommands : Bool) : List String → Option Arguments
  | [] => some ⟨[], []⟩
  | argument :: rest =>
    if ¬isOption argument then
      if hasCommands then some ⟨[], argument :: rest⟩
      else do
        let arguments ← read forms hasCommands rest
        return { arguments with positionals := argument :: arguments.positionals }
    else
      match argument.toList with
      | ['-', '-'] => if hasCommands ∧ ¬rest.isEmpty then none else some ⟨[], rest⟩
      | '-' :: '-' :: name => complete rest (readName forms name)
      | letters => complete rest (readLetters forms letters.tail)
where
  /-- Options that have been read, the last of which may take the next argument as its value. -/
  complete (rest : List String) :
      Option (List (String × String) × Option String) → Option Arguments
    | none => none
    | some (settings, none) => do
      let arguments ← read forms hasCommands rest
      return { arguments with settings := settings ++ arguments.settings }
    | some (settings, some name) =>
      match rest with
      | [] => none
      | value :: rest =>
        if isOption value then none
        else do
          let arguments ← read forms hasCommands rest
          return { arguments with settings := settings ++ (name, value) :: arguments.settings }

/-- Whether no option that takes no count is given twice. -/
def isUnrepeated (forms : List OptionForm) (arguments : Arguments) : Bool :=
  forms.all fun form =>
    form.kind = .count || (arguments.settings.filter (·.1 = form.name)).length ≤ 1

def find? (arguments : Arguments) (name : String) : Option String :=
  arguments.settings.lookup name

def has (arguments : Arguments) (name : String) : Bool :=
  (arguments.find? name).isSome

/-- The value of an option, read by a function that must accept it if it is there. -/
def read? {α : Type} (arguments : Arguments) (name : String) (ofText? : String → Option α) :
    Option (Option α) :=
  match arguments.find? name with
  | none => some none
  | some text => (ofText? text).map some

end Arguments

/-- The options that all commands have. -/
def globalForms : List OptionForm :=
  [⟨"verbose", some 'v', .count⟩, ⟨"root", some 'r', .value⟩]

namespace OutputFormat

def ofText? : String → Option OutputFormat
  | "table" => some table
  | "json" => some json
  | _ => none

/-- The format that is asked for; a table if none is. -/
def ofArguments? (arguments : Arguments) : Option OutputFormat := do
  return (← arguments.read? "output" ofText?).getD table

end OutputFormat

namespace DayRange

/-- A year of 32 bits, with or without a sign. -/
def yearOfText? (text : String) : Option Int := do
  let (negative, digits) := match text.toList with
    | '-' :: rest => (true, rest)
    | '+' :: rest => (false, rest)
    | rest => (false, rest)
  if digits.isEmpty ∨ ¬digits.all Char.isDigit then none
  let magnitude : Int := Text.naturalOfDigits digits
  let year := if negative then -magnitude else magnitude
  if -2147483648 ≤ year ∧ year ≤ 2147483647 then some year else none

/-- Either two days or a year. -/
def ofArguments? (arguments : Arguments) : Option DayRange := do
  let first ← arguments.read? "start" Day.ofText?
  let last ← arguments.read? "end" Day.ofText?
  let year ← arguments.read? "year" yearOfText?
  match first, last, year with
  | some first, some last, none => some (.days first last)
  | none, none, some year => some (.year year)
  | _, _, _ => none

end DayRange

namespace Command

/-- The options that a command has for itself. -/
def forms : String → List OptionForm
  | "status" => [⟨"output", none, .value⟩, ⟨"quiet", none, .flag⟩]
  | "daily" => [⟨"date", none, .value⟩, ⟨"output", none, .value⟩]
  | "practice" => [⟨"output", none, .value⟩]
  | "check" => [⟨"target", none, .value⟩, ⟨"date", none, .value⟩]
  | "pregenerate" =>
    [⟨"start", none, .value⟩, ⟨"end", none, .value⟩, ⟨"year", none, .value⟩]
  | _ => []

/-- The command of a name with its arguments. -/
def ofArguments? (name : String) (arguments : Arguments) : Option Command := do
  match name, arguments.positionals with
  | "status", [] => return status (← OutputFormat.ofArguments? arguments) (arguments.has "quiet")
  | "init", [] => return init
  | "daily", [] =>
    return daily (← arguments.read? "date" Day.ofText?) (← OutputFormat.ofArguments? arguments)
  | "practice", [] => return practice (← OutputFormat.ofArguments? arguments)
  | "validate", [guess] => return validate guess
  | "check", guess :: guesses =>
    let target := arguments.find? "target"
    let date ← arguments.read? "date" Day.ofText?
    if target.isSome ∧ date.isSome then none
    return check (guess :: guesses) target date
  | "pregenerate", [] => return pregenerate (← DayRange.ofArguments? arguments)
  | _, _ => none

end Command

namespace Invocation

def versionForm : OptionForm := ⟨"version", some 'V', .flag⟩

/-- What the arguments of the program ask for.  Without a command, it is the status.  A root that is
given behind the command counts before one that is given in front of it. -/
def ofArguments? (written : List String) : Option Invocation := do
  let forms := versionForm :: globalForms
  let around ← Arguments.read forms true written
  if ¬around.isUnrepeated forms then none
  let outerRoot ← around.read? "root" rootOfText?
  if around.has "version" then return ⟨defaultRoot, .version⟩
  match around.positionals with
  | [] => return ⟨outerRoot.getD defaultRoot, .status .table false⟩
  | name :: written =>
    let forms := Command.forms name ++ globalForms
    let arguments ← Arguments.read forms false written
    if ¬arguments.isUnrepeated forms then none
    let innerRoot ← arguments.read? "root" rootOfText?
    let command ← Command.ofArguments? name arguments
    return ⟨(innerRoot <|> outerRoot).getD defaultRoot, command⟩
where
  defaultRoot : String := "."
  rootOfText? (text : String) : Option String := if text.isEmpty then none else some text

end Invocation

end EquationPuzzle.CommandLine
