import EquationPuzzle.Allocator
import EquationPuzzle.CommandLine.Arguments
import EquationPuzzle.CommandLine.Guess
import EquationPuzzle.CommandLine.Terminal
import EquationPuzzle.Directory
import EquationPuzzle.Json.Domain
import EquationPuzzle.Solution

/-!
# Commands

What each command does and prints.  A command works on a host: its files, its source of new records,
and its calendar.  It may fail with a message; what it has printed before and what it has changed
stays.
-/

namespace EquationPuzzle.CommandLine

structure Host where
  terminal : Terminal
  tree : FileTree
  supply : Supply
  today : Day
  /-- The text printed so far. -/
  output : String := ""

inductive Failure where
  /-- The command stops with a message. -/
  | message (text : String)
  /-- The command has said all by itself. -/
  | silent
  deriving DecidableEq, Repr

abbrev CommandM := ExceptT Failure (StateM Host)

def faultText : FileFault → String
  | .notFound => "No such file or directory (os error 2)"
  | .alreadyExists => "File exists (os error 17)"
  | .notADirectory => "Not a directory (os error 20)"
  | .isADirectory => "Is a directory (os error 21)"
  | .invalidData => "stream did not contain valid UTF-8"
  | .other => "other error"

namespace CommandM

def fail {α : Type} (text : String) : CommandM α := throw (.message text)

def print (line : String) : CommandM Unit :=
  modify fun host => { host with output := host.output ++ line ++ "\n" }

/-- A change of the files. -/
def change (what : String) (f : FileTree → Except FileFault FileTree) : CommandM Unit := do
  match f (← get).tree with
  | .ok tree => modify fun host => { host with tree }
  | .error fault => fail (what ++ ": " ++ faultText fault)

/-- The names that lead to a path, of which a dot leads nowhere and two dots lead back. -/
def pathOfText (text : String) : FilePath :=
  ((text.splitOn "/").foldl (fun path name =>
    if name = "" ∨ name = "." then path
    else if name = ".." then path.tail
    else name :: path) []).reverse

def rootOfText (text : String) : Directory.Root := ⟨text, pathOfText text⟩

def openDirectory (root : Directory.Root) : CommandM Directory := do
  match Directory.ofTree root (← get).tree with
  | .ok directory => return directory
  | .error error => fail (error.message root)

/-- No one else uses the store meanwhile, so that no claim comes too late. -/
def patience : Nat := 0

/-- Runs an allocation on the store in a directory. -/
def allocate {α : Type} (directory : Directory)
    (allocation : Allocator → AllocationM DirectoryStore α) : CommandM α := do
  let host ← get
  let session : Session DirectoryStore := { store := ⟨directory, host.tree⟩, supply := host.supply }
  let (result, session) :=
    (ExceptT.run (allocation ⟨directory.config.generator, patience⟩)).run session
  set { host with tree := session.store.tree, supply := session.supply }
  match result with
  | .ok value => return value
  | .error error => fail error.message

end CommandM

open CommandM

def setUp (name : String) : CommandM Unit := do
  let root := rootOfText name
  if ((← get).tree.find? root.config).isSome then
    fail ("Store already initialized (found existing " ++ Directory.configName ++ ")")
  change ("Failed to create " ++ Directory.poolName ++ " directory") (·.createDirectories root.pool)
  change ("Failed to create " ++ Directory.dailyName ++ " directory")
    (·.createDirectories root.daily)
  change ("Failed to create " ++ Directory.configName ++ ": Failed to write config file")
    (Config.default.save · root.config)
  print ("Initialized equation store in " ++ name)
  print ("  Created: " ++ Directory.configName)
  print ("  Created: " ++ Directory.poolName ++ "/")
  print ("  Created: " ++ Directory.dailyName ++ "/")
  print ""
  print "Next steps:"
  print "  equatle pregenerate --year <YEAR>"
  print "  equatle daily"

/-- A label in a column of ten characters, and a number. -/
def tableRow (label : String) (number : Nat) : String :=
  label ++ String.ofList (List.replicate (10 - label.length) ' ') ++ " " ++ toString number

def printStatsTable (stats : Stats) : CommandM Unit := do
  if stats.totalPool = 0 ∧ stats.dailyCount = 0 then
    print "No equations yet. Fill the pool with 'equatle pregenerate'."
  else
    let terminal := (← get).terminal
    print "Equation pool"
    print (terminal.dim "─────────────")
    print (tableRow "Total" stats.totalPool)
    print (tableRow "Used" stats.usedPool)
    print (tableRow "Unused" stats.unusedPool)
    print ""
    print ("Daily equations: " ++ toString stats.dailyCount)
    print ""
    if stats.unusedPool = 0 then
      print ("Unused equations: " ++ terminal.warning "0" ++ " ⚠️")
      print (terminal.dim ("New dates will be generated on demand. " ++
        "Run 'equatle pregenerate' to refill the pool."))
    else
      print ("Unused equations: " ++ terminal.success (toString stats.unusedPool) ++ " ✅")

def statsJson (stats : Stats) : Json :=
  .record [("total_pool", .integer stats.totalPool), ("used_pool", .integer stats.usedPool),
    ("unused_pool", .integer stats.unusedPool), ("daily_count", .integer stats.dailyCount)]

def quietStats (stats : Stats) : String :=
  "pool=" ++ toString stats.totalPool ++ " used=" ++ toString stats.usedPool ++
    " unused=" ++ toString stats.unusedPool ++ " daily=" ++ toString stats.dailyCount

def status (root : Directory.Root) (output : OutputFormat) (quiet : Bool) : CommandM Unit := do
  let directory ← openDirectory root
  let stats ← allocate directory fun _ => Session.require Store.stats
  match output with
  | .json => print (statsJson stats).pretty
  | .table => if quiet then print (quietStats stats) else printStatsTable stats

def printPuzzle (puzzle : Puzzle) : OutputFormat → CommandM Unit
  | .json => print puzzle.toJson.pretty
  | .table => do
    print ("Equation:      " ++ puzzle.equation.text)
    print ("Target number: " ++ toString puzzle.targetNumber.toNat)
    print ("Difficulty:    " ++ puzzle.difficulty.name)

def daily (root : Directory.Root) (date : Option Day) (output : OutputFormat) : CommandM Unit := do
  let date := date.getD (← get).today
  let directory ← openDirectory root
  let daily ← allocate directory fun allocator => allocator.resolve date
  if output = .table then print ("Date:          " ++ date.text)
  printPuzzle daily.puzzle output

/-- A puzzle within the attempts that the store's configuration allows. -/
def practice (root : Directory.Root) (output : OutputFormat) : CommandM Unit := do
  let host ← get
  let generator := (Directory.loadConfig root host.tree).generator
  let (made, words) := generator.generate.run host.supply.words
  set { host with supply := { host.supply with words } }
  match made with
  | .ok puzzle => printPuzzle puzzle output
  | .error error => fail error.message

/-- Says why a guess is no equation. -/
def printInvalid (guess : String) (error : InvalidEquation) : CommandM Unit := do
  print ((← get).terminal.warning "invalid" ++ " " ++ guess ++ ": " ++ error.message)

def validate (typed : String) : CommandM Unit := do
  let guess := normalizeGuess typed
  match Equation.ofText guess with
  | .ok equation =>
    print ((← get).terminal.success "valid" ++ " " ++ equation.text ++ " = " ++
      Binary64.decimal equation.value)
  | .error error =>
    printInvalid guess error
    throw .silent

/-- The line that answers a guess: its tiles, and whether it solves the puzzle or what its value
is. -/
def scoreLine (terminal : Terminal) (target guess : Equation) : String :=
  let feedback := Feedback.ofSpellings guess.spelling target.spelling
  let tiles := (guess.text.toList.zip feedback.toList).map fun (c, tile) => terminal.tile c tile
  let verdict :=
    if isAcceptedSolution guess.text target.text then terminal.success "solved"
    else terminal.dim ("= " ++ Binary64.decimal guess.value)
  String.join tiles ++ "  " ++ verdict

/-- Answers guesses one by one.  Answers what they have told about the keys, and whether all of them
were equations. -/
def scoreGuesses (target : Equation) (keyboard : Keyboard) (allValid : Bool) :
    List String → CommandM (Keyboard × Bool)
  | [] => return (keyboard, allValid)
  | typed :: rest => do
    let guess := normalizeGuess typed
    match Equation.ofText guess with
    | .error error =>
      printInvalid guess error
      scoreGuesses target keyboard false rest
    | .ok equation =>
      print (scoreLine (← get).terminal target equation)
      let feedback := Feedback.ofSpellings equation.spelling target.spelling
      scoreGuesses target (keyboard.record equation.spelling feedback) allValid rest

/-- The equation to score against. -/
def checkTarget (root : Directory.Root) (target : Option String) (date : Option Day) :
    CommandM Equation := do
  match target with
  | some typed =>
    match Equation.ofText (normalizeGuess typed) with
    | .ok equation => return equation
    | .error error => fail ("Invalid target equation: " ++ error.message)
  | none =>
    let date := date.getD (← get).today
    let directory ← openDirectory root
    return (← allocate directory fun allocator => allocator.resolve date).equation

def check (root : Directory.Root) (guesses : List String) (target : Option String)
    (date : Option Day) : CommandM Unit := do
  let target ← checkTarget root target date
  let (keyboard, allValid) ← scoreGuesses target Keyboard.empty true guesses
  let terminal := (← get).terminal
  if !keyboard.keys.isEmpty then
    print ""
    print (String.join (keyboard.keys.map fun (key, tile) => terminal.tile key tile))
  if !allValid then throw .silent

def daysOfRange : DayRange → Except AllocationError (Day × Day)
  | .year year => Allocator.yearBounds year
  | .days first last =>
    if last.ordinal < first.ordinal then .error (.invalidRange first last) else .ok (first, last)

/-- Fills the pool.  The days are looked at before the store is opened. -/
def pregenerate (root : Directory.Root) (range : DayRange) : CommandM Unit := do
  match daysOfRange range with
  | .error error => fail error.message
  | .ok (first, last) =>
    let directory ← openDirectory root
    let result ← allocate directory fun allocator => allocator.pregenerate first last
    print ("Generated " ++ toString result.generated ++ " equations for " ++ first.text ++ " to " ++
      last.text ++ ": " ++ toString result.inserted ++ " added to the pool, " ++
      toString result.duplicates ++ " duplicates skipped")

def Invocation.run (invocation : Invocation) : CommandM Unit :=
  let root := rootOfText invocation.root
  match invocation.command with
  | .version => print "equatle 0.1.0"
  | .status output quiet => status root output quiet
  | .init => setUp invocation.root
  | .daily date output => daily root date output
  | .practice output => practice root output
  | .validate guess => validate guess
  | .check guesses target date => check root guesses target date
  | .pregenerate range => pregenerate root range

/-- How a run of the program ends. -/
inductive Outcome where
  /-- The arguments make no command. -/
  | usage
  | finished (output : String) (error : Option String) (succeeded : Bool)
  deriving DecidableEq, Repr

/-- Runs the program with its arguments. -/
def run (written : List String) (host : Host) : Outcome × Host :=
  match Invocation.ofArguments? written with
  | none => (.usage, host)
  | some invocation =>
    let (result, host) := (ExceptT.run invocation.run).run { host with output := "" }
    match result with
    | .ok () => (.finished host.output none true, host)
    | .error .silent => (.finished host.output none false, host)
    | .error (.message text) => (.finished host.output (some text) false, host)

end EquationPuzzle.CommandLine
