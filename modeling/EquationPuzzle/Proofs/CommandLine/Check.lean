import EquationPuzzle.CommandLine.Commands
import EquationPuzzle.Proofs.CommandLine.Tiles
import EquationPuzzle.Proofs.Keyboard.Merging
import EquationPuzzle.Proofs.Store.Outcome

/-!
# Reports on guesses

A check prints one line for each guess and then what the guesses have told about the keys.  The loop
over the guesses threads the keyboard and the verdict on all of them; its step lemmas say what one
guess adds to either, and the run lemma that each line is the answer to its own guess.  So the rows
of the equations and the keyboard are told by the equations among the guesses.
-/

namespace EquationPuzzle.CommandLine

/-! ## Printing -/

/-- Lines as they are printed. -/
def printed (lines : List String) : String :=
  String.join (lines.map (· ++ "\n"))

def Host.printing (host : Host) (lines : List String) : Host :=
  { host with output := host.output ++ printed lines }

theorem printed_append (lines more : List String) :
    printed (lines ++ more) = printed lines ++ printed more := by
  rw [printed, List.map_append, String.join_append]
  rfl

@[simp] theorem Host.terminal_printing (host : Host) (lines : List String) :
    (host.printing lines).terminal = host.terminal := rfl

@[simp] theorem Host.printing_nil (host : Host) : host.printing [] = host := by
  simp [Host.printing, printed]

@[simp] theorem Host.printing_printing (host : Host) (lines more : List String) :
    (host.printing lines).printing more = host.printing (lines ++ more) := by
  simp only [Host.printing, printed_append, String.append_assoc]

theorem outcome_print (line : String) (host : Host) :
    outcome (CommandM.print line) host = (.ok (), host.printing [line]) := by
  have hline : printed [line] = line ++ "\n" := by simp [printed]
  rw [Host.printing, hline, ← String.append_assoc]
  rfl

/-- The command prints nothing and leaves the terminal as it is. -/
def Quiet {α : Type} (command : CommandM α) : Prop :=
  ∀ host, Yields command host fun _ next =>
    next.terminal = host.terminal ∧ next.output = host.output

section Quiet

variable {α β : Type}

theorem Quiet.bind {command : CommandM α} {next : α → CommandM β} (hcommand : Quiet command)
    (hnext : ∀ answer, Quiet (next answer)) : Quiet (command >>= next) := by
  intro host
  apply (hcommand host).bind
  · intro failure middle hfirst
    exact hfirst
  · intro answer middle hfirst
    apply (hnext answer middle).imp
    intro _ last hlast
    exact ⟨hlast.1.trans hfirst.1, hlast.2.trans hfirst.2⟩

theorem quiet_pure (answer : α) : Quiet (pure answer : CommandM α) := by
  intro host
  exact ⟨rfl, rfl⟩

theorem quiet_fail (text : String) : Quiet (CommandM.fail text : CommandM α) := by
  intro host
  exact ⟨rfl, rfl⟩

theorem quiet_get : Quiet (get : CommandM Host) := by
  intro host
  exact ⟨rfl, rfl⟩

theorem quiet_openDirectory (root : Directory.Root) : Quiet (CommandM.openDirectory root) := by
  apply quiet_get.bind
  intro host
  cases Directory.ofTree root host.tree with
  | ok directory => exact quiet_pure directory
  | error error => exact quiet_fail _

theorem quiet_allocate (directory : Directory)
    (allocation : Allocator → AllocationM DirectoryStore α) :
    Quiet (CommandM.allocate directory allocation) := by
  intro host
  unfold Yields
  rw [CommandM.allocate, outcome_bind, outcome_get]
  dsimp only
  rcases (ExceptT.run (allocation ⟨directory.config.generator, CommandM.patience⟩)).run
    { store := ⟨directory, host.tree⟩, supply := host.supply } with ⟨result, session⟩
  cases result with
  | ok answer => exact ⟨rfl, rfl⟩
  | error error => exact ⟨rfl, rfl⟩

end Quiet

/-- Whatever target is asked for, finding it prints nothing. -/
theorem quiet_checkTarget (root : Directory.Root) (typed : Option String) (date : Option Day) :
    Quiet (checkTarget root typed date) := by
  cases typed with
  | some typed =>
      rw [checkTarget]
      cases Equation.ofText (normalizeGuess typed) with
      | ok equation => exact quiet_pure equation
      | error error => exact quiet_fail _
  | none =>
      apply quiet_get.bind
      intro host
      apply (quiet_openDirectory root).bind
      intro directory
      exact (quiet_allocate directory _).bind fun daily => quiet_pure _

/-! ## Guesses -/

/-- The line that answers a typed guess by itself. -/
def answerLine (terminal : Terminal) (target : Equation) (typed : String) : String :=
  match Equation.ofText (normalizeGuess typed) with
  | .ok guess => scoreLine terminal target guess
  | .error error =>
    terminal.warning "invalid" ++ " " ++ normalizeGuess typed ++ ": " ++ error.message

/-- The equations among typed guesses. -/
def equationsOf (guesses : List String) : List Equation :=
  guesses.filterMap fun typed => (Equation.ofText (normalizeGuess typed)).toOption

def isEquation (typed : String) : Bool :=
  (Equation.ofText (normalizeGuess typed)).toOption.isSome

/-- The guesses with the feedback that they get. -/
def rounds (target : Equation) (guesses : List Equation) : List (Spelling × Feedback) :=
  guesses.map fun guess => (guess.spelling, .ofSpellings guess.spelling target.spelling)

section Guesses

variable {target guess : Equation} {typed : String} {error : InvalidEquation}

theorem equationsOf_cons_of_ok (hread : Equation.ofText (normalizeGuess typed) = .ok guess)
    (rest : List String) : equationsOf (typed :: rest) = guess :: equationsOf rest := by
  simp [equationsOf, hread, Except.toOption]

theorem equationsOf_cons_of_error (hread : Equation.ofText (normalizeGuess typed) = .error error)
    (rest : List String) : equationsOf (typed :: rest) = equationsOf rest := by
  simp [equationsOf, hread, Except.toOption]

theorem isEquation_of_ok (hread : Equation.ofText (normalizeGuess typed) = .ok guess) :
    isEquation typed = true := by
  rw [isEquation, hread]
  rfl

theorem isEquation_of_error (hread : Equation.ofText (normalizeGuess typed) = .error error) :
    isEquation typed = false := by
  rw [isEquation, hread]
  rfl

theorem outcome_scoreGuesses_of_ok (hread : Equation.ofText (normalizeGuess typed) = .ok guess)
    (keyboard : Keyboard) (allValid : Bool) (rest : List String) (host : Host) :
    outcome (scoreGuesses target keyboard allValid (typed :: rest)) host =
      outcome (scoreGuesses target
          (keyboard.record guess.spelling (.ofSpellings guess.spelling target.spelling)) allValid
          rest) (host.printing [answerLine host.terminal target typed]) := by
  rw [scoreGuesses]
  simp only [hread]
  rw [outcome_bind, outcome_get]
  dsimp only
  rw [outcome_bind, outcome_print, answerLine, hread]

theorem outcome_scoreGuesses_of_error
    (hread : Equation.ofText (normalizeGuess typed) = .error error) (keyboard : Keyboard)
    (allValid : Bool) (rest : List String) (host : Host) :
    outcome (scoreGuesses target keyboard allValid (typed :: rest)) host =
      outcome (scoreGuesses target keyboard false rest)
        (host.printing [answerLine host.terminal target typed]) := by
  rw [scoreGuesses]
  simp only [hread]
  rw [outcome_bind, printInvalid, outcome_bind, outcome_get]
  dsimp only
  rw [outcome_print, answerLine, hread]

end Guesses

/-- The loop prints the answer to each guess, learns from the equations, and notices whether all
guesses are equations. -/
theorem outcome_scoreGuesses (target : Equation) (keyboard : Keyboard) (allValid : Bool)
    (guesses : List String) (host : Host) :
    outcome (scoreGuesses target keyboard allValid guesses) host =
      (.ok (keyboard.recordAll (rounds target (equationsOf guesses)),
          allValid && guesses.all isEquation),
        host.printing (guesses.map (answerLine host.terminal target))) := by
  induction guesses generalizing keyboard allValid host with
  | nil => simp [scoreGuesses, equationsOf, rounds, Keyboard.recordAll]
  | cons typed rest ih =>
      cases hread : Equation.ofText (normalizeGuess typed) with
      | ok guess =>
          rw [outcome_scoreGuesses_of_ok hread, ih, equationsOf_cons_of_ok hread, List.all_cons,
            isEquation_of_ok hread, Host.printing_printing]
          rfl
      | error error =>
          rw [outcome_scoreGuesses_of_error hread, ih, equationsOf_cons_of_error hread,
            List.all_cons, isEquation_of_error hread, Host.printing_printing, Bool.false_and,
            Bool.and_false]
          rfl

/-! ## The keyboard -/

/-- The lines that show the keyboard, if there are keys to show. -/
def keyboardLines (hasColor : Bool) (keyboard : Keyboard) : List String :=
  if keyboard.keys.isEmpty then [] else ["", tilesText hasColor keyboard.keys]


theorem recordAll_rounds (target : Equation) (guesses : List Equation) :
    Keyboard.empty.recordAll (rounds target guesses) =
      Keyboard.afterGuesses target.spelling (guesses.map Equation.spelling) := by
  rw [Keyboard.recordAll, rounds, Keyboard.afterGuesses, List.foldl_map, List.foldl_map]

theorem keyboardLines_eq_nil_iff (hasColor : Bool) (target : Spelling)
    (guesses : List Spelling) :
    keyboardLines hasColor (Keyboard.afterGuesses target guesses) = [] ↔ guesses = [] := by
  rw [← Keyboard.keys_afterGuesses_eq_nil_iff target guesses, keyboardLines]
  cases (Keyboard.afterGuesses target guesses).keys with
  | nil => simp
  | cons key rest => simp

/-! ## The whole report -/

theorem outcome_conclude (allValid : Bool) (host : Host) :
    outcome (if !allValid then throw .silent else pure () : CommandM Unit) host =
      (if allValid then .ok () else .error .silent, host) := by
  cases allValid with
  | true => rfl
  | false => rfl

/-- What a check of guesses prints: the answer to each of them, and the keyboard. -/
def report (terminal : Terminal) (target : Equation) (guesses : List String) : List String :=
  guesses.map (answerLine terminal target) ++ keyboardLines terminal.hasColor
    (Keyboard.afterGuesses target.spelling ((equationsOf guesses).map Equation.spelling))

theorem outcome_check {root : Directory.Root} {typed : Option String} {date : Option Day}
    {target : Equation} {host middle : Host}
    (htarget : outcome (checkTarget root typed date) host = (.ok target, middle))
    (guesses : List String) :
    outcome (check root guesses typed date) host =
      (if guesses.all isEquation then .ok () else .error .silent,
        middle.printing (report middle.terminal target guesses)) := by
  rw [check, outcome_bind, htarget]
  dsimp only
  rw [outcome_bind, outcome_scoreGuesses, recordAll_rounds]
  dsimp only
  rw [outcome_bind, outcome_get, report, keyboardLines, ← join_map_tile]
  dsimp only
  generalize Keyboard.afterGuesses _ _ = keyboard
  cases keyboard.keys with
  | nil =>
      simp only [List.isEmpty_nil, Bool.not_true, Bool.false_eq_true, if_false, if_true,
        List.append_nil]
      exact outcome_conclude _ _
  | cons key rest =>
      simp only [List.isEmpty_cons, Bool.not_false, if_true, Bool.false_eq_true, if_false,
        Host.terminal_printing]
      rw [outcome_bind, outcome_print]
      dsimp only
      rw [outcome_bind, outcome_print]
      dsimp only
      rw [Bool.true_and, outcome_conclude, Host.printing_printing, Host.printing_printing]
      rfl

section Run

variable {arguments : List String} {invocation : Invocation} {host next : Host}

theorem run_of_outcome_ok (harguments : Invocation.ofArguments? arguments = some invocation)
    (hrun : outcome invocation.run { host with output := "" } = (.ok (), next)) :
    run arguments host = (.finished next.output none true, next) := by
  have hrun : (ExceptT.run invocation.run).run { host with output := "" } = (.ok (), next) := hrun
  rw [run, harguments]
  dsimp only
  rw [hrun]

theorem run_of_outcome_silent (harguments : Invocation.ofArguments? arguments = some invocation)
    (hrun : outcome invocation.run { host with output := "" } = (.error .silent, next)) :
    run arguments host = (.finished next.output none false, next) := by
  have hrun : (ExceptT.run invocation.run).run { host with output := "" } =
      (.error .silent, next) := hrun
  rw [run, harguments]
  dsimp only
  rw [hrun]

end Run

theorem run_check {arguments guesses : List String} {name : String}
    {typed : Option String} {date : Option Day} {target : Equation} {host middle : Host}
    (harguments : Invocation.ofArguments? arguments = some ⟨name, .check guesses typed date⟩)
    (htarget : outcome (checkTarget (CommandM.rootOfText name) typed date)
      { host with output := "" } = (.ok target, middle)) :
    run arguments host =
      (.finished (printed (report host.terminal target guesses)) none (guesses.all isEquation),
        { middle with output := printed (report host.terminal target guesses) }) := by
  have hquiet := quiet_checkTarget (CommandM.rootOfText name) typed date { host with output := "" }
  rw [Yields, htarget] at hquiet
  have hterminal : middle.terminal = host.terminal := hquiet.1
  have houtput : middle.output = "" := hquiet.2
  have hprinted : middle.printing (report host.terminal target guesses) =
      { middle with output := printed (report host.terminal target guesses) } := by
    rw [Host.printing, houtput, String.empty_append]
  have hcheck := outcome_check htarget guesses
  rw [hterminal, hprinted] at hcheck
  cases hall : guesses.all isEquation with
  | true =>
      rw [hall, if_pos rfl] at hcheck
      exact run_of_outcome_ok harguments hcheck
  | false =>
      rw [hall, if_neg Bool.false_ne_true] at hcheck
      exact run_of_outcome_silent harguments hcheck

/-! ## Rows -/

/-- What stands behind the tiles of a guess that solves the puzzle. -/
def solvedText (hasColor : Bool) : String :=
  if hasColor then "\x1b[38;2;000;128;000msolved\x1b[39m" else "solved"

/-- What stands behind the tiles of any other guess. -/
def valueText (hasColor : Bool) (value : Rat) : String :=
  if hasColor then "\x1b[2m= " ++ Binary64.decimal value ++ "\x1b[0m"
  else "= " ++ Binary64.decimal value

/-- The row shows the feedback on the guess, and behind it that the guess solves the puzzle just if
it does, and else its value. -/
def IsRow (hasColor : Bool) (target guess : Equation) (row : String) : Prop :=
  ∃ verdict, row = tilesText hasColor (guess.text.toList.zip
      (Feedback.ofSpellings guess.spelling target.spelling).toList) ++ "  " ++ verdict ∧
    (verdict = solvedText hasColor ↔ isAcceptedSolution guess.text target.text = true) ∧
    (verdict = valueText hasColor guess.value ↔ isAcceptedSolution guess.text target.text = false)

theorem success_solved (terminal : Terminal) :
    terminal.success "solved" = solvedText terminal.hasColor := by
  rcases terminal with ⟨hasColor⟩
  cases hasColor <;> rfl

theorem dim_decimal (terminal : Terminal) (value : Rat) :
    terminal.dim ("= " ++ Binary64.decimal value) = valueText terminal.hasColor value := by
  rcases terminal with ⟨hasColor⟩
  cases hasColor with
  | false => rfl
  | true => simp [Terminal.dim, Terminal.attributes, valueText, ← String.append_assoc]

theorem valueText_ne_solvedText (hasColor : Bool) (value : Rat) :
    valueText hasColor value ≠ solvedText hasColor := by
  intro hsame
  have hcharacters := congrArg String.toList hsame
  cases hasColor <;> simp [valueText, solvedText] at hcharacters

theorem isRow_scoreLine (terminal : Terminal) (target guess : Equation) :
    IsRow terminal.hasColor target guess (scoreLine terminal target guess) := by
  rw [scoreLine]
  dsimp only
  rw [join_map_tile, success_solved, dim_decimal]
  refine ⟨_, rfl, ?_⟩
  have hdistinct := valueText_ne_solvedText terminal.hasColor guess.value
  split
  next haccepted => simp [haccepted, hdistinct.symm]
  next haccepted => simp [haccepted, hdistinct]

/-- The lines that answer equations. -/
def rowsOf (guesses lines : List String) : List String :=
  ((guesses.zip lines).filter fun pair => isEquation pair.1).map Prod.snd

theorem rowsOf_cons_cons (typed line : String) (guesses lines : List String) :
    rowsOf (typed :: guesses) (line :: lines) =
      if isEquation typed then line :: rowsOf guesses lines else rowsOf guesses lines := by
  rw [rowsOf, List.zip_cons_cons, List.filter_cons]
  split
  next => rfl
  next => rfl

theorem rowsOf_map_answerLine (terminal : Terminal) (target : Equation) (guesses : List String) :
    rowsOf guesses (guesses.map (answerLine terminal target)) =
      (equationsOf guesses).map (scoreLine terminal target) := by
  induction guesses with
  | nil => rfl
  | cons typed rest ih =>
      rw [List.map_cons, rowsOf_cons_cons, ih]
      cases hread : Equation.ofText (normalizeGuess typed) with
      | ok guess =>
          rw [if_pos (isEquation_of_ok hread), equationsOf_cons_of_ok hread, List.map_cons,
            answerLine, hread]
      | error error =>
          rw [isEquation_of_error hread, if_neg Bool.false_ne_true,
            equationsOf_cons_of_error hread]

theorem isEquation_eq_false_iff (typed : String) :
    isEquation typed = false ↔
      ∀ equation, Equation.ofText (normalizeGuess typed) ≠ .ok equation := by
  cases hread : Equation.ofText (normalizeGuess typed) with
  | ok guess => simp [isEquation_of_ok hread]
  | error error => simp [isEquation_of_error hread]

theorem equationsOf_eq_nil_iff (guesses : List String) :
    equationsOf guesses = [] ↔ ∀ typed ∈ guesses,
      ∀ equation, Equation.ofText (normalizeGuess typed) ≠ .ok equation := by
  simp only [equationsOf, List.filterMap_eq_nil_iff, ← isEquation_eq_false_iff, isEquation,
    Option.isSome_eq_false_iff, Option.isNone_iff_eq_none]

/-- A check answers each guess with a line that depends on no other guess.  It fails just if some
guess is no equation.  A line of tiles tells each character with its tile: so the rows of the
equations tell their score, and behind it whether they solve the puzzle, and the keyboard what is
merged from their feedback, if there are any.  The rows and the keyboard are the same for all checks
with the same equations among their guesses in the same order, whatever else is inserted, removed or
moved. -/
theorem run_check_rows {host middle : Host} {name : String} {typed : Option String}
    {date : Option Day} {target : Equation}
    (htarget : outcome (checkTarget (CommandM.rootOfText name) typed date)
      { host with output := "" } = (.ok target, middle)) (guesses : List String) :
    let hasColor := host.terminal.hasColor
    let equations := equationsOf guesses
    let keys := keyboardLines hasColor
      (Keyboard.afterGuesses target.spelling (equations.map Equation.spelling))
    Function.Injective (tilesText hasColor) ∧
      (∀ guess, IsRow hasColor target guess (scoreLine host.terminal target guess)) ∧
      (keys = [] ↔ ∀ typed ∈ guesses,
        ∀ equation, Equation.ofText (normalizeGuess typed) ≠ .ok equation) ∧
      ∀ others arguments, equationsOf others = equations →
        Invocation.ofArguments? arguments = some ⟨name, .check others typed date⟩ →
        ∃ lines succeeded after,
          run arguments host = (.finished (printed (lines ++ keys)) none succeeded, after) ∧
            lines = others.map (answerLine host.terminal target) ∧
            rowsOf others lines = equations.map (scoreLine host.terminal target) ∧
            (succeeded = false ↔ ∃ typed ∈ others,
              ∀ equation, Equation.ofText (normalizeGuess typed) ≠ .ok equation) := by
  intro hasColor equations keys
  refine ⟨tilesText_injective hasColor, isRow_scoreLine host.terminal target, ?_, ?_⟩
  · rw [← equationsOf_eq_nil_iff, keyboardLines_eq_nil_iff, List.map_eq_nil_iff]
  · intro others arguments hequations harguments
    have hrun := run_check harguments htarget
    have hreport : report host.terminal target others =
        others.map (answerLine host.terminal target) ++ keys := by
      rw [report, hequations]
    rw [hreport] at hrun
    refine ⟨_, _, _, hrun, rfl, ?_, ?_⟩
    · rw [rowsOf_map_answerLine, hequations]
    · simp only [List.all_eq_false, Bool.not_eq_true, isEquation_eq_false_iff]

/-- Two checks without colors print the same rows of tiles and the same keyboard.  One of them
answers a text that is no equation between these rows, and fails. -/
theorem run_check_rows_mixed :
    let target : Equation :=
      ⟨#v[.digit 1, .digit 2, .operator .add, .digit 3, .operator .multiply, .digit 4], 24,
        by decide, by decide +kernel⟩
    let date : Day := ⟨2025, 3, 1, by decide⟩
    let host : Host := {
      terminal := ⟨false⟩
      tree := FileTree.empty
      supply := .seeded 1 2 ⟨date, 0, 0, by decide, by decide⟩
      today := date }
    let keys := ["", "[+][1][2][3](4) 5 [×]"]
    outcome (checkTarget (CommandM.rootOfText ".") (some "12+3*4") none)
        { host with output := "" } = (.ok target, host) ∧
      equationsOf ["12+3x5", "12+4x3"] = equationsOf ["12+3x5", "4x3+1", "12+4x3"] ∧
      (run ["check", "--target", "12+3*4", "12+3x5", "4x3+1", "12+4x3"] host).1 =
        .finished (printed (["[1][2][+][3][×] 5   = 27",
          "invalid 4×3+1: expected 6 characters, found 5",
          "[1][2][+](4)[×](3)  solved"] ++ keys)) none false ∧
      (run ["check", "12+3x5", "12+4x3", "--target=12+3*4"] host).1 =
        .finished (printed (["[1][2][+][3][×] 5   = 27",
          "[1][2][+](4)[×](3)  solved"] ++ keys)) none true := by
  intro target date host keys
  have htarget : outcome (checkTarget (CommandM.rootOfText ".") (some "12+3*4") none)
      { host with output := "" } = (.ok target, host) := by
    have hread : Equation.ofText (normalizeGuess "12+3*4") = .ok target := by decide +kernel
    rw [checkTarget, hread]
    rfl
  have hsame : equationsOf ["12+3x5", "12+4x3"] = equationsOf ["12+3x5", "4x3+1", "12+4x3"] := by
    decide +kernel
  have harguments : Invocation.ofArguments?
        ["check", "--target", "12+3*4", "12+3x5", "4x3+1", "12+4x3"] =
          some ⟨".", .check ["12+3x5", "4x3+1", "12+4x3"] (some "12+3*4") none⟩ ∧
      Invocation.ofArguments? ["check", "12+3x5", "12+4x3", "--target=12+3*4"] =
        some ⟨".", .check ["12+3x5", "12+4x3"] (some "12+3*4") none⟩ := by
    simp [Invocation.ofArguments?, Invocation.versionForm, Command.forms, globalForms,
      Arguments.read, Arguments.read.complete, Arguments.readName, Arguments.isOption,
      Arguments.isUnrepeated, Arguments.read?, Arguments.find?, Arguments.has]
    exact ⟨rfl, rfl⟩
  have hfirst : answerLine host.terminal target "12+3x5" = "[1][2][+][3][×] 5   = 27" := by
    decide +kernel
  have hwrong : isEquation "4x3+1" = false := by decide +kernel
  have hright : isEquation "12+3x5" ≠ false ∧ isEquation "12+4x3" ≠ false := by decide +kernel
  rcases run_check_rows htarget ["12+3x5", "4x3+1", "12+4x3"] with ⟨-, -, -, hrun⟩
  rcases hrun _ _ rfl harguments.1 with ⟨_, failed, _, hmixed, rfl, -, hfailed⟩
  rcases hrun _ _ hsame harguments.2 with ⟨_, passed, _, hplain, rfl, -, hpassed⟩
  simp only [← isEquation_eq_false_iff] at hfailed hpassed
  have hkeys : keyboardLines host.terminal.hasColor (Keyboard.afterGuesses target.spelling
      ((equationsOf ["12+3x5", "4x3+1", "12+4x3"]).map Equation.spelling)) = keys := by
    decide +kernel
  have hinvalid : answerLine host.terminal target "4x3+1" =
      "invalid 4×3+1: expected 6 characters, found 5" := by
    decide +kernel
  have hlast : answerLine host.terminal target "12+4x3" = "[1][2][+](4)[×](3)  solved" := by
    decide +kernel
  refine ⟨htarget, hsame, ?_, ?_⟩
  · have : failed = false := hfailed.2 ⟨_, by simp, hwrong⟩
    rw [hmixed, hkeys, this]
    simp only [List.map_cons, List.map_nil, hfirst, hinvalid, hlast]
  · have : passed = true := by simpa [hright.1, hright.2] using hpassed
    rw [hplain, hkeys, this]
    simp only [List.map_cons, List.map_nil, hfirst, hlast]

end EquationPuzzle.CommandLine
