import EquationPuzzle.Proofs.Evaluation.Magnitudes
import EquationPuzzle.Proofs.Grammar.Reading

/-!
# What comes of a text

A text of any length is evaluated from left to right.  A fault can stand only where a number has to
start: at the beginning and behind each operator.  So while the reading passes over a row, nothing
but the place behind the last operator has to be looked at, and the fault that ends the evaluation
is the leftmost one.  Without a fault the row is an expression, and only its final value decides;
what has become infinite on the way does not matter.
-/

namespace EquationPuzzle

namespace Operations

/-- The digits that are read are all there are before the first operator. -/
theorem map_toChar_read_fst (position : Nat) (symbols : List Symbol) :
    (read position symbols).1.map (Symbol.toChar ∘ Symbol.digit) =
      (symbols.map Symbol.toChar).takeWhile Char.isDigit := by
  induction symbols generalizing position with
  | nil => rfl
  | cons symbol rest ih =>
      rcases hrest : read (position + 1) rest with ⟨operand, behind⟩
      have hoperand := ih (position + 1)
      rw [hrest] at hoperand
      cases symbol with
      | digit digit =>
          rw [read_digit hrest, List.map_cons, List.map_cons, hoperand,
            List.takeWhile_cons_of_pos (Symbol.isDigit_toChar digit)]
          rfl
      | operator op =>
          have hempty : (read position (.operator op :: rest)).1 = [] := by
            by_cases hnone : operand = []
            · subst hnone
              obtain ⟨error, hfault⟩ := read_operator_nil hrest op
              rw [hfault]
            · rw [read_operator hrest hnone op]
          have hsign : ¬(Symbol.operator op).toChar.isDigit = true := by
            simp [Symbol.toChar, op.isDigit_toChar]
          rw [hempty, List.map_cons, List.takeWhile_cons_of_neg hsign, List.map_nil]

theorem apply_of_additive {pending : Operator} (hpending : pending.isMultiplicative = false)
    (total term : Binary64) : ∃ sum : Binary64, pending.apply total term = .ok sum := by
  cases pending with
  | add => exact ⟨_, rfl⟩
  | subtract => exact ⟨_, rfl⟩
  | multiply => contradiction
  | divide => contradiction

/-- An operation is refused for a zero behind a division sign, and otherwise leads to the
operations behind it. -/
theorem value_next_cases {pending : Operator} (hpending : pending.isMultiplicative = false)
    (total term : Binary64) (op : Operator) (operand : Digits) (rest : Operations) :
    (op = .divide ∧ operand.value.isZero = true ∧
        (next op operand rest).value total pending term = .error .divisionByZero) ∨
      (op = .divide → operand.value.isZero = false) ∧
        ∃ total' pending' term', pending'.isMultiplicative = false ∧
          (next op operand rest).value total pending term = rest.value total' pending' term' := by
  obtain ⟨sum, hsum⟩ := apply_of_additive hpending total term
  cases op with
  | add =>
      refine Or.inr ⟨by simp, sum, .add, operand.value, rfl, ?_⟩
      rw [value, hsum]
      rfl
  | subtract =>
      refine Or.inr ⟨by simp, sum, .subtract, operand.value, rfl, ?_⟩
      rw [value, hsum]
      rfl
  | multiply => exact Or.inr ⟨by simp, total, pending, term.multiply operand.value, hpending, rfl⟩
  | divide =>
      by_cases hzero : operand.value.isZero = true
      · refine Or.inl ⟨rfl, hzero, ?_⟩
        simp [value, Operator.isMultiplicative, Operator.apply, hzero, bind, Except.bind]
      · rw [Bool.not_eq_true] at hzero
        refine Or.inr ⟨fun _ => hzero, total, pending, term.divide operand.value, hpending, ?_⟩
        simp [value, Operator.isMultiplicative, Operator.apply, hzero, bind, Except.bind]

end Operations

namespace Evaluation

open Grammar

/-- What has been passed of a text ends where a number has to start. -/
def ExpectsNumber (passed : List Char) : Prop :=
  passed = [] ∨ ∃ before op, op ∈ Operator.characters ∧ passed = before ++ [op]

/-- The fault that stands between what has been passed of a text and its rest: an operator or the
end of the text in the place of a number, or zeros only in the place of a divisor. -/
inductive Fails : List Char → List Char → EvaluationError → Prop
  | expectedNumber {passed rest : List Char} {op : Char} (hexpects : ExpectsNumber passed)
      (hop : op ∈ Operator.characters) : Fails passed (op :: rest) (.expectedNumber passed.length)
  | danglingOperator {before : List Char} {op : Char} (hop : op ∈ Operator.characters) :
      Fails (before ++ [op]) [] .danglingOperator
  | divisionByZero {before rest : List Char} (hnumber : rest.takeWhile Char.isDigit ≠ [])
      (hzeros : ∀ c ∈ rest.takeWhile Char.isDigit, c = '0') :
      Fails (before ++ ['÷']) rest .divisionByZero

/-- No fault is met before so many characters have been passed. -/
def ClearUntil (text : List Char) (count : Nat) : Prop :=
  ∀ passed rest error, text = passed ++ rest → passed.length < count → ¬Fails passed rest error

def Faultless (text : List Char) : Prop :=
  ∀ passed rest error, text = passed ++ rest → ¬Fails passed rest error

/-- The leftmost fault of a text. -/
def FailsFirst (text : List Char) (error : EvaluationError) : Prop :=
  ∃ passed rest, text = passed ++ rest ∧ Fails passed rest error ∧ ClearUntil text passed.length

section Fails

variable {text passed rest : List Char} {c : Char} {error other : EvaluationError}

theorem Fails.expectsNumber (hfails : Fails passed rest error) : ExpectsNumber passed := by
  cases hfails with
  | expectedNumber hexpects hop => exact hexpects
  | danglingOperator hop => exact Or.inr ⟨_, _, hop, rfl⟩
  | divisionByZero hnumber hzeros => exact Or.inr ⟨_, '÷', by decide, rfl⟩

theorem expectsNumber_concat_iff : ExpectsNumber (passed ++ [c]) ↔ c ∈ Operator.characters := by
  constructor
  · rintro (hnil | ⟨before, op, hop, hsplit⟩)
    · simp at hnil
    · have hsame : c = op := (List.cons.inj (List.append_inj' hsplit rfl).2).1
      rwa [hsame]
  · exact fun hc => Or.inr ⟨passed, c, hc, rfl⟩

theorem takeWhile_operator (hop : c ∈ Operator.characters) (rest : List Char) :
    (c :: rest).takeWhile Char.isDigit = [] :=
  List.takeWhile_cons_of_neg fun hdigit => not_mem_characters_of_isDigit hdigit hop

/-- At one place there is one fault at most. -/
theorem Fails.eq (hfails : Fails passed rest error) (hother : Fails passed rest other) :
    error = other := by
  cases hfails with
  | expectedNumber hexpects hop =>
      cases hother with
      | expectedNumber _ _ => rfl
      | divisionByZero hnumber _ => exact (hnumber (takeWhile_operator hop _)).elim
  | danglingOperator hop =>
      generalize _ ++ [_] = passed at hother
      cases hother with
      | danglingOperator _ => rfl
      | divisionByZero hnumber _ => exact (hnumber rfl).elim
  | divisionByZero hnumber hzeros =>
      generalize _ ++ [_] = passed at hother
      cases hother with
      | expectedNumber _ hop => exact (hnumber (takeWhile_operator hop _)).elim
      | danglingOperator _ => exact (hnumber rfl).elim
      | divisionByZero _ _ => rfl

theorem FailsFirst.eq (hfails : FailsFirst text error) (hother : FailsFirst text other) :
    error = other := by
  obtain ⟨passed, rest, hsplit, hfault, hclear⟩ := hfails
  obtain ⟨passed', rest', hsplit', hfault', hclear'⟩ := hother
  rcases Nat.lt_trichotomy passed.length passed'.length with hlt | hlength | hgt
  · exact (hclear' _ _ _ hsplit hlt hfault).elim
  · obtain ⟨rfl, rfl⟩ := List.append_inj (hsplit.symm.trans hsplit') hlength
    exact hfault.eq hfault'
  · exact (hclear _ _ _ hsplit' hgt hfault').elim

theorem FailsFirst.not_faultless (hfails : FailsFirst text error) : ¬Faultless text := by
  obtain ⟨passed, rest, hsplit, hfault, _⟩ := hfails
  exact fun hfaultless => hfaultless passed rest error hsplit hfault

theorem Fails.ne_nil (hfails : Fails passed rest error) : passed ++ rest ≠ [] := by
  cases hfails with
  | expectedNumber hexpects hop => simp
  | danglingOperator hop => simp
  | divisionByZero hnumber hzeros => simp

theorem FailsFirst.ne_nil (hfails : FailsFirst text error) : text ≠ [] := by
  obtain ⟨passed, rest, rfl, hfault, _⟩ := hfails
  exact hfault.ne_nil

theorem ClearUntil.succ (hclear : ClearUntil (passed ++ rest) passed.length)
    (hnone : ∀ error, ¬Fails passed rest error) :
    ClearUntil (passed ++ rest) (passed.length + 1) := by
  intro earlier later error hsplit hlength
  rcases Nat.lt_succ_iff_lt_or_eq.mp hlength with hlt | hsame
  · exact hclear earlier later error hsplit hlt
  · obtain ⟨rfl, rfl⟩ := List.append_inj hsplit hsame.symm
    exact hnone error

theorem ClearUntil.faultless (hclear : ClearUntil text (text.length + 1)) : Faultless text := by
  intro passed rest error hsplit
  refine hclear passed rest error hsplit ?_
  rw [hsplit, List.length_append]
  omega

theorem clearUntil_zero (text : List Char) : ClearUntil text 0 :=
  fun _ _ _ _ hlength => (Nat.not_lt_zero _ hlength).elim

end Fails

/-! ## Rows of symbols -/

section Behind

variable {before : List Char} {rest : List Symbol} {operand : Digits} {behind : Operations}

/-- Without a number behind it an operator leads to a fault. -/
theorem exists_fails_of_read_nil
    (hrest : Operations.read (before.length + 1) rest = ([], behind)) (op : Operator) :
    ∃ error, Operations.read before.length (.operator op :: rest) = ([], .fault error) ∧
      Fails (before ++ [op.toChar]) (rest.map Symbol.toChar) error := by
  have hexpects : ExpectsNumber (before ++ [op.toChar]) :=
    expectsNumber_concat_iff.mpr op.toChar_mem
  have hlength : (before ++ [op.toChar]).length = before.length + 1 := by simp
  cases rest with
  | nil =>
      refine ⟨.danglingOperator, ?_, .danglingOperator op.toChar_mem⟩
      simp [Operations.read]
  | cons symbol rest =>
      cases symbol with
      | digit digit =>
          have hfirst := Spelling.read_fst_ne_nil_iff (before.length + 1) (.digit digit :: rest)
          simp [hrest] at hfirst
      | operator other =>
          refine ⟨.expectedNumber (before.length + 1), ?_, ?_⟩
          · rw [Operations.read, hrest]
            simp
          · rw [List.map_cons, ← hlength]
            exact .expectedNumber hexpects other.toChar_mem

/-- With a number behind it, only a division by zero is a fault. -/
theorem fails_iff_of_read (hrest : Operations.read (before.length + 1) rest = (operand, behind))
    (hoperand : operand ≠ []) (op : Operator) (error : EvaluationError) :
    Fails (before ++ [op.toChar]) (rest.map Symbol.toChar) error ↔
      op = .divide ∧ operand.value.isZero = true ∧ error = .divisionByZero := by
  have hdigits := Operations.map_toChar_read_fst (before.length + 1) rest
  rw [hrest] at hdigits
  have hzeros : (∀ c ∈ (rest.map Symbol.toChar).takeWhile Char.isDigit, c = '0') ↔
      operand.value.isZero = true := by
    have hzero : ∀ digit, (Symbol.digit digit).toChar = '0' ↔ digit = 0 := by decide
    simp only [← hdigits, List.forall_mem_map, Digits.isZero_value_iff, Function.comp_apply, hzero]
  have hnumber : (rest.map Symbol.toChar).takeWhile Char.isDigit ≠ [] := by
    rw [← hdigits]
    simpa using hoperand
  constructor
  · intro hfails
    generalize hpassed : before ++ [op.toChar] = passed at hfails
    generalize rest.map Symbol.toChar = later at hfails hnumber hzeros
    cases hfails with
    | expectedNumber hexpects hop => exact (hnumber (takeWhile_operator hop _)).elim
    | danglingOperator hop => exact (hnumber rfl).elim
    | divisionByZero _ hall =>
        have hsign : op.toChar = '÷' := (List.cons.inj (List.append_inj' hpassed rfl).2).1
        have hdivide : op = .divide := by
          cases op <;> first | rfl | contradiction
        exact ⟨hdivide, hzeros.mp hall, rfl⟩
  · rintro ⟨rfl, hzero, rfl⟩
    exact .divisionByZero hnumber (hzeros.mpr hzero)

end Behind

/-- A row that is read up to a place comes to something, or it is refused for the leftmost fault of
the whole text.  What has been summed up to then does not matter. -/
theorem value_cases {before : List Char} {symbols : List Symbol} {digits : Digits}
    {operations : Operations} (hread : Operations.read before.length symbols = (digits, operations))
    (hclear : ClearUntil (before ++ symbols.map Symbol.toChar) (before.length + 1))
    {total term : Binary64} {pending : Operator} (hpending : pending.isMultiplicative = false) :
    (∃ error, operations.value total pending term = .error error ∧
        FailsFirst (before ++ symbols.map Symbol.toChar) error) ∨
      (∃ result, operations.value total pending term = .ok result) ∧
        Faultless (before ++ symbols.map Symbol.toChar) := by
  -- The place behind `before` is clear, too: behind an operator it is looked at before going on.
  induction symbols generalizing before digits operations total pending term with
  | nil =>
      obtain ⟨rfl, rfl⟩ := Prod.mk.inj hread
      rw [List.map_nil, List.append_nil] at hclear ⊢
      exact Or.inr ⟨Operations.apply_of_additive hpending total term, hclear.faultless⟩
  | cons symbol rest ih =>
      rcases hrest : Operations.read (before.length + 1) rest with ⟨operand, behind⟩
      have hlength : (before ++ [symbol.toChar]).length = before.length + 1 := by simp
      have hrow : before ++ (symbol :: rest).map Symbol.toChar =
          (before ++ [symbol.toChar]) ++ rest.map Symbol.toChar := by simp
      rw [← hlength, hrow] at hclear
      rw [← hlength] at hrest
      rw [hrow]
      cases symbol with
      | digit digit =>
          obtain ⟨rfl, rfl⟩ :=
            Prod.mk.inj ((Operations.read_digit (hlength ▸ hrest) digit).symm.trans hread)
          refine ih hrest (hclear.succ fun error hfails => ?_) hpending
          exact not_mem_characters_of_isDigit (Symbol.isDigit_toChar digit)
            (expectsNumber_concat_iff.mp hfails.expectsNumber)
      | operator op =>
          by_cases hoperand : operand = []
          · subst hoperand
            obtain ⟨error, hfault, hfails⟩ := exists_fails_of_read_nil (hlength ▸ hrest) op
            obtain ⟨rfl, rfl⟩ := Prod.mk.inj (hfault.symm.trans hread)
            exact Or.inl ⟨error, rfl, _, _, rfl, hfails, hclear⟩
          · obtain ⟨rfl, rfl⟩ := Prod.mk.inj
              ((Operations.read_operator (hlength ▸ hrest) hoperand op).symm.trans hread)
            have hfails := fails_iff_of_read (hlength ▸ hrest) hoperand op
            rcases Operations.value_next_cases hpending total term op operand behind with
              ⟨hdivide, hzero, hvalue⟩ | ⟨hnonzero, total', pending', term', hpending', hvalue⟩
            · exact Or.inl ⟨_, hvalue, _, _, rfl, (hfails _).mpr ⟨hdivide, hzero, rfl⟩, hclear⟩
            · rw [hvalue]
              refine ih hrest (hclear.succ fun error herror => ?_) hpending'
              obtain ⟨hdivide, hzero, _⟩ := (hfails error).mp herror
              rw [hnonzero hdivide] at hzero
              contradiction

open Expression

/-- A text of symbols meets a fault, or it is an expression that comes to something. -/
theorem evaluate_cases {symbols : List Symbol} (hnonempty : symbols ≠ []) :
    (∃ error, evaluate symbols = .error error ∧ FailsFirst (symbols.map Symbol.toChar) error) ∨
      Faultless (symbols.map Symbol.toChar) ∧
        ∃ sum : Sum, sum.symbols = symbols ∧ ∃ value, sum.value = .ok value := by
  rcases hread : Operations.read 0 symbols with ⟨first, operations⟩
  have hhead := Spelling.read_fst_ne_nil_iff 0 symbols
  have hsymbols : symbols.isEmpty = false := by simpa using hnonempty
  rw [hread] at hhead
  by_cases hfirst : first = []
  · subst hfirst
    obtain ⟨symbol, rest, rfl⟩ := List.exists_cons_of_ne_nil hnonempty
    cases symbol with
    | digit digit => simp at hhead
    | operator op =>
        refine Or.inl ⟨.expectedNumber 0, ?_, [], _, rfl, ?_, clearUntil_zero _⟩
        · simp [evaluate, hread]
        · exact .expectedNumber (Or.inl rfl) op.toChar_mem
  · obtain ⟨digit, hdigit⟩ := hhead.mp hfirst
    have hstart : ∀ error, ¬Fails [] (symbols.map Symbol.toChar) error := by
      intro error hfails
      obtain ⟨rest, rfl⟩ : ∃ rest, symbols = .digit digit :: rest := by
        cases symbols with
        | nil => contradiction
        | cons symbol rest => exact ⟨rest, by rw [Option.some.inj hdigit]⟩
      generalize hpassed : [] = passed at hfails
      cases hfails with
      | expectedNumber _ hop =>
          exact not_mem_characters_of_isDigit (Symbol.isDigit_toChar digit) hop
      | divisionByZero _ _ => simp at hpassed
    have hclear : ClearUntil ([] ++ symbols.map Symbol.toChar) 1 :=
      (clearUntil_zero ([] ++ symbols.map Symbol.toChar)).succ hstart
    have hnumeral : first.isEmpty = false := by simpa using hfirst
    rcases @value_cases [] symbols first operations hread hclear (.finite 0) first.value .add rfl
      with ⟨error, herror, hfails⟩ | ⟨⟨result, hresult⟩, hfaultless⟩
    · refine Or.inl ⟨error, ?_, hfails⟩
      simp [evaluate, hsymbols, hread, hnumeral, herror]
    · refine Or.inr ⟨hfaultless, ?_⟩
      have hsound := Operations.sound_of_value hread hresult
      obtain ⟨sum, hsum⟩ := Sum.exists_symbols_eq (.term (.number ⟨first, hfirst⟩)) hsound
      have hspelled : sum.symbols = symbols :=
        hsum.trans (Operations.eq_append_of_read hread hsound).symm
      refine ⟨sum, hspelled, result, ?_⟩
      rw [← value_eq_of_read sum (hspelled ▸ hread), hresult]

/-! ## Texts -/

theorem symbolsOfText_eq_error {text : String} {before after : List Char} {c : Char}
    (hsplit : text.toList = before ++ c :: after) (hbefore : ∀ earlier ∈ before, IsLetter earlier)
    (hc : ¬IsLetter c) : symbolsOfText text = .error (.invalidCharacter c) := by
  rw [symbolsOfText, hsplit]
  clear hsplit
  induction before with
  | nil =>
      have hnone : Symbol.ofChar? c = none := by
        cases hsymbol : Symbol.ofChar? c with
        | none => rfl
        | some symbol => exact (hc (Symbol.isLetter_of_ofChar? hsymbol)).elim
      rw [List.nil_append, List.mapM_cons, hnone]
      rfl
  | cons earlier before ih =>
      obtain ⟨symbol, rfl⟩ := (Symbol.isLetter_iff earlier).mp (hbefore earlier (by simp))
      rw [List.cons_append, List.mapM_cons, Symbol.ofChar?_toChar,
        ih fun other hother => hbefore other (List.mem_cons_of_mem _ hother)]
      rfl

/-- What comes of a text.  The final value is that of the tree which the text spells. -/
inductive Outcome (text : List Char) : Except EvaluationError Rat → Prop
  | invalidCharacter {before after : List Char} {c : Char} (hsplit : text = before ++ c :: after)
      (hbefore : ∀ earlier ∈ before, IsLetter earlier) (hc : ¬IsLetter c) :
      Outcome text (.error (.invalidCharacter c))
  | empty (hempty : text = []) : Outcome text (.error .empty)
  | fault (hletters : ∀ c ∈ text, IsLetter c) {error : EvaluationError}
      (hfails : FailsFirst text error) : Outcome text (.error error)
  | nonFinite (hfaultless : Faultless text) {sum : Sum} {value : Binary64}
      (hspelled : text = sum.symbols.map Symbol.toChar) (hvalue : sum.value = .ok value)
      (hunbounded : ∀ exact, value ≠ .finite exact) : Outcome text (.error .nonFinite)
  | value (hfaultless : Faultless text) {sum : Sum} {value : Rat}
      (hspelled : text = sum.symbols.map Symbol.toChar) (hvalue : sum.value = .ok (.finite value)) :
      Outcome text (.ok value)

theorem exists_symbols_of_letters {text : List Char} (hletters : ∀ c ∈ text, IsLetter c) :
    ∃ symbols : List Symbol, text = symbols.map Symbol.toChar := by
  rcases Spelling.symbolsFrom_cases 0 text with
    ⟨symbols, _, hspelled⟩ | ⟨c, place, _, hplace, hc, _⟩
  · exact ⟨symbols, hspelled⟩
  · exact (hc (hletters c (List.mem_of_getElem? hplace))).elim

theorem exists_outcome (text : List Char) : ∃ result, Outcome text result := by
  rcases Spelling.symbolsFrom_cases 0 text with
    ⟨symbols, _, rfl⟩ | ⟨c, place, _, hplace, hc, hbefore⟩
  · by_cases hnonempty : symbols = []
    · subst hnonempty
      exact ⟨_, .empty rfl⟩
    · rcases evaluate_cases hnonempty with
        ⟨error, _, hfails⟩ | ⟨hfaultless, sum, rfl, value, hvalue⟩
      · refine ⟨_, .fault ?_ hfails⟩
        rw [List.forall_mem_map]
        exact fun symbol _ => (Symbol.isLetter_iff _).mpr ⟨symbol, rfl⟩
      · cases value with
        | finite exact => exact ⟨_, .value hfaultless rfl hvalue⟩
        | infinite negative => exact ⟨_, .nonFinite hfaultless rfl hvalue nofun⟩
        | nan => exact ⟨_, .nonFinite hfaultless rfl hvalue nofun⟩
  · obtain ⟨hlength, rfl⟩ := List.getElem?_eq_some_iff.mp hplace
    have hsplit : text = text.take place ++ text[place] :: text.drop (place + 1) := by
      rw [← List.drop_eq_getElem_cons hlength, List.take_append_drop]
    exact ⟨_, .invalidCharacter hsplit hbefore hc⟩

theorem evaluateText_eq_of_outcome {text : String} {result : Except EvaluationError Rat}
    (houtcome : Outcome text.toList result) : evaluateText text = result := by
  cases houtcome with
  | invalidCharacter hsplit hbefore hc =>
      rw [evaluateText, symbolsOfText_eq_error hsplit hbefore hc]
      rfl
  | empty hempty =>
      rw [← List.map_nil] at hempty
      exact evaluateText_eq hempty
  | fault hletters hfails =>
      obtain ⟨symbols, hspelled⟩ := exists_symbols_of_letters hletters
      rw [hspelled] at hfails
      have hnonempty : symbols ≠ [] := fun hnil => hfails.ne_nil (by rw [hnil, List.map_nil])
      rw [evaluateText_eq hspelled]
      rcases evaluate_cases hnonempty with ⟨error, herror, hother⟩ | ⟨hfaultless, _⟩
      · rw [herror, hother.eq hfails]
      · exact (hfails.not_faultless hfaultless).elim
  | @nonFinite _ _ value hspelled hvalue hunbounded =>
      rw [evaluateText_eq hspelled, evaluate_symbols, hvalue]
      cases value with
      | finite exact => exact (hunbounded exact rfl).elim
      | infinite negative => rfl
      | nan => rfl
  | value hfaultless hspelled hvalue =>
      rw [evaluateText_eq hspelled, evaluate_symbols, hvalue]
      rfl

/-- Every text has one outcome.  The leftmost character that is no symbol is reported before
anything else; then the leftmost fault of the row, be it a missing number or a divisor that is zero;
and only a row without a fault is refused for its value.  Nothing is said of values before the last
one: they may well be infinite. -/
theorem evaluateText_eq_iff_outcome (text : String) (result : Except EvaluationError Rat) :
    evaluateText text = result ↔ Outcome text.toList result := by
  constructor
  · rintro rfl
    obtain ⟨result, houtcome⟩ := exists_outcome text.toList
    rwa [evaluateText_eq_of_outcome houtcome]
  · exact evaluateText_eq_of_outcome

/-- What stands behind a divisor that is zero does not matter. -/
example : evaluateText "3÷00+×" = .error .divisionByZero := by decide +kernel

/-- A number divided by one that has become infinite is zero. -/
theorem evaluate_divide_infinite {dividend : Number} {value : Rat}
    (hdividend : dividend.val.value = .finite value) {first : Fin 10} (hfirst : first ≠ 0)
    {rest : Digits} (hlength : 342 ≤ rest.length) :
    evaluate (Sum.term (.divide (.number dividend) ⟨first :: rest, by simp⟩)).symbols = .ok 0 := by
  have hquotient : (Sum.term (.divide (.number dividend) ⟨first :: rest, by simp⟩)).value =
      .ok (.finite 0) := by
    rw [Sum.value, Term.value, Term.value, hdividend, Digits.value_eq_infinite hfirst hlength]
    rfl
  rw [evaluate_symbols, hquotient]
  rfl

end Evaluation

end EquationPuzzle
