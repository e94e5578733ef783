import EquationPuzzle.Equation
import EquationPuzzle.Proofs.Binary64
import EquationPuzzle.Proofs.Evaluation.Rows

/-!
# Precedence

An expression is a sum of terms, and a term a product of numerals; both are trees that lean to the
left.  Evaluation passes once over a row of symbols and keeps back the operator that joins the
current term to the sum.  It comes to the value of the tree that the row spells.
-/

namespace EquationPuzzle

/-- The last digit is added with rounding. -/
theorem Digits.proper_value (digits : Digits) (hdigits : digits ≠ []) : digits.value.Proper := by
  rw [Digits.value, ← List.dropLast_append_getLast hdigits, List.foldl_append]
  exact Binary64.proper_add _ _

namespace Expression

/-- A numeral of one digit or more. -/
abbrev Number := { digits : Digits // digits ≠ [] }

/-- Numerals with multiplications and divisions between them. -/
inductive Term where
  | number (number : Number)
  | multiply (left : Term) (right : Number)
  | divide (left : Term) (right : Number)

/-- Terms with additions and subtractions between them. -/
inductive Sum where
  | term (term : Term)
  | add (left : Sum) (right : Term)
  | subtract (left : Sum) (right : Term)

def Number.symbols (number : Number) : List Symbol := number.val.map .digit

namespace Term

def symbols : Term → List Symbol
  | .number only => only.symbols
  | .multiply left right => left.symbols ++ .operator .multiply :: right.symbols
  | .divide left right => left.symbols ++ .operator .divide :: right.symbols

def value : Term → Except EvaluationError Binary64
  | .number only => .ok only.val.value
  | .multiply left right => do Operator.multiply.apply (← left.value) right.val.value
  | .divide left right => do Operator.divide.apply (← left.value) right.val.value

end Term

namespace Sum

def symbols : Sum → List Symbol
  | .term only => only.symbols
  | .add left right => left.symbols ++ .operator .add :: right.symbols
  | .subtract left right => left.symbols ++ .operator .subtract :: right.symbols

def value : Sum → Except EvaluationError Binary64
  | .term only => only.value
  | .add left right => do Operator.add.apply (← left.value) (← right.value)
  | .subtract left right => do Operator.subtract.apply (← left.value) (← right.value)

end Sum

/-! ## Trees as rows -/

namespace Term

/-- The first numeral of a term, and the operations behind it up to some that follow the term. -/
def row (following : Operations) : Term → Digits × Operations
  | .number only => (only.val, following)
  | .multiply left right => left.row (.next .multiply right.val following)
  | .divide left right => left.row (.next .divide right.val following)

theorem row_fst_ne_nil (term : Term) (following : Operations) : (term.row following).1 ≠ [] := by
  induction term generalizing following with
  | number only => exact only.property
  | multiply left right ih => exact ih _
  | divide left right ih => exact ih _

theorem sound_row (term : Term) {following : Operations} (hfollowing : following.Sound) :
    (term.row following).2.Sound := by
  induction term generalizing following with
  | number only => exact hfollowing
  | multiply left right ih => exact ih ⟨right.property, hfollowing⟩
  | divide left right ih => exact ih ⟨right.property, hfollowing⟩

theorem symbols_row (term : Term) (following : Operations) :
    (term.row following).1.map .digit ++ (term.row following).2.symbols =
      term.symbols ++ following.symbols := by
  induction term generalizing following with
  | number only => rfl
  | multiply left right ih =>
      rw [row, ih, symbols, List.append_assoc]
      rfl
  | divide left right ih =>
      rw [row, ih, symbols, List.append_assoc]
      rfl

/-- The whole term is read before the sum is touched. -/
theorem value_row (term : Term) (following : Operations) (total : Binary64) (pending : Operator) :
    (term.row following).2.value total pending (term.row following).1.value =
      term.value >>= fun value => following.value total pending value := by
  induction term generalizing following with
  | number only => rfl
  | multiply left right ih =>
      rw [row, ih, value, bind_assoc]
      rfl
  | divide left right ih =>
      rw [row, ih, value, bind_assoc]
      rfl

theorem proper_of_value {term : Term} {value : Binary64} (hvalue : term.value = .ok value) :
    value.Proper := by
  cases term with
  | number only =>
      rw [← Except.ok.inj hvalue]
      exact only.val.proper_value only.property
  | multiply left right =>
      rw [Term.value] at hvalue
      rcases hleft : left.value with cause | product
      · simp [hleft, bind, Except.bind] at hvalue
      · simp only [hleft] at hvalue
        rw [← Except.ok.inj hvalue]
        exact Binary64.proper_multiply _ _
  | divide left right =>
      rw [Term.value] at hvalue
      rcases hleft : left.value with cause | quotient
      · simp [hleft, bind, Except.bind] at hvalue
      · simp only [hleft, Operator.apply, bind, Except.bind] at hvalue
        split at hvalue
        · contradiction
        · rw [← Except.ok.inj hvalue]
          exact Binary64.proper_divide _ _

/-- Adding a term to the empty sum gives the term. -/
theorem zero_add_value (term : Term) :
    (term.value >>= fun value => Operator.add.apply (.finite 0) value) = term.value := by
  cases hvalue : term.value with
  | error cause => rfl
  | ok value => exact congrArg Except.ok (Binary64.zero_add_of_proper (proper_of_value hvalue))

end Term

namespace Sum

def row (following : Operations) : Sum → Digits × Operations
  | .term only => only.row following
  | .add left right => left.row (.next .add (right.row following).1 (right.row following).2)
  | .subtract left right =>
    left.row (.next .subtract (right.row following).1 (right.row following).2)

theorem row_fst_ne_nil (sum : Sum) (following : Operations) : (sum.row following).1 ≠ [] := by
  induction sum generalizing following with
  | term only => exact only.row_fst_ne_nil following
  | add left right ih => exact ih _
  | subtract left right ih => exact ih _

theorem sound_row (sum : Sum) {following : Operations} (hfollowing : following.Sound) :
    (sum.row following).2.Sound := by
  induction sum generalizing following with
  | term only => exact only.sound_row hfollowing
  | add left right ih =>
      exact ih ⟨right.row_fst_ne_nil following, right.sound_row hfollowing⟩
  | subtract left right ih =>
      exact ih ⟨right.row_fst_ne_nil following, right.sound_row hfollowing⟩

theorem symbols_row (sum : Sum) (following : Operations) :
    (sum.row following).1.map .digit ++ (sum.row following).2.symbols =
      sum.symbols ++ following.symbols := by
  induction sum generalizing following with
  | term only => exact only.symbols_row following
  | add left right ih =>
      rw [row, ih, symbols, List.append_assoc, Operations.symbols, right.symbols_row,
        List.cons_append]
  | subtract left right ih =>
      rw [row, ih, symbols, List.append_assoc, Operations.symbols, right.symbols_row,
        List.cons_append]

/-- Evaluation of what follows a sum, when all but its last term has been summed. -/
def resume (following : Operations) : Sum → Except EvaluationError Binary64
  | .term only => do following.value (.finite 0) .add (← only.value)
  | .add left right => do following.value (← left.value) .add (← right.value)
  | .subtract left right => do following.value (← left.value) .subtract (← right.value)

theorem resume_done (sum : Sum) : sum.resume .done = sum.value := by
  cases sum with
  | term only => exact only.zero_add_value
  | add left right => rfl
  | subtract left right => rfl

/-- An operator between terms completes the sum before it. -/
theorem resume_next {op : Operator} (hop : op.isMultiplicative = false) (operand : Digits)
    (following : Operations) (sum : Sum) :
    sum.resume (.next op operand following) =
      sum.value >>= fun total => following.value total op operand.value := by
  have hnext : ∀ total pending term,
      (Operations.next op operand following).value total pending term =
        pending.apply total term >>= fun total => following.value total op operand.value := by
    intro total pending term
    rw [Operations.value, hop]
    rfl
  cases sum with
  | term only =>
      rw [value, ← only.zero_add_value, bind_assoc]
      simp only [resume, hnext]
  | add left right =>
      simp only [resume, value, hnext, bind_assoc]
  | subtract left right =>
      simp only [resume, value, hnext, bind_assoc]

theorem value_row (sum : Sum) (following : Operations) :
    (sum.row following).2.value (.finite 0) .add (sum.row following).1.value =
      sum.resume following := by
  induction sum generalizing following with
  | term only => exact only.value_row following (.finite 0) .add
  | add left right ih =>
      rw [row, ih, resume_next rfl]
      simp only [right.value_row, resume]
  | subtract left right ih =>
      rw [row, ih, resume_next rfl]
      simp only [right.value_row, resume]

/-- Behind a sum an operation can be put, which extends its last term or adds another one. -/
theorem exists_symbols_eq_append (sum : Sum) (op : Operator) (operand : Number) :
    ∃ extended : Sum, extended.symbols = sum.symbols ++ .operator op :: operand.symbols := by
  cases op with
  | add => exact ⟨.add sum (.number operand), rfl⟩
  | subtract => exact ⟨.subtract sum (.number operand), rfl⟩
  | multiply =>
      cases sum with
      | term only => exact ⟨.term (.multiply only operand), rfl⟩
      | add left right =>
          exact ⟨.add left (.multiply right operand), by simp [symbols, Term.symbols]⟩
      | subtract left right =>
          exact ⟨.subtract left (.multiply right operand), by simp [symbols, Term.symbols]⟩
  | divide =>
      cases sum with
      | term only => exact ⟨.term (.divide only operand), rfl⟩
      | add left right =>
          exact ⟨.add left (.divide right operand), by simp [symbols, Term.symbols]⟩
      | subtract left right =>
          exact ⟨.subtract left (.divide right operand), by simp [symbols, Term.symbols]⟩

/-- Every row without a fault is spelled by a tree. -/
theorem exists_symbols_eq (sum : Sum) {operations : Operations} (hsound : operations.Sound) :
    ∃ whole : Sum, whole.symbols = sum.symbols ++ operations.symbols := by
  induction operations generalizing sum with
  | done => exact ⟨sum, by simp [Operations.symbols]⟩
  | fault error => exact hsound.elim
  | next op operand rest ih =>
      obtain ⟨extended, hextended⟩ := sum.exists_symbols_eq_append op ⟨operand, hsound.1⟩
      obtain ⟨whole, hwhole⟩ := ih extended hsound.2
      refine ⟨whole, ?_⟩
      rw [hwhole, hextended, List.append_assoc]
      rfl

end Sum

end Expression

open Expression

/-- The symbols of a tree are read as its row. -/
theorem read_symbols (sum : Sum) : Operations.read 0 sum.symbols = sum.row .done := by
  have hsound : (sum.row .done).2.Sound := sum.sound_row (show Operations.done.Sound from trivial)
  have hrow := Operations.read_append 0 (sum.row .done).1 hsound
  rwa [sum.symbols_row, Operations.symbols, List.append_nil] at hrow

/-- What is read of the symbols of a tree comes to the value of the tree. -/
theorem value_eq_of_read (sum : Sum) {first : Digits} {operations : Operations}
    (hread : Operations.read 0 sum.symbols = (first, operations)) :
    operations.value (.finite 0) .add first.value = sum.value := by
  have hvalue := sum.value_row .done
  rwa [sum.resume_done, (read_symbols sum).symm.trans hread] at hvalue

/-- A row that a tree spells has the value of the tree, if that is finite. -/
theorem evaluate_symbols (sum : Sum) :
    evaluate sum.symbols = sum.value >>= fun value =>
      match value with
      | .finite value => .ok value
      | _ => .error .nonFinite := by
  have hread := read_symbols sum
  have hfirst : (sum.row .done).1.isEmpty = false := by
    simpa using sum.row_fst_ne_nil .done
  have hsymbols : sum.symbols.isEmpty = false := by
    cases hsymbols : sum.symbols with
    | nil => simp [hsymbols, Operations.read, ← hread] at hfirst
    | cons symbol rest => rfl
  have hvalue := sum.value_row .done
  rw [sum.resume_done] at hvalue
  rw [evaluate, hsymbols, hread]
  simp only [hfirst, hvalue]
  cases sum.value with
  | error cause => rfl
  | ok value => cases value <;> rfl

/-- Only rows that trees spell have a value. -/
theorem exists_symbols_eq_of_evaluate {symbols : List Symbol} {value : Rat}
    (hvalue : evaluate symbols = .ok value) : ∃ sum : Sum, sum.symbols = symbols := by
  obtain ⟨first, operations, hfirst, hread, result, hresult⟩ := exists_read_of_evaluate hvalue
  have hsound := Operations.sound_of_value hread hresult
  rw [Operations.eq_append_of_read hread hsound]
  exact Sum.exists_symbols_eq (.term (.number ⟨first, hfirst⟩)) hsound

/-- A row of symbols has a value exactly if it is spelled by a tree, numerals in terms and terms in
a sum, and the tree comes to that value when it is evaluated from the left, term by term. -/
theorem evaluate_eq_ok_iff_tree (symbols : List Symbol) (value : Rat) :
    evaluate symbols = .ok value ↔
      (∃ sum : Sum, sum.symbols = symbols) ∧
        ∀ sum : Sum, sum.symbols = symbols → sum.value = .ok (.finite value) := by
  have htree : ∀ sum : Sum,
      evaluate sum.symbols = .ok value ↔ sum.value = .ok (.finite value) := by
    intro sum
    rw [evaluate_symbols]
    rcases sum.value with cause | result
    · simp [bind, Except.bind]
    · cases result <;> simp [bind, Except.bind]
  constructor
  · intro hvalue
    refine ⟨exists_symbols_eq_of_evaluate hvalue, ?_⟩
    rintro sum rfl
    exact (htree sum).mp hvalue
  · rintro ⟨⟨sum, rfl⟩, hall⟩
    exact (htree sum).mpr (hall sum rfl)

theorem Equation.exists_sum (equation : Equation) :
    ∃ sum : Sum, sum.symbols = equation.spelling.toList ∧
      sum.value = .ok (.finite equation.value) := by
  obtain ⟨sum, hsymbols⟩ := exists_symbols_eq_of_evaluate equation.evaluates
  have hvalue := equation.evaluates
  rw [← hsymbols, evaluate_symbols] at hvalue
  refine ⟨sum, hsymbols, ?_⟩
  rcases hresult : sum.value with cause | result
  · simp [hresult, bind, Except.bind] at hvalue
  · cases result <;> simp_all [bind, Except.bind]

end EquationPuzzle
