import EquationPuzzle.Proofs.Evaluation.Bounds
import EquationPuzzle.Proofs.Evaluation.Precedence

/-!
# Exact values

The exact value of a row of symbols is the rational number that its tree stands for.  It belongs to
the row alone: trees with the same symbols have the same value.  A short row without divisions is
computed with exactly.
-/

namespace EquationPuzzle

/-- The operation on rational numbers. -/
def Operator.exact : Operator → Rat → Rat → Rat
  | .add, left, right => left + right
  | .subtract, left, right => left - right
  | .multiply, left, right => left * right
  | .divide, left, right => left / right

/-- As `Operations.value`, without rounding. -/
def Operations.exact (total : Rat) (pending : Operator) (term : Rat) : Operations → Rat
  | done => pending.exact total term
  | fault _ => total
  | next op operand rest =>
    if op.isMultiplicative then rest.exact total pending (op.exact term operand.natural)
    else rest.exact (pending.exact total term) op operand.natural

namespace Expression

namespace Term

def exact : Term → Rat
  | .number only => only.val.natural
  | .multiply left right => left.exact * right.val.natural
  | .divide left right => left.exact / right.val.natural

theorem exact_row (term : Term) (following : Operations) (total : Rat) (pending : Operator) :
    (term.row following).2.exact total pending (term.row following).1.natural =
      following.exact total pending term.exact := by
  induction term generalizing following with
  | number only => rfl
  | multiply left right ih => exact ih _
  | divide left right ih => exact ih _

end Term

namespace Sum

def exact : Sum → Rat
  | .term only => only.exact
  | .add left right => left.exact + right.exact
  | .subtract left right => left.exact - right.exact

/-- The exact value of what follows a sum, when all but its last term has been summed. -/
def resumeExact (following : Operations) : Sum → Rat
  | .term only => following.exact 0 .add only.exact
  | .add left right => following.exact left.exact .add right.exact
  | .subtract left right => following.exact left.exact .subtract right.exact

theorem resumeExact_done (sum : Sum) : sum.resumeExact .done = sum.exact := by
  cases sum with
  | term only => exact zero_add only.exact
  | add left right => rfl
  | subtract left right => rfl

theorem resumeExact_next {op : Operator} (hop : op.isMultiplicative = false) (operand : Digits)
    (following : Operations) (sum : Sum) :
    sum.resumeExact (.next op operand following) =
      following.exact sum.exact op operand.natural := by
  have hnext : ∀ total pending term,
      (Operations.next op operand following).exact total pending term =
      following.exact (pending.exact total term) op operand.natural := by
    intro total pending term
    rw [Operations.exact, hop]
    rfl
  rw [← resumeExact_done]
  cases sum with
  | term only => exact hnext _ _ _
  | add left right => exact hnext _ _ _
  | subtract left right => exact hnext _ _ _

theorem exact_row (sum : Sum) (following : Operations) :
    (sum.row following).2.exact 0 .add (sum.row following).1.natural =
      sum.resumeExact following := by
  induction sum generalizing following with
  | term only => exact only.exact_row following 0 .add
  | add left right ih => rw [row, ih, resumeExact_next rfl, right.exact_row, resumeExact]
  | subtract left right ih => rw [row, ih, resumeExact_next rfl, right.exact_row, resumeExact]

/-- The exact value is told by the symbols. -/
theorem exact_eq_of_symbols_eq {sum other : Sum} (hsymbols : sum.symbols = other.symbols) :
    sum.exact = other.exact := by
  have hrow : sum.row .done = other.row .done := by
    rw [← read_symbols, ← read_symbols, hsymbols]
  rw [← resumeExact_done, ← exact_row, hrow, exact_row, resumeExact_done]

end Sum

/-- The row spells an expression with this exact value.  A quotient by zero counts as zero, but no
equation has one. -/
def Worth (symbols : List Symbol) (value : Rat) : Prop :=
  (∃ sum : Sum, sum.symbols = symbols) ∧ ∀ sum : Sum, sum.symbols = symbols → sum.exact = value

theorem worth_symbols (sum : Sum) : Worth sum.symbols sum.exact :=
  ⟨⟨sum, rfl⟩, fun _ hsymbols => Sum.exact_eq_of_symbols_eq hsymbols⟩

theorem Worth.eq {symbols : List Symbol} {value other : Rat} (hvalue : Worth symbols value)
    (hother : Worth symbols other) : value = other := by
  obtain ⟨sum, hsum⟩ := hvalue.1
  rw [← hvalue.2 sum hsum, hother.2 sum hsum]

/-! ## One more term -/

namespace Sum

/-- The sum with one more term, which is subtracted or else added. -/
def extend (left : Sum) (right : Term) : Operator → Sum
  | .subtract => .subtract left right
  | _ => .add left right

section Extend

variable {left : Sum} {right : Term} {op : Operator}

theorem symbols_extend (hop : op = .add ∨ op = .subtract) :
    (left.extend right op).symbols = left.symbols ++ .operator op :: right.symbols := by
  rcases hop with rfl | rfl <;> rfl

theorem exact_extend_le (hright : 0 ≤ right.exact) :
    (left.extend right op).exact ≤ left.exact + right.exact := by
  cases op with
  | subtract => exact (sub_le_self _ hright).trans (le_add_of_nonneg_right hright)
  | add => exact le_rfl
  | multiply => exact le_rfl
  | divide => exact le_rfl

/-- To subtract a whole number is to add its negation. -/
theorem value_extend {value : Binary64} {number : Nat} (hleft : left.value = .ok value)
    (hright : right.value = .ok (.finite number)) (hexact : right.exact = number) :
    ∃ signed : Int, |signed| = number ∧
      (left.extend right op).value = .ok (value.add (.finite signed)) ∧
        (left.extend right op).exact = left.exact + signed := by
  have hadd : ∃ signed : Int, |signed| = number ∧
      (Sum.add left right).value = .ok (value.add (.finite signed)) ∧
        (Sum.add left right).exact = left.exact + signed := by
    refine ⟨number, Nat.abs_cast number, ?_, ?_⟩
    · rw [Sum.value, hleft, hright, Int.cast_natCast]
      rfl
    · rw [Sum.exact, hexact, Int.cast_natCast]
  cases op with
  | subtract =>
      refine ⟨-number, (abs_neg _).trans (Nat.abs_cast number), ?_, ?_⟩
      · rw [extend, Sum.value, hleft, hright, Int.cast_neg, Int.cast_natCast]
        rfl
      · rw [extend, Sum.exact, hexact, Int.cast_neg, Int.cast_natCast, sub_eq_add_neg]
  | add => exact hadd
  | multiply => exact hadd
  | divide => exact hadd

end Extend

end Sum

/-! ## Lengths -/

theorem Number.length_symbols (number : Number) : number.symbols.length = number.val.length :=
  List.length_map _

theorem Number.length_symbols_pos (number : Number) : 0 < number.symbols.length := by
  rw [number.length_symbols]
  exact List.length_pos_iff.mpr number.property

theorem Number.natural_lt (number : Number) :
    number.val.natural < 10 ^ number.symbols.length := by
  rw [number.length_symbols]
  exact Digits.natural_lt _

section Lengths

variable (term : Term) (sum : Sum)

theorem Term.length_symbols_multiply (right : Number) :
    (Term.multiply term right).symbols.length =
      term.symbols.length + right.symbols.length + 1 := by
  simp [Term.symbols, Nat.add_assoc]

theorem Term.length_symbols_divide (right : Number) :
    (Term.divide term right).symbols.length = term.symbols.length + right.symbols.length + 1 := by
  simp [Term.symbols, Nat.add_assoc]

theorem Sum.length_symbols_add :
    (Sum.add sum term).symbols.length = sum.symbols.length + term.symbols.length + 1 := by
  simp [Sum.symbols, Nat.add_assoc]

theorem Sum.length_symbols_subtract :
    (Sum.subtract sum term).symbols.length = sum.symbols.length + term.symbols.length + 1 := by
  simp [Sum.symbols, Nat.add_assoc]

theorem Term.length_symbols_pos : 0 < term.symbols.length := by
  cases term with
  | number only => exact only.length_symbols_pos
  | multiply left right => simp [Term.symbols]
  | divide left right => simp [Term.symbols]

theorem Sum.length_symbols_pos : 0 < sum.symbols.length := by
  cases sum with
  | term only => exact only.length_symbols_pos
  | add left right => simp [Sum.symbols]
  | subtract left right => simp [Sum.symbols]

end Lengths

/-! ## Rows without divisions -/

namespace Term

/-- No division is in the term. -/
def Whole : Term → Prop
  | .number _ => True
  | .multiply left _ => left.Whole
  | .divide _ _ => False

theorem Whole.value_eq {term : Term} (hwhole : term.Whole) (hlength : term.symbols.length ≤ 15) :
    ∃ number : Nat, number < 10 ^ term.symbols.length ∧ term.exact = number ∧
      term.value = .ok (.finite number) := by
  induction term with
  | number only =>
      refine ⟨only.val.natural, only.natural_lt, rfl, ?_⟩
      rw [symbols, Number.symbols, List.length_map] at hlength
      rw [value, Digits.value_eq hlength]
  | divide left right => exact hwhole.elim
  | multiply left right ih =>
      have hsymbols := left.length_symbols_multiply right
      obtain ⟨number, hnumber, hexact, hvalue⟩ := ih hwhole (by omega)
      have hproduct : number * right.val.natural < 10 ^ (multiply left right).symbols.length := by
        rw [hsymbols, pow_succ, pow_add]
        have hmul := Nat.mul_lt_mul'' hnumber right.natural_lt
        omega
      have hpower : 10 ^ (multiply left right).symbols.length ≤ 10 ^ 15 :=
        Nat.pow_le_pow_right (by decide) hlength
      have hrepresentable :=
        Binary64.representable_natCast (hproduct.trans (hpower.trans_lt (by decide)))
      have hdigits : right.val.length ≤ 15 := by
        rw [right.length_symbols] at hsymbols
        omega
      refine ⟨number * right.val.natural, hproduct, ?_, ?_⟩
      · rw [exact, hexact, Nat.cast_mul]
      · rw [value, hvalue, Digits.value_eq hdigits, Nat.cast_mul]
        have hround := hrepresentable.round_eq
        rw [Nat.cast_mul] at hround
        exact congrArg Except.ok hround

end Term

namespace Sum

/-- No division is in any of the terms. -/
def Whole : Sum → Prop
  | .term only => only.Whole
  | .add left right => left.Whole ∧ right.Whole
  | .subtract left right => left.Whole ∧ right.Whole

private theorem abs_add_lt {left right : Int} {length more : Nat} (hleft : |left| < 10 ^ length)
    (hright : |right| < 10 ^ more) : |left + right| < 10 ^ (length + more + 1) := by
  have hfirst : (10 : Int) ^ length ≤ 10 ^ (length + more) :=
    pow_le_pow_right₀ (by decide) (by omega)
  have hsecond : (10 : Int) ^ more ≤ 10 ^ (length + more) :=
    pow_le_pow_right₀ (by decide) (by omega)
  have hpositive : (0 : Int) < 10 ^ (length + more) := by positivity
  have hsum := abs_add_le left right
  rw [pow_succ]
  omega

private theorem add_eq_of_abs_lt {left right : Int} {length : Nat} (hlength : length ≤ 15)
    (hsum : |left + right| < 10 ^ length) :
    (Binary64.finite left).add (.finite right) = .finite (left + right : Int) := by
  have hpower : (10 : Int) ^ length ≤ 10 ^ 15 := pow_le_pow_right₀ (by decide) hlength
  have hrepresentable :=
    Binary64.representable_intCast (hsum.trans (hpower.trans_lt (by decide)))
  rw [Binary64.add, ← Int.cast_add, hrepresentable.round_eq]

/-- A sum stays exact as long as it is short. -/
theorem value_extend_whole {left : Sum} {right : Term} (op : Operator) {number : Int}
    {term : Nat} (hlength : left.symbols.length + right.symbols.length + 1 ≤ 15)
    (hnumber : |number| < 10 ^ left.symbols.length) (hexact : left.exact = number)
    (hvalue : left.value = .ok (.finite number)) (hterm : term < 10 ^ right.symbols.length)
    (htermExact : right.exact = term) (htermValue : right.value = .ok (.finite term)) :
    ∃ result : Int, |result| < 10 ^ (left.symbols.length + right.symbols.length + 1) ∧
      (left.extend right op).exact = result ∧
        (left.extend right op).value = .ok (.finite result) := by
  obtain ⟨signed, hsigned, hsumValue, hsumExact⟩ :=
    @value_extend left right op _ _ hvalue htermValue htermExact
  have habs : |signed| < 10 ^ right.symbols.length := by
    rw [hsigned]
    exact_mod_cast hterm
  have hsum := abs_add_lt hnumber habs
  refine ⟨number + signed, hsum, ?_, ?_⟩
  · rw [hsumExact, hexact, Int.cast_add]
  · rw [hsumValue, add_eq_of_abs_lt hlength hsum]

theorem Whole.extend {left : Sum} {right : Term} {op : Operator} (hleft : left.Whole)
    (hright : right.Whole) : (left.extend right op).Whole := by
  cases op <;> exact ⟨hleft, hright⟩

/-- Short sums of products are computed with exactly. -/
theorem Whole.value_eq {sum : Sum} (hwhole : sum.Whole) (hlength : sum.symbols.length ≤ 15) :
    ∃ number : Int, |number| < 10 ^ sum.symbols.length ∧ sum.exact = number ∧
      sum.value = .ok (.finite number) := by
  induction sum with
  | term only =>
      obtain ⟨number, hnumber, hexact, hvalue⟩ := Term.Whole.value_eq hwhole hlength
      refine ⟨number, ?_, ?_, ?_⟩
      · rw [Nat.abs_cast]
        exact_mod_cast hnumber
      · rw [Int.cast_natCast]
        exact hexact
      · rw [Int.cast_natCast]
        exact hvalue
  | add left right ih =>
      rw [length_symbols_add] at hlength ⊢
      obtain ⟨number, hnumber, hexact, hvalue⟩ := ih hwhole.1 (by omega)
      obtain ⟨term, hterm, htermExact, htermValue⟩ := Term.Whole.value_eq hwhole.2 (by omega)
      exact value_extend_whole .add hlength hnumber hexact hvalue hterm htermExact htermValue
  | subtract left right ih =>
      rw [length_symbols_subtract] at hlength ⊢
      obtain ⟨number, hnumber, hexact, hvalue⟩ := ih hwhole.1 (by omega)
      obtain ⟨term, hterm, htermExact, htermValue⟩ := Term.Whole.value_eq hwhole.2 (by omega)
      exact value_extend_whole .subtract hlength hnumber hexact hvalue hterm htermExact htermValue

end Sum

end Expression

end EquationPuzzle
