import EquationPuzzle.Proofs.Evaluation.Errors

/-!
# Rows with one product

A row with a single multiplication or division has at most one term that is no whole number.  So if
its exact value is a whole number, then so is every term, and nothing is rounded on the way: the row
comes to its exact value.  Together with the bound of the rounding errors this says that what is
computed of a short row of this kind is a whole number exactly if its exact value is that number.
-/

namespace EquationPuzzle

namespace Expression

/-- How many multiplications and divisions are in a row. -/
def products (symbols : List Symbol) : Nat :=
  symbols.countP fun symbol => symbol.operator?.any Operator.isMultiplicative

theorem products_append (symbols more : List Symbol) :
    products (symbols ++ more) = products symbols + products more :=
  List.countP_append

theorem products_operator (op : Operator) (rest : List Symbol) :
    products (.operator op :: rest) =
      products rest + if op.isMultiplicative then 1 else 0 :=
  List.countP_cons

theorem Number.products_symbols (number : Number) : products number.symbols = 0 := by
  rw [products, List.countP_eq_zero]
  intro symbol hsymbol
  obtain ⟨digit, _, hdigit⟩ := List.mem_map.mp hsymbol
  subst symbol
  simp [Symbol.operator?]

section Products

variable (term : Term) (sum : Sum) (number : Number)

theorem Term.products_multiply :
    products (Term.multiply term number).symbols = products term.symbols + 1 := by
  rw [Term.symbols, products_append, products_operator, number.products_symbols]
  rfl

theorem Term.products_divide :
    products (Term.divide term number).symbols = products term.symbols + 1 := by
  rw [Term.symbols, products_append, products_operator, number.products_symbols]
  rfl

theorem Sum.products_add :
    products (Sum.add sum term).symbols = products sum.symbols + products term.symbols := by
  rw [Sum.symbols, products_append, products_operator]
  rfl

theorem Sum.products_subtract :
    products (Sum.subtract sum term).symbols = products sum.symbols + products term.symbols := by
  rw [Sum.symbols, products_append, products_operator]
  rfl

end Products

theorem Term.exists_number (term : Term) (hproducts : products term.symbols = 0) :
    ∃ only, term = .number only := by
  cases term with
  | number only => exact ⟨only, rfl⟩
  | multiply left right =>
      rw [Term.products_multiply] at hproducts
      contradiction
  | divide left right =>
      rw [Term.products_divide] at hproducts
      contradiction

theorem Term.whole_of_products_eq_zero {term : Term} (hproducts : products term.symbols = 0) :
    term.Whole := by
  obtain ⟨only, honly⟩ := term.exists_number hproducts
  subst term
  trivial

theorem Sum.whole_of_products_eq_zero {sum : Sum} (hproducts : products sum.symbols = 0) :
    sum.Whole := by
  induction sum with
  | term only => exact Term.whole_of_products_eq_zero hproducts
  | add left right ih =>
      rw [Sum.products_add] at hproducts
      exact ⟨ih (by omega), Term.whole_of_products_eq_zero (by omega)⟩
  | subtract left right ih =>
      rw [Sum.products_subtract] at hproducts
      exact ⟨ih (by omega), Term.whole_of_products_eq_zero (by omega)⟩

/-! ## Whole numbers without rounding -/

/-- The term comes to its exact value, which is a whole number within the bound of its symbols. -/
def Term.Precise (term : Term) : Prop :=
  ∃ number : Nat, number < 10 ^ term.symbols.length ∧ term.exact = number ∧
    term.value = .ok (.finite number)

/-- The sum comes to its exact value, which is a whole number within the bound of its symbols. -/
def Sum.Precise (sum : Sum) : Prop :=
  ∃ number : Int, |number| < 10 ^ sum.symbols.length ∧ sum.exact = number ∧
    sum.value = .ok (.finite number)

namespace Term

theorem Precise.divide {left : Term} {right : Number} (hleft : left.Precise) {value : Binary64}
    (hvalue : (Term.divide left right).value = .ok value)
    (hlength : (Term.divide left right).symbols.length ≤ 15) {whole : Int}
    (hexact : (Term.divide left right).exact = whole) : (Term.divide left right).Precise := by
  have hsymbols := left.length_symbols_divide right
  have hdivisor := right.length_symbols
  obtain ⟨dividend, hdividend, hleftExact, hleftValue⟩ := hleft
  obtain ⟨hpositive, first, hnumerator, hquotient⟩ := value_divide_eq_ok (by omega) hvalue
  have hfirst : first = .finite dividend := Except.ok.inj (hnumerator.symm.trans hleftValue)
  have hone : (1 : Rat) ≤ right.val.natural := by exact_mod_cast hpositive
  have hratio : (dividend : Rat) / right.val.natural = whole := by
    rw [← hleftExact]
    exact hexact
  have hnonneg : (0 : Rat) ≤ whole := by
    rw [← hratio]
    positivity
  obtain ⟨number, hnumber⟩ := Int.eq_ofNat_of_zero_le (Int.cast_nonneg_iff.mp hnonneg)
  subst whole
  rw [Int.cast_natCast] at hratio hexact
  have hle : number ≤ dividend := by
    have hcast : (number : Rat) ≤ dividend := by
      rw [← hratio]
      exact div_le_self (Nat.cast_nonneg _) hone
    exact_mod_cast hcast
  have hbound : number < 10 ^ (Term.divide left right).symbols.length := by
    rw [hsymbols]
    exact (hle.trans_lt hdividend).trans_le (Nat.pow_le_pow_right (by decide) (by omega))
  have hpower : number < 2 ^ 53 :=
    (hbound.trans_le (Nat.pow_le_pow_right (by decide) hlength)).trans (by decide)
  refine ⟨number, hbound, hexact, hvalue.trans (congrArg Except.ok ?_)⟩
  rw [← hquotient, hfirst, Binary64.divide, hratio]
  exact (Binary64.representable_natCast hpower).round_eq

/-- With one product at most, a term is precise if its exact value is a whole number. -/
theorem precise_of_exact_eq {term : Term} (hproducts : products term.symbols ≤ 1)
    {value : Binary64} (hvalue : term.value = .ok value) (hlength : term.symbols.length ≤ 15)
    {whole : Int} (hexact : term.exact = whole) : term.Precise := by
  cases term with
  | number only => exact Whole.value_eq trivial hlength
  | multiply left right =>
      rw [products_multiply] at hproducts
      obtain ⟨only, honly⟩ := left.exists_number (by omega)
      subst left
      exact Whole.value_eq trivial hlength
  | divide left right =>
      rw [products_divide] at hproducts
      obtain ⟨only, honly⟩ := left.exists_number (by omega)
      subst left
      have hshort : (number only).symbols.length ≤ 15 := by
        rw [length_symbols_divide] at hlength
        omega
      have hdividend : (number only).Precise := Whole.value_eq trivial hshort
      exact hdividend.divide hvalue hlength hexact

end Term

namespace Sum

theorem Precise.extend {left : Sum} {right : Term} (hleft : left.Precise) (hright : right.Precise)
    (op : Operator) (hlength : left.symbols.length + right.symbols.length + 1 ≤ 15) :
    ∃ number : Int, |number| < 10 ^ (left.symbols.length + right.symbols.length + 1) ∧
      (left.extend right op).exact = number ∧
        (left.extend right op).value = .ok (.finite number) := by
  obtain ⟨number, hnumber, hexact, hvalue⟩ := hleft
  obtain ⟨term, hterm, htermExact, htermValue⟩ := hright
  exact value_extend_whole op hlength hnumber hexact hvalue hterm htermExact htermValue

/-- One of the two parts of a sum has no product and is a whole number, so if the sum is a whole
number the other part is one, too. -/
theorem precise_parts {left : Sum} {right : Term} {whole : Int}
    (hproducts : products left.symbols + products right.symbols ≤ 1)
    (hlength : left.symbols.length + right.symbols.length + 1 ≤ 15)
    (hleft : ∀ number : Int, left.exact = number → left.Precise)
    (hright : ∀ number : Int, right.exact = number → right.Precise)
    (hexact : left.exact + right.exact = whole ∨ left.exact - right.exact = whole) :
    left.Precise ∧ right.Precise := by
  by_cases hzero : products right.symbols = 0
  · have hwhole := Term.whole_of_products_eq_zero hzero
    obtain ⟨number, hbound, hnumber, hvalue⟩ := hwhole.value_eq (by omega)
    refine ⟨?_, number, hbound, hnumber, hvalue⟩
    rcases hexact with hsum | hdifference
    · refine hleft (whole - number) ?_
      push_cast
      linarith
    · refine hleft (whole + number) ?_
      push_cast
      linarith
  · have hwhole : left.Whole := whole_of_products_eq_zero (by omega)
    obtain ⟨number, hbound, hnumber, hvalue⟩ := hwhole.value_eq (by omega)
    refine ⟨⟨number, hbound, hnumber, hvalue⟩, ?_⟩
    rcases hexact with hsum | hdifference
    · refine hright (whole - number) ?_
      push_cast
      linarith
    · refine hright (number - whole) ?_
      push_cast
      linarith

theorem precise_of_exact_eq {sum : Sum} (hproducts : products sum.symbols ≤ 1)
    {value : Binary64} (hvalue : sum.value = .ok value) (hlength : sum.symbols.length ≤ 15)
    {whole : Int} (hexact : sum.exact = whole) : sum.Precise := by
  induction sum generalizing value whole with
  | term only =>
      obtain ⟨number, hnumber, honly, hresult⟩ :=
        Term.precise_of_exact_eq hproducts hvalue hlength hexact
      refine ⟨number, ?_, ?_, ?_⟩
      · rw [Nat.abs_cast]
        exact_mod_cast hnumber
      · rw [Int.cast_natCast]
        exact honly
      · rw [Int.cast_natCast]
        exact hresult
  | add left right ih =>
      rw [products_add] at hproducts
      rw [length_symbols_add] at hlength
      obtain ⟨total, term, htotal, hterm, _⟩ := value_add_eq_ok hvalue
      obtain ⟨hleft, hright⟩ := precise_parts hproducts hlength
        (fun number => ih (by omega) htotal (by omega))
        (fun number => Term.precise_of_exact_eq (by omega) hterm (by omega)) (Or.inl hexact)
      unfold Precise
      rw [length_symbols_add]
      exact hleft.extend hright .add hlength
  | subtract left right ih =>
      rw [products_subtract] at hproducts
      rw [length_symbols_subtract] at hlength
      obtain ⟨total, term, htotal, hterm, _⟩ := value_subtract_eq_ok hvalue
      obtain ⟨hleft, hright⟩ := precise_parts hproducts hlength
        (fun number => ih (by omega) htotal (by omega))
        (fun number => Term.precise_of_exact_eq (by omega) hterm (by omega)) (Or.inr hexact)
      unfold Precise
      rw [length_symbols_subtract]
      exact hleft.extend hright .subtract hlength

/-- What is computed of a short row with one product is a whole number exactly if its exact value is
that number. -/
theorem value_eq_iff_exact_eq {sum : Sum} {result : Rat} (hproducts : products sum.symbols ≤ 1)
    (hvalue : sum.value = .ok (.finite result)) (hlength : sum.symbols.length ≤ 7) (whole : Int) :
    result = whole ↔ sum.exact = whole := by
  constructor
  · intro hresult
    subst result
    exact exact_eq_of_value hvalue hlength
  · intro hexact
    obtain ⟨number, _, hnumber, hprecise⟩ :=
      precise_of_exact_eq hproducts hvalue (by omega) hexact
    have hsame : result = number :=
      Binary64.finite.inj (Except.ok.inj (hvalue.symm.trans hprecise))
    rw [hsame, ← hnumber, hexact]

end Sum

end Expression

end EquationPuzzle
