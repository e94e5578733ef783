import EquationPuzzle.Proofs.Equation
import EquationPuzzle.Proofs.Evaluation.Errors
import EquationPuzzle.Proofs.Evaluation.Fractions
import EquationPuzzle.Proofs.Evaluation.Quotients
import EquationPuzzle.Proofs.Evaluation.Range
import EquationPuzzle.Proofs.Evaluation.Simple

/-!
# Target numbers

Rounding never makes a whole number of a fraction, so a target number is the exact value of its
equation.  For the converse the rows of six symbols are told apart.  With one product at most, or
with no multiplication behind a division, a whole number is computed exactly.  What remains is a
single quotient that is multiplied, and of these rows eighteen lose their whole number to rounding:
their equations have no target number, although their exact values are positive whole numbers.
-/

namespace EquationPuzzle

namespace Expression

/-! ## Terms of six symbols -/

namespace Term

def QuotientsLast : Term → Prop
  | .number _ => True
  | .multiply left _ => left.Whole
  | .divide left _ => left.QuotientsLast

theorem QuotientsLast.precise {term : Term} (hlast : term.QuotientsLast) {value : Binary64}
    (hvalue : term.value = .ok value) (hlength : term.symbols.length ≤ 15) {whole : Int}
    (hexact : term.exact = whole) : term.Precise := by
  induction term generalizing value whole with
  | number only => exact Whole.value_eq trivial hlength
  | multiply left right ih =>
      have hwhole : (multiply left right).Whole := hlast
      exact hwhole.value_eq hlength
  | divide left right ih =>
      have hsymbols := left.length_symbols_divide right
      have hdigits := right.length_symbols
      rcases value_divide_eq_ok (by omega) hvalue with ⟨hpositive, dividend, hdividend, _⟩
      have hne : (right.val.natural : Rat) ≠ 0 := by exact_mod_cast hpositive.ne'
      have hleft : left.exact = (whole * right.val.natural : Int) := by
        push_cast
        exact (div_eq_iff hne).mp hexact
      have hprecise := ih hlast hdividend (by omega) hleft
      exact hprecise.divide hvalue hlength hexact

theorem exists_number_of_short {term : Term} (hlength : term.symbols.length < 3) :
    ∃ only, term = .number only := by
  cases term with
  | number only => exact ⟨only, rfl⟩
  | multiply left right =>
      have hleft := left.length_symbols_pos
      have hright := right.length_symbols_pos
      rw [length_symbols_multiply] at hlength
      omega
  | divide left right =>
      have hleft := left.length_symbols_pos
      have hright := right.length_symbols_pos
      rw [length_symbols_divide] at hlength
      omega

def fraction (dividend divisor factor : Number) : Term :=
  .multiply (.divide (.number dividend) divisor) factor

theorem length_symbols_fraction (dividend divisor factor : Number) :
    (fraction dividend divisor factor).symbols.length =
      dividend.symbols.length + divisor.symbols.length + factor.symbols.length + 2 := by
  rw [fraction, length_symbols_multiply, length_symbols_divide, symbols]
  omega

/-- A term of three numerals has its divisions last or is a quotient that is multiplied. -/
theorem quotientsLast_or_eq_fraction {term : Term} (hlength : term.symbols.length ≤ 6) :
    term.QuotientsLast ∨ ∃ dividend divisor factor, term = fraction dividend divisor factor := by
  cases term with
  | number only => exact Or.inl trivial
  | multiply left right =>
      have hright := right.length_symbols_pos
      rw [length_symbols_multiply] at hlength
      cases left with
      | number only => exact Or.inl trivial
      | multiply first second =>
          have hsecond := second.length_symbols_pos
          rw [length_symbols_multiply] at hlength
          rcases exists_number_of_short (show first.symbols.length < 3 by omega) with ⟨only, rfl⟩
          exact Or.inl trivial
      | divide first second =>
          have hsecond := second.length_symbols_pos
          rw [length_symbols_divide] at hlength
          rcases exists_number_of_short (show first.symbols.length < 3 by omega) with ⟨only, rfl⟩
          exact Or.inr ⟨only, second, right, rfl⟩
  | divide left right =>
      have hright := right.length_symbols_pos
      rw [length_symbols_divide] at hlength
      left
      cases left with
      | number only => trivial
      | multiply first second =>
          have hsecond := second.length_symbols_pos
          rw [length_symbols_multiply] at hlength
          rcases exists_number_of_short (show first.symbols.length < 3 by omega) with ⟨only, rfl⟩
          trivial
      | divide first second =>
          have hsecond := second.length_symbols_pos
          rw [length_symbols_divide] at hlength
          rcases exists_number_of_short (show first.symbols.length < 3 by omega) with ⟨only, rfl⟩
          trivial

theorem value_fraction_eq_ok {dividend divisor factor : Number} {value : Binary64}
    (hlength : (fraction dividend divisor factor).symbols.length ≤ 15)
    (hvalue : (fraction dividend divisor factor).value = .ok value) :
    0 < divisor.val.natural ∧
      Binary64.scaledQuotient dividend.val.natural divisor.val.natural factor.val.natural =
        value := by
  rw [length_symbols_fraction] at hlength
  simp only [Number.length_symbols] at hlength
  rcases value_multiply_eq_ok (by omega) hvalue with ⟨quotient, hquotient, hproduct⟩
  rcases value_divide_eq_ok (by omega) hquotient with ⟨hpositive, first, hfirst, hdivided⟩
  have hdigits : first = .finite dividend.val.natural := by
    rw [← Digits.value_eq (by omega : dividend.val.length ≤ 15)]
    exact (Except.ok.inj hfirst).symm
  refine ⟨hpositive, ?_⟩
  rw [Binary64.scaledQuotient, ← hdigits, hdivided, hproduct]

theorem lengths_of_fraction {dividend divisor factor : Number}
    (hlength : (fraction dividend divisor factor).symbols.length = 6) :
    dividend.symbols.length = 1 ∧ divisor.symbols.length = 1 ∧ factor.symbols.length = 2 ∨
      dividend.symbols.length = 2 ∧ divisor.symbols.length = 1 ∧ factor.symbols.length = 1 ∨
      dividend.symbols.length = 1 ∧ divisor.symbols.length = 2 ∧ factor.symbols.length = 1 := by
  rw [length_symbols_fraction] at hlength
  have hdividend := dividend.length_symbols_pos
  have hdivisor := divisor.length_symbols_pos
  have hfactor := factor.length_symbols_pos
  omega

/-- A quotient that is multiplied comes to its exact value, if that is a positive whole number, or
is one of those that rounding hides. -/
theorem value_fraction_eq_or_missed {dividend divisor factor : Number} {value : Binary64}
    (hlength : (fraction dividend divisor factor).symbols.length = 6)
    (hvalue : (fraction dividend divisor factor).value = .ok value) {whole : Nat}
    (hwhole : 0 < whole) (hexact : (fraction dividend divisor factor).exact = whole) :
    value = .finite whole ∨
      (dividend.val.natural, divisor.val.natural, factor.val.natural) ∈ Binary64.missed := by
  rcases value_fraction_eq_ok (by omega) hvalue with ⟨hpositive, hscaled⟩
  have hne : (divisor.val.natural : Rat) ≠ 0 := by exact_mod_cast hpositive.ne'
  have hratio : (dividend.val.natural : Rat) / divisor.val.natural * factor.val.natural = whole :=
    hexact
  rw [div_mul_eq_mul_div, div_eq_iff hne] at hratio
  have hproduct : dividend.val.natural * factor.val.natural = whole * divisor.val.natural := by
    exact_mod_cast hratio
  have hfactorPos : 0 < factor.val.natural := by
    have hnonzero := Nat.mul_pos hwhole hpositive
    rw [← hproduct] at hnonzero
    exact Nat.pos_of_mul_pos_left hnonzero
  rw [← hscaled]
  apply Binary64.scaledQuotient_eq_or_missed hpositive hfactorPos hproduct
  have hdividend := dividend.natural_lt
  have hdivisor := divisor.natural_lt
  have hfactor := factor.natural_lt
  rcases lengths_of_fraction hlength with hshape | hshape | hshape
  all_goals
    rw [hshape.1] at hdividend
    rw [hshape.2.1] at hdivisor
    rw [hshape.2.2] at hfactor
    omega

end Term

/-! ## The rows that rounding spoils -/

def lastDigit (number : Nat) : Fin 10 := ⟨number % 10, Nat.mod_lt number (Nat.succ_pos 9)⟩

theorem lastDigit_eq {number : Nat} {digit : Fin 10} (hlast : number % 10 = digit) :
    lastDigit number = digit :=
  Fin.ext hlast

def Number.numeral (number : Nat) : Number :=
  if number < 10 then .one (lastDigit number)
  else .two (lastDigit (number / 10)) (lastDigit number)

theorem Number.eq_numeral {number : Number}
    (hlength : number.symbols.length = 1 ∨
      number.symbols.length = 2 ∧ 10 ≤ number.val.natural) :
    number = .numeral number.val.natural := by
  simp only [Number.length_symbols] at hlength
  rcases hlength with hone | ⟨htwo, hleast⟩
  · rcases List.length_eq_one_iff.mp hone with ⟨digit, hdigit⟩
    have hnumber : number = .one digit := Subtype.ext hdigit
    have hlast : digit.val % 10 = digit := by omega
    rw [hnumber, natural_one, numeral, if_pos digit.isLt, lastDigit_eq hlast]
  · rcases List.length_eq_two.mp htwo with ⟨first, second, hdigits⟩
    have hnumber : number = .two first second := Subtype.ext hdigits
    have hfirst : (first.val * 10 + second.val) / 10 % 10 = first := by omega
    have hsecond : (first.val * 10 + second.val) % 10 = second := by omega
    rw [hnumber, natural_two] at hleast
    rw [hnumber, natural_two, numeral, if_neg (by omega), lastDigit_eq hfirst, lastDigit_eq hsecond]

/-- The row of a quotient that is multiplied, with the digits of three numbers. -/
def spoiled (entry : Nat × Nat × Nat) : Sum :=
  .term (.fraction (.numeral entry.1) (.numeral entry.2.1) (.numeral entry.2.2))

theorem Term.eq_spoiled_of_missed {dividend divisor factor : Number}
    (hlength : (fraction dividend divisor factor).symbols.length = 6)
    (hmissed : (dividend.val.natural, divisor.val.natural, factor.val.natural) ∈ Binary64.missed) :
    Sum.term (fraction dividend divisor factor) =
      spoiled (dividend.val.natural, divisor.val.natural, factor.val.natural) := by
  have hsizes : ∀ entry ∈ Binary64.missed, 10 ≤ entry.1 ∨ 10 ≤ entry.2.2 := by decide
  have hlarge := hsizes _ hmissed
  dsimp only at hlarge
  have hdividend := dividend.natural_lt
  have hfactor := factor.natural_lt
  have hkinds :
      (dividend.symbols.length = 1 ∨ dividend.symbols.length = 2 ∧ 10 ≤ dividend.val.natural) ∧
        divisor.symbols.length = 1 ∧
          (factor.symbols.length = 1 ∨ factor.symbols.length = 2 ∧ 10 ≤ factor.val.natural) := by
    rcases lengths_of_fraction hlength with hshape | hshape | hshape
    all_goals
      rw [hshape.1] at hdividend
      rw [hshape.2.2] at hfactor
      omega
  have hfirst := Number.eq_numeral hkinds.1
  have hsecond := Number.eq_numeral (Or.inl hkinds.2.1)
  have hthird := Number.eq_numeral hkinds.2.2
  rw [spoiled, ← hfirst, ← hsecond, ← hthird]

theorem exists_exact_spoiled_eq : ∀ entry ∈ Binary64.missed,
    ∃ whole : Nat, 0 < whole ∧ (spoiled entry).exact = whole := by
  have hall : ∀ entry ∈ Binary64.missed,
      0 < (spoiled entry).exact.num ∧ (spoiled entry).exact.den = 1 := by
    decide +kernel
  intro entry hentry
  rcases hall entry hentry with ⟨hpositive, hden⟩
  rcases Int.eq_ofNat_of_zero_le hpositive.le with ⟨whole, hwhole⟩
  refine ⟨whole, by omega, ?_⟩
  rw [← (Rat.den_eq_one_iff _).mp hden, hwhole, Int.cast_natCast]

/-! ## Sums of six symbols -/

theorem Term.two_mul_products_lt (term : Term) :
    2 * products term.symbols < term.symbols.length := by
  induction term with
  | number only =>
      have hpositive := only.length_symbols_pos
      have hproducts : products (number only).symbols = 0 := only.products_symbols
      rw [hproducts]
      exact hpositive
  | multiply left right ih =>
      have hright := right.length_symbols_pos
      rw [products_multiply, length_symbols_multiply]
      omega
  | divide left right ih =>
      have hright := right.length_symbols_pos
      rw [products_divide, length_symbols_divide]
      omega

namespace Sum

theorem two_mul_products_lt (sum : Sum) : 2 * products sum.symbols < sum.symbols.length := by
  induction sum with
  | term only => exact only.two_mul_products_lt
  | add left right ih =>
      have hright := right.two_mul_products_lt
      rw [products_add, length_symbols_add]
      omega
  | subtract left right ih =>
      have hright := right.two_mul_products_lt
      rw [products_subtract, length_symbols_subtract]
      omega

theorem exists_term {sum : Sum} (hlength : sum.symbols.length ≤ 6)
    (hproducts : 1 < products sum.symbols) : ∃ only, sum = .term only := by
  cases sum with
  | term only => exact ⟨only, rfl⟩
  | add left right =>
      have hleft := left.two_mul_products_lt
      have hright := right.two_mul_products_lt
      rw [length_symbols_add] at hlength
      rw [products_add] at hproducts
      omega
  | subtract left right =>
      have hleft := left.two_mul_products_lt
      have hright := right.two_mul_products_lt
      rw [length_symbols_subtract] at hlength
      rw [products_subtract] at hproducts
      omega

/-- A row of six symbols whose exact value is a positive whole number is computed exactly, or its
product is one of those that rounding hides. -/
theorem eq_exact_or_spoiled {sum : Sum} {result : Rat} (hlength : sum.symbols.length = 6)
    (hvalue : sum.value = .ok (.finite result)) {whole : Nat} (hwhole : 0 < whole)
    (hexact : sum.exact = whole) :
    result = whole ∨ ∃ entry ∈ Binary64.missed, sum = spoiled entry := by
  -- With more than one product the six symbols are those of a single term.
  by_cases hproducts : products sum.symbols ≤ 1
  · left
    exact (value_eq_iff_exact_eq hproducts hvalue (by omega) whole).mpr hexact
  · rcases exists_term (by omega) (by omega : 1 < products sum.symbols) with ⟨only, honly⟩
    subst sum
    rcases Term.quotientsLast_or_eq_fraction hlength.le with hlast | hfraction
    · left
      have hwhole : only.exact = (whole : Int) := hexact
      obtain ⟨number, _, hnumber, hprecise⟩ :=
        hlast.precise hvalue (hlength.le.trans (by decide)) hwhole
      have hsame : result = number :=
        Binary64.finite.inj (Except.ok.inj (hvalue.symm.trans hprecise))
      rw [hsame, ← hnumber]
      exact hexact
    · rcases hfraction with ⟨dividend, divisor, factor, hfraction⟩
      subst only
      rcases Term.value_fraction_eq_or_missed hlength hvalue hwhole hexact with hsame | hmissed
      · exact Or.inl (Binary64.finite.inj hsame)
      · exact Or.inr ⟨_, hmissed, Term.eq_spoiled_of_missed hlength hmissed⟩

end Sum

end Expression

/-! ## Equations -/

namespace Equation

open Expression

/-- The equations whose exact value is a positive whole number that rounding hides. -/
def spoiled : List String :=
  ["7÷3×27", "7÷3×51", "7÷3×54", "7÷3×99", "7÷5×45", "7÷5×85", "7÷5×90", "7÷6×54", "9÷7×21",
    "9÷7×42", "9÷7×49", "9÷7×77", "9÷7×84", "9÷7×91", "9÷7×98", "29÷7×7", "58÷7×7", "61÷7×7"]

theorem spoiled_eq_map : spoiled = Binary64.missed.map fun entry =>
    String.ofList ((Expression.spoiled entry).symbols.map Symbol.toChar) := by
  decide +kernel

theorem exists_ofText_eq_of_missed {entry : Nat × Nat × Nat} (hentry : entry ∈ Binary64.missed) :
    ∃ equation,
      ofText (String.ofList ((Expression.spoiled entry).symbols.map Symbol.toChar)) = .ok equation ∧
        equation.spelling.toList = (Expression.spoiled entry).symbols ∧
          equation.targetNumber = none := by
  have hall : ∀ entry ∈ Binary64.missed,
      (ofText (String.ofList ((Expression.spoiled entry).symbols.map Symbol.toChar))).toOption.map
          (fun equation => (equation.spelling.toList, equation.targetNumber)) =
        some ((Expression.spoiled entry).symbols, none) := by
    decide +kernel
  have hread := hall entry hentry
  cases hequation :
      ofText (String.ofList ((Expression.spoiled entry).symbols.map Symbol.toChar)) with
  | error fault =>
      rw [hequation] at hread
      contradiction
  | ok equation =>
      rw [hequation] at hread
      exact ⟨equation, rfl, Prod.mk.inj (Option.some.inj hread)⟩

theorem exists_of_mem_spoiled {text : String} (htext : text ∈ spoiled) :
    ∃ equation, ofText text = .ok equation ∧ equation.targetNumber = none ∧
      ∃ whole : Nat, 0 < whole ∧ Worth equation.spelling.toList whole := by
  rw [spoiled_eq_map] at htext
  rcases List.mem_map.mp htext with ⟨entry, hentry, hspelled⟩
  rcases exists_ofText_eq_of_missed hentry with ⟨equation, hread, hsymbols, htarget⟩
  rcases exists_exact_spoiled_eq entry hentry with ⟨whole, hpositive, hexact⟩
  rw [hspelled] at hread
  refine ⟨equation, hread, htarget, whole, hpositive, ?_⟩
  rw [hsymbols, ← hexact]
  exact worth_symbols _

theorem text_eq_of_toList_eq {equation : Equation} {symbols : List Symbol}
    (hsymbols : symbols = equation.spelling.toList) :
    String.ofList (symbols.map Symbol.toChar) = equation.text := by
  rw [hsymbols, text, Spelling.text]

theorem targetNumber_of_mem_spoiled {equation : Equation} (hspoiled : equation.text ∈ spoiled) :
    equation.targetNumber = none := by
  rcases exists_of_mem_spoiled hspoiled with ⟨other, hother, htarget, _⟩
  have hsame : equation = other := Except.ok.inj (equation.ofText_text.symm.trans hother)
  rw [hsame]
  exact htarget

theorem ne_number_of_toList_eq {equation : Equation} {sum : Sum}
    (hsymbols : sum.symbols = equation.spelling.toList) (number : Number) :
    sum ≠ .term (.number number) := by
  intro hnumber
  rcases Spelling.exists_of_fault?_eq_none equation.grammatical with ⟨_, rest, op, hspelling, hop⟩
  have hmem : Symbol.operator op ∈ number.val.map Symbol.digit := by
    have hdigits : number.val.map Symbol.digit = equation.spelling.toList := by
      rw [← hsymbols, hnumber]
      rfl
    rw [hdigits, hspelling]
    exact List.mem_cons_of_mem _ hop
  rcases List.mem_map.mp hmem with ⟨digit, _, hdigit⟩
  contradiction

/-- A value that is a whole number is the exact value. -/
theorem worth_of_value_eq {equation : Equation} {whole : Nat} (hvalue : equation.value = whole) :
    Worth equation.spelling.toList whole ∧ whole ≤ 98901 := by
  rcases equation.exists_sum with ⟨sum, hsymbols, hresult⟩
  have hlength : sum.symbols.length = 6 := by
    rw [hsymbols]
    exact equation.spelling.length_toList
  rw [hvalue, ← Int.cast_natCast] at hresult
  have hexact := Sum.exact_eq_of_value hresult (by omega)
  rw [Int.cast_natCast] at hexact
  constructor
  · rw [← hsymbols, ← hexact]
    exact worth_symbols sum
  · have hle := Sum.exact_le hlength (ne_number_of_toList_eq hsymbols)
    rw [hexact] at hle
    exact_mod_cast hle

/-- The target number of an equation is its exact value, if that is a positive whole number, for
all equations but eighteen.  Rounding makes no whole number of a fraction, and it hides one only
behind a quotient that is multiplied. -/
theorem targetNumber_eq_some_iff_worth (equation : Equation) (number : Nat) :
    equation.targetNumber.map UInt32.toNat = some number ↔
      0 < number ∧ Worth equation.spelling.toList number ∧ equation.text ∉ spoiled := by
  constructor
  · intro htarget
    rcases Option.map_eq_some_iff.mp htarget with ⟨target, hsome, hnumber⟩
    rcases (equation.targetNumber_eq_some_iff target).mp hsome with ⟨hvalue, hpositive⟩
    rw [hnumber] at hvalue hpositive
    rw [Int.cast_natCast] at hvalue
    refine ⟨hpositive, (worth_of_value_eq hvalue).1, ?_⟩
    intro hspoiled
    rw [targetNumber_of_mem_spoiled hspoiled] at hsome
    contradiction
  · rintro ⟨hpositive, hworth, hspoiled⟩
    rcases equation.exists_sum with ⟨sum, hsymbols, hresult⟩
    have hlength : sum.symbols.length = 6 := by
      rw [hsymbols]
      exact equation.spelling.length_toList
    rw [← hsymbols] at hworth
    have hexact : sum.exact = number := (worth_symbols sum).eq hworth
    have hvalue : equation.value = number := by
      rcases Sum.eq_exact_or_spoiled hlength hresult hpositive hexact with hsame | hlost
      · exact hsame
      · rcases hlost with ⟨entry, hentry, hsum⟩
        rw [hsum] at hsymbols
        rw [← text_eq_of_toList_eq hsymbols, spoiled_eq_map] at hspoiled
        exact absurd (List.mem_map_of_mem hentry) hspoiled
    have hsize : number < UInt32.size := (worth_of_value_eq hvalue).2.trans_lt (by decide)
    have htarget : equation.targetNumber = some (UInt32.ofNat number) := by
      rw [targetNumber_eq_some_iff, UInt32.toNat_ofNat_of_lt' hsize]
      exact ⟨hvalue, hpositive⟩
    rw [htarget, Option.map_some, UInt32.toNat_ofNat_of_lt' hsize]

/-- Rounding hides a target number: a third of seven times twenty-seven. -/
theorem targetNumber_hidden : ∃ equation : Equation, equation.text = "7÷3×27" ∧
    Worth equation.spelling.toList 63 ∧ equation.targetNumber = none := by
  have hmissed : (7, 3, 27) ∈ Binary64.missed := List.mem_cons_self ..
  rcases exists_ofText_eq_of_missed hmissed with ⟨equation, _, hsymbols, htarget⟩
  have hexact : (Expression.spoiled (7, 3, 27)).exact = 63 := by decide +kernel
  refine ⟨equation, ?_, ?_, htarget⟩
  · rw [← text_eq_of_toList_eq hsymbols.symm]
    rfl
  · rw [hsymbols, ← hexact]
    exact worth_symbols _

end Equation

end EquationPuzzle
