import EquationPuzzle.Proofs.Evaluation.Exact

/-!
# The largest value

The exact value of a row stays below the power of ten with as many zeros as the row has symbols.  An
operator takes one of the six symbols of an equation, and the other five are worth most when two of
them are multiplied with three.
-/

namespace EquationPuzzle

namespace Expression

theorem Number.natural_add_one_le (number : Number) :
    (number.val.natural : Rat) + 1 ≤ 10 ^ number.symbols.length := by
  exact_mod_cast number.natural_lt

theorem Term.exact_nonneg (term : Term) : 0 ≤ term.exact := by
  induction term with
  | number only => exact Nat.cast_nonneg _
  | multiply left right ih => exact mul_nonneg ih (Nat.cast_nonneg _)
  | divide left right ih => exact div_nonneg ih (Nat.cast_nonneg _)

theorem Term.exact_divide_le (left : Term) (right : Number) :
    (Term.divide left right).exact ≤ left.exact := by
  have hnonneg := left.exact_nonneg
  rw [exact]
  rcases Nat.eq_zero_or_pos right.val.natural with hzero | hpositive
  · rw [hzero, Nat.cast_zero, div_zero]
    exact hnonneg
  · have hone : (1 : Rat) ≤ right.val.natural := by exact_mod_cast hpositive
    exact div_le_self hnonneg hone

theorem Term.exact_multiply_le (left : Term) (right : Number) {bound : Rat}
    (hleft : left.exact + 1 ≤ bound) :
    (Term.multiply left right).exact ≤ (bound - 1) * (10 ^ right.symbols.length - 1) := by
  have hnonneg := left.exact_nonneg
  have hright := right.natural_add_one_le
  rw [exact]
  exact mul_le_mul (by linarith) (by linarith) (Nat.cast_nonneg _) (by linarith)

theorem Term.exact_add_one_le (term : Term) : term.exact + 1 ≤ 10 ^ term.symbols.length := by
  induction term with
  | number only => exact only.natural_add_one_le
  | multiply left right ih =>
      have hproduct := left.exact_multiply_le right ih
      have hleft : (1 : Rat) ≤ 10 ^ left.symbols.length := one_le_pow₀ (by norm_num)
      have hright : (1 : Rat) ≤ 10 ^ right.symbols.length := one_le_pow₀ (by norm_num)
      rw [length_symbols_multiply, pow_succ, pow_add]
      nlinarith
  | divide left right ih =>
      have hquotient := left.exact_divide_le right
      have hpower : (10 : Rat) ^ left.symbols.length ≤
          10 ^ (Term.divide left right).symbols.length :=
        pow_le_pow_right₀ (by norm_num) (by rw [length_symbols_divide]; omega)
      linarith

theorem Sum.exact_add_one_le (sum : Sum) : sum.exact + 1 ≤ 10 ^ sum.symbols.length := by
  induction sum with
  | term only => exact only.exact_add_one_le
  | add left right ih =>
      have hright := right.exact_add_one_le
      have hsmall : (1 : Rat) ≤ 10 ^ left.symbols.length := one_le_pow₀ (by norm_num)
      have hsmall' : (1 : Rat) ≤ 10 ^ right.symbols.length := one_le_pow₀ (by norm_num)
      rw [exact, length_symbols_add, pow_succ, pow_add]
      nlinarith
  | subtract left right ih =>
      have hright := right.exact_nonneg
      have hpower : (10 : Rat) ^ left.symbols.length ≤
          10 ^ (Sum.subtract left right).symbols.length :=
        pow_le_pow_right₀ (by norm_num) (by rw [length_symbols_subtract]; omega)
      rw [exact]
      linarith

/-- What two parts of five symbols may come to. -/
theorem powers_le {first second : Nat} (hlength : first + second = 5) (hfirst : 0 < first)
    (hsecond : 0 < second) :
    ((10 : Rat) ^ first - 1) * (10 ^ second - 1) ≤ 98901 ∧
      (10 : Rat) ^ first + 10 ^ second ≤ 10010 := by
  have hsplits : first = 1 ∧ second = 4 ∨ first = 2 ∧ second = 3 ∨ first = 3 ∧ second = 2 ∨
      first = 4 ∧ second = 1 := by omega
  rcases hsplits with ⟨hone, hfour⟩ | ⟨htwo, hthree⟩ | ⟨hthree, htwo⟩ | ⟨hfour, hone⟩
  all_goals
    subst first second
    norm_num

/-- No row of six symbols with an operator has a larger value than 99 times 999. -/
theorem Sum.exact_le {sum : Sum} (hlength : sum.symbols.length = 6)
    (hoperation : ∀ number, sum ≠ .term (.number number)) : sum.exact ≤ 98901 := by
  have hdigits : ∀ number : Number, (1 : Rat) ≤ 10 ^ number.symbols.length := fun number =>
    one_le_pow₀ (by norm_num)
  cases sum with
  | term only =>
      cases only with
      | number number => exact absurd rfl (hoperation number)
      | multiply left right =>
          have hsymbols := (left.length_symbols_multiply right).symm.trans hlength
          have hpowers := powers_le (Nat.succ_injective hsymbols) left.length_symbols_pos
            right.length_symbols_pos
          exact (left.exact_multiply_le right left.exact_add_one_le).trans hpowers.1
      | divide left right =>
          have hsymbols := (left.length_symbols_divide right).symm.trans hlength
          have hpowers := powers_le (Nat.succ_injective hsymbols) left.length_symbols_pos
            right.length_symbols_pos
          have hleft := left.exact_add_one_le
          have hquotient := left.exact_divide_le right
          change (Term.divide left right).exact ≤ 98901
          linarith [hdigits right]
  | add left right =>
      have hsymbols := (length_symbols_add right left).symm.trans hlength
      have hpowers := powers_le (Nat.succ_injective hsymbols) left.length_symbols_pos
        right.length_symbols_pos
      have hleft := left.exact_add_one_le
      have hright := right.exact_add_one_le
      rw [exact]
      linarith
  | subtract left right =>
      have hsymbols := (length_symbols_subtract right left).symm.trans hlength
      have hpowers := powers_le (Nat.succ_injective hsymbols) left.length_symbols_pos
        right.length_symbols_pos
      have hleft := left.exact_add_one_le
      have hright := right.exact_nonneg
      have hbehind := right.exact_add_one_le
      rw [exact]
      linarith

end Expression

end EquationPuzzle
