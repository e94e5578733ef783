import EquationPuzzle.Proofs.Binary64
import EquationPuzzle.Proofs.Evaluation.Rows

/-!
# Short rows have values

The symbols of a row bound its value: neither a numeral nor anything computed on the way exceeds the
power of ten with as many zeros as symbols have been read.  So a short row whose divisors do not
start with a zero has a value.
-/

namespace EquationPuzzle

namespace Digits

def natural (digits : Digits) : Nat :=
  digits.foldl (fun number digit => number * 10 + digit.val) 0

theorem natural_concat (digits : Digits) (digit : Fin 10) :
    natural (digits ++ [digit]) = digits.natural * 10 + digit.val := by
  simp [natural]

theorem value_concat (digits : Digits) (digit : Fin 10) :
    value (digits ++ [digit]) =
      (digits.value.multiply (.finite 10)).add (.finite (digit.val : Rat)) := by
  simp [value]

theorem natural_lt (digits : Digits) : digits.natural < 10 ^ digits.length := by
  induction digits using List.reverseRecOn with
  | nil => decide
  | append_singleton digits digit ih =>
      rw [natural_concat, List.length_append, List.length_singleton, Nat.pow_succ]
      omega

theorem natural_pos {first : Fin 10} (hfirst : first ≠ 0) (rest : Digits) :
    0 < natural (first :: rest) := by
  induction rest using List.reverseRecOn with
  | nil =>
      have hpositive : 0 < first.val := Nat.pos_of_ne_zero fun hzero => hfirst (Fin.ext hzero)
      simpa [natural] using hpositive
  | append_singleton rest digit ih =>
      rw [← List.cons_append, natural_concat]
      omega

/-- A numeral up to `2 ^ 53` is read without rounding, however many zeros it starts with. -/
theorem value_eq_of_natural_le {digits : Digits} (hnatural : digits.natural ≤ 2 ^ 53) :
    digits.value = .finite (digits.natural : Rat) := by
  induction digits using List.reverseRecOn with
  | nil => rfl
  | append_singleton digits digit ih =>
      rw [natural_concat] at hnatural
      have hproduct : natural digits * 10 ≤ 2 ^ 53 := by omega
      rw [value_concat, ih (by omega), natural_concat]
      have hproduct := (Binary64.representable_natCast_of_le hproduct).round_eq
      have hsum := (Binary64.representable_natCast_of_le hnatural).round_eq
      push_cast at hproduct hsum
      rw [Binary64.multiply, hproduct, Binary64.add, hsum]
      push_cast
      rfl

theorem value_eq {digits : Digits} (hlength : digits.length ≤ 15) :
    digits.value = .finite (digits.natural : Rat) := by
  have hpower : 10 ^ digits.length ≤ 10 ^ 15 := Nat.pow_le_pow_right (by decide) hlength
  exact value_eq_of_natural_le (by have hlt := digits.natural_lt; omega)

end Digits

namespace Binary64

/-- A finite value of no more than a power of ten. -/
def Within (zeros : Nat) (a : Binary64) : Prop :=
  ∃ value : Rat, a = .finite value ∧ |value| ≤ 10 ^ zeros

theorem within_zero : Within 0 (.finite 0) := ⟨0, rfl, by simp⟩

section Within

variable {a b : Binary64} {zeros more : Nat}

theorem within_round {exact : Rat} (hzeros : zeros ≤ 15) (hexact : |exact| ≤ 10 ^ zeros) :
    (round exact).Within zeros := by
  have hpower : 10 ^ zeros < 2 ^ 53 :=
    (Nat.pow_le_pow_right (by decide) hzeros).trans_lt (by decide : 10 ^ 15 < 2 ^ 53)
  have hcast : ((10 ^ zeros : Nat) : Rat) = 10 ^ zeros := by push_cast; rfl
  rw [← hcast] at hexact
  obtain ⟨value, hround, hvalue⟩ :=
    exists_round_eq (onGrid_natCast hpower) (natCast_lt_limit hpower) hexact
  exact ⟨value, hround, hcast ▸ hvalue⟩

theorem Within.add (ha : a.Within zeros) (hb : b.Within more) (hlength : zeros + more + 1 ≤ 15) :
    (a.add b).Within (zeros + more + 1) := by
  obtain ⟨left, rfl, hleft⟩ := ha
  obtain ⟨right, rfl, hright⟩ := hb
  refine within_round hlength ?_
  have hfirst : (10 : Rat) ^ zeros ≤ 10 ^ (zeros + more) :=
    pow_le_pow_right₀ (by norm_num) (by omega)
  have hsecond : (10 : Rat) ^ more ≤ 10 ^ (zeros + more) :=
    pow_le_pow_right₀ (by norm_num) (by omega)
  have hpositive : (0 : Rat) ≤ 10 ^ (zeros + more) := by positivity
  calc |left + right| ≤ |left| + |right| := abs_add_le left right
    _ ≤ 10 ^ (zeros + more) * 10 := by linarith
    _ = 10 ^ (zeros + more + 1) := (pow_succ _ _).symm

theorem Within.negate (ha : a.Within zeros) : a.negate.Within zeros := by
  obtain ⟨value, rfl, hvalue⟩ := ha
  exact ⟨-value, rfl, by rwa [abs_neg]⟩

theorem Within.subtract (ha : a.Within zeros) (hb : b.Within more)
    (hlength : zeros + more + 1 ≤ 15) : (a.subtract b).Within (zeros + more + 1) :=
  ha.add hb.negate hlength

theorem Within.multiply (ha : a.Within zeros) (hb : b.Within more) (hlength : zeros + more ≤ 15) :
    (a.multiply b).Within (zeros + more) := by
  obtain ⟨left, rfl, hleft⟩ := ha
  obtain ⟨right, rfl, hright⟩ := hb
  refine within_round hlength ?_
  rw [abs_mul, pow_add]
  exact mul_le_mul hleft hright (abs_nonneg right) (by positivity)

theorem Within.divide (ha : a.Within zeros) {number : Nat} (hnumber : 0 < number)
    (hzeros : zeros ≤ 15) : (a.divide (.finite number)).Within zeros := by
  obtain ⟨value, rfl, hvalue⟩ := ha
  refine within_round hzeros ?_
  have hone : (1 : Rat) ≤ number := by exact_mod_cast hnumber
  rw [abs_div, Nat.abs_cast]
  exact (div_le_self (abs_nonneg value) hone).trans hvalue

end Within

end Binary64

theorem Digits.within_value {digits : Digits} (hlength : digits.length ≤ 15) :
    digits.value.Within digits.length := by
  refine ⟨digits.natural, value_eq hlength, ?_⟩
  rw [Nat.abs_cast]
  exact_mod_cast digits.natural_lt.le

namespace Operations

open Binary64 (Within)

variable {total term : Binary64} {pending : Operator} {zeros more : Nat}

theorem exists_apply_eq (hpending : pending.isMultiplicative = false) (htotal : total.Within zeros)
    (hterm : term.Within more) (hlength : zeros + more + 1 ≤ 15) :
    ∃ sum : Binary64, pending.apply total term = .ok sum ∧ sum.Within (zeros + more + 1) := by
  cases pending with
  | add => exact ⟨_, rfl, htotal.add hterm hlength⟩
  | subtract => exact ⟨_, rfl, htotal.subtract hterm hlength⟩
  | multiply => contradiction
  | divide => contradiction

/-- Each symbol that is read adds at most one zero to the bounds of the sum and of the term. -/
theorem exists_value_eq {operations : Operations} (hsound : operations.Sound)
    (hdivisors : ¬[Symbol.operator .divide, .digit 0] <:+: operations.symbols)
    (hpending : pending.isMultiplicative = false) (htotal : total.Within zeros)
    (hterm : term.Within more) (hlength : zeros + more + operations.symbols.length < 15) :
    ∃ value, operations.value total pending term = .ok (.finite value) := by
  induction operations generalizing total pending term zeros more with
  | fault error => exact hsound.elim
  | done =>
      obtain ⟨sum, happlied, value, rfl, _⟩ := exists_apply_eq hpending htotal hterm hlength
      exact ⟨value, happlied⟩
  | next op operand rest ih =>
      have hsymbols : (next op operand rest).symbols.length =
          operand.length + rest.symbols.length + 1 := by
        simp [symbols]
      have hrest : ¬[Symbol.operator .divide, .digit 0] <:+: rest.symbols := fun hwindow =>
        hdivisors (hwindow.trans
          (List.suffix_append (Symbol.operator op :: operand.map .digit) rest.symbols).isInfix)
      have hoperand := Digits.within_value (show operand.length ≤ 15 by omega)
      rw [value]
      cases op with
      | add =>
          obtain ⟨sum, happlied, hsum⟩ := exists_apply_eq hpending htotal hterm (by omega)
          rw [happlied]
          exact ih hsound.2 hrest rfl hsum hoperand (by omega)
      | subtract =>
          obtain ⟨sum, happlied, hsum⟩ := exists_apply_eq hpending htotal hterm (by omega)
          rw [happlied]
          exact ih hsound.2 hrest rfl hsum hoperand (by omega)
      | multiply =>
          exact ih hsound.2 hrest hpending htotal (hterm.multiply hoperand (by omega)) (by omega)
      | divide =>
          obtain ⟨first, others, rfl⟩ := List.exists_cons_of_ne_nil hsound.1
          have hfirst : first ≠ 0 := by
            rintro rfl
            exact hdivisors ⟨[], others.map .digit ++ rest.symbols, rfl⟩
          have hpositive := Digits.natural_pos hfirst others
          have happlied : Operator.divide.apply term (Digits.value (first :: others)) =
              .ok (term.divide (.finite (Digits.natural (first :: others) : Rat))) := by
            rw [Digits.value_eq (by omega)]
            exact if_neg (by simpa [Binary64.isZero] using hpositive.ne')
          change ∃ value, (Operator.divide.apply term _ >>= fun term =>
            Operations.value total pending term rest) = .ok (.finite value)
          rw [happlied]
          exact ih hsound.2 hrest hpending htotal (hterm.divide hpositive (by omega)) (by omega)

end Operations

end EquationPuzzle
