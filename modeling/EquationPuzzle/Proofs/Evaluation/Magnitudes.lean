import EquationPuzzle.Proofs.Evaluation.Bounds
import EquationPuzzle.Proofs.Evaluation.Precedence

/-!
# Numerals of any length

Digits are read with a rounding each, and there may be more of them than the format can hold.  From
the first digit on that is not zero, each further one makes the number at least eight times as
large.  So a numeral counts as zero only if it is written with zeros, and a long one is infinite.
-/

namespace EquationPuzzle

namespace Binary64

/-- No less than a bound, be it beyond all finite values. -/
def AtLeast (bound : Rat) (a : Binary64) : Prop :=
  a = .infinite false ∨ ∃ value : Rat, a = .finite value ∧ bound ≤ value

section AtLeast

variable {a : Binary64} {bound : Rat}

theorem AtLeast.mono (ha : a.AtLeast bound) {lower : Rat} (hlower : lower ≤ bound) :
    a.AtLeast lower := by
  rcases ha with rfl | ⟨value, rfl, hvalue⟩
  · exact Or.inl rfl
  · exact Or.inr ⟨value, rfl, hlower.trans hvalue⟩

theorem AtLeast.isZero (ha : a.AtLeast 1) : a.isZero = false := by
  rcases ha with rfl | ⟨value, rfl, hvalue⟩
  · rfl
  · have hne : value ≠ 0 := by linarith
    simp [Binary64.isZero, hne]

theorem atLeast_round {exact : Rat} (hgrid : OnGrid bound) (hpositive : 0 < bound)
    (hexact : bound ≤ exact) : (round exact).AtLeast bound := by
  have hnonneg : ¬exact < 0 := by linarith
  have hmagnitude := le_magnitude hgrid (hexact.trans (le_abs_self exact))
  unfold round
  simp only [hnonneg, decide_false, if_false]
  split
  · exact Or.inl rfl
  · exact Or.inr ⟨_, rfl, hmagnitude⟩

theorem onGrid_two_pow (exponent : Nat) : OnGrid (2 ^ exponent) :=
  ⟨1, exponent, by decide, by omega, by simp⟩

/-- One more digit makes a number at least eight times as large. -/
theorem AtLeast.shift {exponent : Nat} (ha : a.AtLeast (2 ^ exponent)) (digit : Fin 10) :
    ((a.multiply (.finite 10)).add (.finite (digit.val : Rat))).AtLeast (2 ^ (exponent + 3)) := by
  have hdigit : (0 : Rat) ≤ (digit.val : Rat) := Nat.cast_nonneg _
  have hpower : (2 : Rat) ^ (exponent + 3) = 2 ^ exponent * 8 := by rw [pow_add]; norm_num
  have hpositive : (0 : Rat) < 2 ^ exponent := by positivity
  have hproduct : (a.multiply (.finite 10)).AtLeast (2 ^ (exponent + 3)) := by
    rcases ha with rfl | ⟨value, rfl, hvalue⟩
    · exact Or.inl rfl
    · exact atLeast_round (onGrid_two_pow _) (by positivity) (by linarith)
  rcases hproduct with hinfinite | ⟨value, hfinite, hvalue⟩
  · rw [hinfinite]
    exact Or.inl rfl
  · rw [hfinite]
    exact atLeast_round (onGrid_two_pow _) (by positivity) (by linarith)

/-- What is too large for the format has become infinite. -/
theorem AtLeast.eq_infinite (ha : a.AtLeast limit) (hproper : a.Proper) : a = .infinite false := by
  rcases ha with hinfinite | ⟨value, rfl, hvalue⟩
  · exact hinfinite
  · have hbound := hproper.lt_limit
    linarith [le_abs_self value]

end AtLeast

end Binary64

namespace Digits

theorem value_eq_zero_or_atLeast (digits : Digits) :
    ((∀ digit ∈ digits, digit = 0) ∧ digits.value = .finite 0) ∨
      ((∃ digit ∈ digits, digit ≠ 0) ∧ digits.value.AtLeast 1) := by
  induction digits using List.reverseRecOn with
  | nil => exact Or.inl ⟨by simp, rfl⟩
  | append_singleton digits digit ih =>
      rw [value_concat]
      rcases ih with ⟨hzeros, hvalue⟩ | ⟨⟨other, hother, hnonzero⟩, hvalue⟩
      · have hzero : Binary64.round 0 = .finite 0 := by
          exact_mod_cast (Binary64.representable_natCast (show 0 < 2 ^ 53 by decide)).round_eq
        have hdigit : Binary64.round (digit.val : Rat) = .finite (digit.val : Rat) :=
          (Binary64.representable_natCast (by omega)).round_eq
        rw [hvalue, Binary64.multiply, zero_mul, hzero, Binary64.add, zero_add, hdigit]
        by_cases hnonzero : digit = 0
        · subst digit
          exact Or.inl ⟨by simpa [or_imp, forall_and] using hzeros, by simp⟩
        · have hpositive : 1 ≤ digit.val :=
            Nat.one_le_iff_ne_zero.mpr fun hval => hnonzero (Fin.ext hval)
          refine Or.inr ⟨⟨digit, by simp, hnonzero⟩, Or.inr ⟨_, rfl, ?_⟩⟩
          exact_mod_cast hpositive
      · rw [← pow_zero 2] at hvalue
        have hshift := hvalue.shift digit
        exact Or.inr ⟨⟨other, by simp [hother], hnonzero⟩, hshift.mono (by norm_num)⟩

/-- A numeral counts as zero exactly if all its digits are zeros, however many there are. -/
theorem isZero_value_iff (digits : Digits) :
    digits.value.isZero = true ↔ ∀ digit ∈ digits, digit = 0 := by
  rcases digits.value_eq_zero_or_atLeast with ⟨hzeros, hvalue⟩ | ⟨⟨digit, hdigit, hne⟩, hvalue⟩
  · rw [hvalue]
    exact ⟨fun _ => hzeros, fun _ => rfl⟩
  · rw [hvalue.isZero]
    exact ⟨by simp, fun hzeros => (hne (hzeros digit hdigit)).elim⟩

theorem atLeast_value {first : Fin 10} (hfirst : first ≠ 0) (rest : Digits) :
    (value (first :: rest)).AtLeast (2 ^ (3 * rest.length)) := by
  induction rest using List.reverseRecOn with
  | nil =>
      rcases value_eq_zero_or_atLeast [first] with ⟨hzeros, _⟩ | ⟨_, hvalue⟩
      · exact (hfirst (hzeros first (by simp))).elim
      · simpa using hvalue
  | append_singleton rest digit ih =>
      rw [← List.cons_append, value_concat, List.length_append, List.length_singleton, mul_add]
      exact ih.shift digit

/-- With so many digits a number is infinite. -/
theorem value_eq_infinite {first : Fin 10} (hfirst : first ≠ 0) {rest : Digits}
    (hlength : 342 ≤ rest.length) : value (first :: rest) = .infinite false := by
  refine ((atLeast_value hfirst rest).mono ?_).eq_infinite (proper_value _ (by simp))
  have hlimit : Binary64.limit = 2 ^ 1024 := by
    rw [Binary64.limit, Binary64.scaled_eq, Nat.cast_one, one_mul]
    rfl
  rw [hlimit]
  exact pow_le_pow_right₀ one_le_two (by omega)

end Digits

end EquationPuzzle
