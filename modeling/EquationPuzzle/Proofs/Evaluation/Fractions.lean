import EquationPuzzle.Proofs.Binary64
import Mathlib.Data.Nat.GCD.Basic

/-!
# Quotients that are multiplied

A quotient is rounded before it is multiplied, and the error is multiplied with it.  A quotient of
halves, quarters or eighths is not rounded at all.  Any other one is told by its lowest terms, and
where digits are few there are few of those: each is tried with each factor that makes a whole
number of it.  Eighteen of the products come out beside the whole number.
-/

namespace EquationPuzzle

namespace Binary64

def scaledQuotient (dividend divisor factor : Nat) : Binary64 :=
  ((finite dividend).divide (finite divisor)).multiply (finite factor)

/-- Dividends, divisors and factors of the whole numbers that rounding hides. -/
def missed : List (Nat × Nat × Nat) :=
  [(7, 3, 27), (7, 3, 51), (7, 3, 54), (7, 3, 99), (7, 5, 45), (7, 5, 85), (7, 5, 90), (7, 6, 54),
    (9, 7, 21), (9, 7, 42), (9, 7, 49), (9, 7, 77), (9, 7, 84), (9, 7, 91), (9, 7, 98), (29, 7, 7),
    (58, 7, 7), (61, 7, 7)]

/-- The multiple of a fraction by its denominator comes to a whole number, or is known not to. -/
def Tried (numerator denominator multiple : Nat) : Prop :=
  scaledQuotient numerator denominator (denominator * multiple) =
      finite (numerator * multiple : Nat) ∨
    (numerator, denominator, denominator * multiple) ∈ missed

instance (numerator denominator multiple : Nat) :
    Decidable (Tried numerator denominator multiple) :=
  inferInstanceAs (Decidable (_ ∨ _))

theorem tried_of_digit : ∀ denominator ∈ [3, 5, 6, 7, 9], ∀ multiple : Fin 33,
    denominator * (multiple.val + 1) ≤ 99 → ∀ numerator : Fin 10,
      numerator.val.Coprime denominator → Tried numerator denominator (multiple + 1) := by
  decide +kernel

theorem tried_of_two_digits : ∀ denominator ∈ [3, 5, 6, 7, 9], ∀ multiple : Fin 3,
    denominator * (multiple.val + 1) ≤ 9 → ∀ numerator : Fin 90,
      (numerator.val + 10).Coprime denominator →
        Tried (numerator + 10) denominator (multiple + 1) := by
  decide +kernel

theorem representable_div {numerator denominator : Nat} (hnumerator : numerator ≤ 99)
    (hdenominator : denominator ∣ 8) : Representable (numerator / denominator : Rat) := by
  rcases hdenominator with ⟨parts, hparts⟩
  have hpositive : 0 < denominator := Nat.pos_of_ne_zero (by rintro rfl; omega)
  have hmost : parts ≤ 8 := Nat.le_of_dvd (by decide) (Dvd.intro_left denominator hparts.symm)
  have hunits : |((numerator * parts : Nat) : Int)| < 2 ^ 53 := by
    have hproduct := Nat.mul_le_mul hnumerator hmost
    rw [Nat.abs_cast]
    omega
  have hplace := representable_mul_zpow hunits (show -1074 ≤ -3 by decide) (by decide)
  have hsame : (numerator / denominator : Rat) =
      ((numerator * parts : Nat) : Int) * 2 ^ (-3 : Int) := by
    have hcast : (8 : Rat) = denominator * parts := by exact_mod_cast hparts
    have hne : (denominator : Rat) ≠ 0 := by exact_mod_cast hpositive.ne'
    have heighth : (2 : Rat) ^ (-3 : Int) = 1 / 8 := by norm_num
    push_cast
    rw [heighth, div_eq_iff hne, mul_one_div, div_mul_eq_mul_div, eq_div_iff (by norm_num), hcast]
    ring
  rwa [hsame]

theorem tried_of_dvd {numerator denominator multiple : Nat} (hnumerator : numerator ≤ 99)
    (hmultiple : multiple ≤ 99) (hdenominator : denominator ∣ 8) :
    Tried numerator denominator multiple := by
  left
  have hne : (denominator : Rat) ≠ 0 := by
    have hpositive : 0 < denominator := Nat.pos_of_dvd_of_pos hdenominator (by decide)
    exact_mod_cast hpositive.ne'
  have hproduct := Nat.mul_le_mul hnumerator hmultiple
  have hexact : (numerator / denominator : Rat) * (denominator * multiple : Nat) =
      (numerator * multiple : Nat) := by
    push_cast
    rw [← mul_assoc, div_mul_cancel₀ _ hne]
  rw [scaledQuotient, divide, (representable_div hnumerator hdenominator).round_eq, multiply,
    hexact]
  exact (representable_natCast (by omega)).round_eq

theorem tried {numerator denominator multiple : Nat} (hcoprime : numerator.Coprime denominator)
    (hpositive : 0 < denominator) (hmultiple : 0 < multiple)
    (hsizes : numerator ≤ 9 ∧ denominator * multiple ≤ 99 ∨
      numerator ≤ 99 ∧ denominator * multiple ≤ 9) (hdenominator : denominator ≤ 9) :
    Tried numerator denominator multiple := by
  have hkinds : ∀ denominator : Fin 10, 0 < denominator.val →
      denominator.val ∣ 8 ∨ denominator.val ∈ [3, 5, 6, 7, 9] := by decide
  have hmost : multiple ≤ denominator * multiple := Nat.le_mul_of_pos_left multiple hpositive
  rcases hkinds ⟨denominator, by omega⟩ hpositive with heighth | hrest
  · exact tried_of_dvd (by omega) (by omega) heighth
  · rcases Nat.exists_eq_add_of_lt hmultiple with ⟨before, rfl⟩
    have hthree : 3 ≤ denominator := by
      have hall : ∀ denominator ∈ [3, 5, 6, 7, 9], 3 ≤ denominator := by decide
      exact hall denominator hrest
    have hthird : 3 * (0 + before + 1) ≤ denominator * (0 + before + 1) :=
      Nat.mul_le_mul_right _ hthree
    rw [Nat.zero_add] at *
    by_cases hdigit : numerator ≤ 9
    · exact tried_of_digit denominator hrest ⟨before, by omega⟩ (by dsimp only; omega)
        ⟨numerator, by omega⟩ hcoprime
    · have hsplit : numerator - 10 + 10 = numerator := by omega
      have hkept := tried_of_two_digits denominator hrest ⟨before, by omega⟩ (by dsimp only; omega)
        ⟨numerator - 10, by omega⟩ (by rwa [hsplit])
      rwa [hsplit] at hkept

theorem scaledQuotient_mul (numerator denominator factor : Nat) {common : Nat}
    (hcommon : 0 < common) :
    scaledQuotient (numerator * common) (denominator * common) factor =
      scaledQuotient numerator denominator factor := by
  have hne : (common : Rat) ≠ 0 := by exact_mod_cast hcommon.ne'
  unfold scaledQuotient divide
  push_cast
  rw [mul_div_mul_right _ _ hne]

/-- Of a quotient of few digits the whole multiples are computed exactly, but for eighteen. -/
theorem scaledQuotient_eq_or_missed {dividend divisor factor : Nat} (hdivisor : 0 < divisor)
    (hfactor : 0 < factor) {whole : Nat} (hwhole : dividend * factor = whole * divisor)
    (hsizes : dividend ≤ 9 ∧ divisor ≤ 9 ∧ factor ≤ 99 ∨
      dividend ≤ 99 ∧ divisor ≤ 9 ∧ factor ≤ 9 ∨ dividend ≤ 9 ∧ divisor ≤ 99 ∧ factor ≤ 9) :
    scaledQuotient dividend divisor factor = finite whole ∨
      (dividend, divisor, factor) ∈ missed := by
  have hcommon : 0 < Nat.gcd dividend divisor := Nat.gcd_pos_of_pos_right dividend hdivisor
  obtain ⟨numerator, denominator, hcoprime, hnumerator, hdenominator⟩ :=
    Nat.exists_coprime dividend divisor
  generalize Nat.gcd dividend divisor = common at hcommon hnumerator hdenominator
  subst hnumerator hdenominator
  have hpositive : 0 < denominator := Nat.pos_of_mul_pos_right hdivisor
  have hlowest : numerator * factor = whole * denominator := by
    apply Nat.eq_of_mul_eq_mul_right hcommon
    linarith
  obtain ⟨multiple, hmultiple⟩ : denominator ∣ factor :=
    hcoprime.symm.dvd_of_dvd_mul_left (Dvd.intro_left whole hlowest.symm)
  subst factor
  have hnumber : whole = numerator * multiple := by
    apply Nat.eq_of_mul_eq_mul_right hpositive
    linarith
  subst whole
  have hmost : numerator ≤ numerator * common := Nat.le_mul_of_pos_right numerator hcommon
  have hmost' : denominator ≤ denominator * common := Nat.le_mul_of_pos_right denominator hcommon
  have hmultiple : 0 < multiple := Nat.pos_of_mul_pos_left hfactor
  have hleast : denominator ≤ denominator * multiple :=
    Nat.le_mul_of_pos_right denominator hmultiple
  rw [scaledQuotient_mul numerator denominator _ hcommon]
  rcases tried hcoprime hpositive hmultiple (by omega) (by omega) with hexact | hmissed
  · exact Or.inl hexact
  · right
    -- The terms that are missed are too large to be halves of other terms with as few digits.
    have hlarge : ∀ entry ∈ missed,
        5 ≤ entry.1 ∧ (entry.2.2 ≤ 9 → 10 ≤ entry.1 ∧ 5 ≤ entry.2.1) := by
      decide
    have hterms := hlarge _ hmissed
    dsimp only at hterms
    have hone : common = 1 := by
      by_contra hne
      have htwice : numerator * 2 ≤ numerator * common := Nat.mul_le_mul_left _ (by omega)
      have htwice' : denominator * 2 ≤ denominator * common := Nat.mul_le_mul_left _ (by omega)
      omega
    rwa [hone, Nat.mul_one, Nat.mul_one]

end Binary64

end EquationPuzzle
