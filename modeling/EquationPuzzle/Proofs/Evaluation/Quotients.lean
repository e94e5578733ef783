import EquationPuzzle.Proofs.Evaluation.Exact
import Mathlib.Data.Nat.Cast.Field

/-!
# Quotients and whole numbers

A quotient of digits is rounded, and so is its sum with a number.  If the quotient is no whole
number, it keeps a sixteenth away from the whole numbers next to it, and that is more than rounding
can bridge: what is computed is a whole number only if the exact value is that number.
-/

namespace EquationPuzzle

namespace Binary64

/-! ## Between whole numbers -/

/-- Between a whole number and the next one, a sixteenth or more away from both. -/
structure Amid (whole : Int) (value : Rat) : Prop where
  lower : whole + 1 / 16 ≤ value
  upper : value ≤ whole + 15 / 16

section Amid

variable {whole : Int} {value : Rat}

theorem Amid.ne (hamid : Amid whole value) (other : Int) : value ≠ other := by
  rintro rfl
  have hlower : (whole : Rat) < other := by linarith [hamid.lower]
  have hupper : (other : Rat) < (whole + 1 : Int) := by
    push_cast
    linarith [hamid.upper]
  have hlower' : whole < other := by exact_mod_cast hlower
  have hupper' : other < whole + 1 := by exact_mod_cast hupper
  omega

theorem Amid.add (hamid : Amid whole value) (number : Int) :
    Amid (whole + number) (value + number) := by
  constructor
  · push_cast
    linarith [hamid.lower]
  · push_cast
    linarith [hamid.upper]

theorem Amid.round (hamid : Amid whole value) (hwhole : |whole| ≤ 1000) :
    ∃ rounded, round value = finite rounded ∧ Amid whole rounded := by
  have hsixteenths : ∀ part : Int, |part| < 16 →
      Representable (whole + part / 16) := by
    intro part hpart
    have hunits : |16 * whole + part| < 2 ^ 53 := by
      rw [abs_lt] at hpart ⊢
      rw [abs_le] at hwhole
      omega
    have hplace := representable_mul_zpow hunits (show -1074 ≤ -4 by decide) (by decide)
    have hsame : ((16 * whole + part : Int) : Rat) * 2 ^ (-4 : Int) = whole + part / 16 := by
      rw [zpow_neg]
      push_cast
      norm_num
      ring
    rwa [hsame] at hplace
  have hfirst := hsixteenths 1 (by decide)
  have hlast := hsixteenths 15 (by decide)
  simp only [Int.cast_one, Int.cast_ofNat] at hfirst hlast
  obtain ⟨rounded, hround, hlower, hupper⟩ :=
    exists_round_between hfirst hlast hamid.lower hamid.upper
  exact ⟨rounded, hround, hlower, hupper⟩

/-- The rest of a division by a small number is a sixteenth of it or more. -/
theorem amid_div {numerator denominator : Nat} (hpositive : 0 < denominator)
    (hsmall : denominator ≤ 16) (hrest : ¬denominator ∣ numerator) :
    Amid (numerator / denominator : Nat) (numerator / denominator) := by
  have hdenominator : (0 : Rat) < denominator := Nat.cast_pos.mpr hpositive
  have hsplit := Nat.div_add_mod numerator denominator
  have hleast : 0 < numerator % denominator :=
    Nat.pos_of_ne_zero fun hzero => hrest (Nat.dvd_of_mod_eq_zero hzero)
  have hmost := Nat.mod_lt numerator hpositive
  generalize numerator / denominator = quotient at hsplit
  have hlower : (16 * (denominator * quotient) + denominator : Nat) ≤ 16 * numerator := by omega
  have hupper : 16 * numerator ≤ 16 * (denominator * quotient) + 15 * denominator := by omega
  constructor
  · rw [le_div_iff₀ hdenominator]
    have hcast : ((16 * (denominator * quotient) + denominator : Nat) : Rat) ≤
        (16 * numerator : Nat) := Nat.cast_le.mpr hlower
    push_cast at hcast ⊢
    linarith
  · rw [div_le_iff₀ hdenominator]
    have hcast : ((16 * numerator : Nat) : Rat) ≤
        (16 * (denominator * quotient) + 15 * denominator : Nat) := Nat.cast_le.mpr hupper
    push_cast at hcast ⊢
    linarith

theorem add_intCast {left right : Int} (hsum : |left + right| ≤ 1000) :
    (finite left).add (finite right) = finite (left + right : Int) := by
  have hrepresentable := representable_intCast (hsum.trans_lt (by decide : (1000 : Int) < 2 ^ 53))
  rw [add, ← Int.cast_add, hrepresentable.round_eq]

/-- A quotient of digits and a number of two digits yield a whole number if their exact sum is
one. -/
theorem exists_divide_add_eq {numerator denominator : Nat} {number : Int}
    (hnumerator : numerator ≤ 9) (hpositive : 0 < denominator) (hsmall : denominator ≤ 9)
    (hnumber : |number| ≤ 99) :
    ∃ result, ((finite numerator).divide (finite denominator)).add (finite number) =
        finite result ∧
      ∀ whole : Int, result = whole ↔ (numerator / denominator + number : Rat) = whole := by
  have hquotient : numerator / denominator ≤ 9 := (Nat.div_le_self _ _).trans hnumerator
  have hbound : |((numerator / denominator : Nat) : Int) + number| ≤ 1000 := by
    generalize numerator / denominator = quotient at hquotient
    rw [abs_le] at hnumber ⊢
    omega
  by_cases hdvd : denominator ∣ numerator
  · have hexact : (numerator : Rat) / denominator = (numerator / denominator : Nat) :=
      (Nat.cast_div hdvd (by exact_mod_cast hpositive.ne')).symm
    have hround := (representable_natCast (show numerator / denominator < 2 ^ 53 by omega)).round_eq
    refine ⟨((numerator / denominator : Nat) + number : Int), ?_, fun whole => ?_⟩
    · rw [divide, hexact, hround, ← Int.cast_natCast, add_intCast hbound]
    · rw [hexact]
      push_cast
      rfl
  · have hamid := amid_div hpositive (hsmall.trans (by decide)) hdvd
    obtain ⟨rounded, hround, hrounded⟩ := hamid.round (by rw [Nat.abs_cast]; omega)
    obtain ⟨result, hresult, hbetween⟩ := (hrounded.add number).round hbound
    refine ⟨result, ?_, fun whole => ?_⟩
    · rw [divide, hround, add, hresult]
    · exact iff_of_false (hbetween.ne whole) ((hamid.add number).ne whole)

end Amid

end Binary64

/-! ## Sums with a quotient -/

namespace Expression

def Number.one (a : Fin 10) : Number := ⟨[a], List.cons_ne_nil _ _⟩

def Number.two (a b : Fin 10) : Number := ⟨[a, b], List.cons_ne_nil _ _⟩

@[simp] theorem Number.natural_one (a : Fin 10) : (Number.one a).val.natural = a.val := by
  simp [Number.one, Digits.natural]

@[simp] theorem Number.natural_two (a b : Fin 10) :
    (Number.two a b).val.natural = a.val * 10 + b.val := by
  simp [Number.two, Digits.natural]

theorem Number.value_one (a : Fin 10) : (Number.one a).val.value = .finite a.val := by
  have hvalue := Digits.value_eq (show (Number.one a).val.length ≤ 15 by simp [Number.one])
  rwa [Number.natural_one] at hvalue

theorem Number.value_two (a b : Fin 10) :
    (Number.two a b).val.value = .finite (a.val * 10 + b.val : Nat) := by
  have hvalue := Digits.value_eq (show (Number.two a b).val.length ≤ 15 by simp [Number.two])
  rwa [Number.natural_two] at hvalue

namespace Sum

/-- The value of the tree is a whole number exactly if its exact value is that number. -/
def Agrees (sum : Sum) : Prop :=
  ∃ result : Rat, sum.value = .ok (.finite result) ∧
    ∀ whole : Int, result = whole ↔ sum.exact = whole

theorem Whole.agrees {sum : Sum} (hwhole : sum.Whole) (hlength : sum.symbols.length ≤ 15) :
    sum.Agrees := by
  obtain ⟨number, _, hexact, hvalue⟩ := hwhole.value_eq hlength
  exact ⟨number, hvalue, fun whole => by rw [hexact]⟩

end Sum

theorem Term.value_divide {a b : Fin 10} (hb : b ≠ 0) :
    (Term.divide (.number (.one a)) (.one b)).value =
      .ok ((Binary64.finite a.val).divide (.finite b.val)) := by
  have hpositive : (Binary64.finite b.val).isZero = false := by
    have hne : b.val ≠ 0 := fun hzero => hb (Fin.ext hzero)
    simpa [Binary64.isZero] using hne
  rw [Term.value, Term.value, Number.value_one, Number.value_one]
  exact if_neg (by simp [hpositive])

theorem Sum.agrees_divide {a b : Fin 10} (hb : b ≠ 0) (c d : Fin 10) (op : Operator) :
    (Sum.extend (.term (.divide (.number (.one a)) (.one b))) (.number (.two c d)) op).Agrees := by
  have hquotient : (Sum.term (.divide (.number (.one a)) (.one b))).value =
      .ok ((Binary64.finite a.val).divide (.finite b.val)) := Term.value_divide hb
  have hnumber : (Term.number (.two c d)).value = .ok (.finite (c.val * 10 + d.val : Nat)) :=
    congrArg Except.ok (Number.value_two c d)
  have hnatural : (Term.number (.two c d)).exact = (c.val * 10 + d.val : Nat) :=
    congrArg Nat.cast (Number.natural_two c d)
  obtain ⟨signed, hsigned, hvalue, hexact⟩ := value_extend hquotient hnumber hnatural
  have hpositive : 0 < b.val := Nat.pos_of_ne_zero fun hzero => hb (Fin.ext hzero)
  obtain ⟨result, hresult, hwhole⟩ :=
    Binary64.exists_divide_add_eq (show a.val ≤ 9 by omega) hpositive (show b.val ≤ 9 by omega)
      (show |signed| ≤ 99 by omega)
  refine ⟨result, hvalue.trans (congrArg Except.ok hresult), fun whole => ?_⟩
  rw [hwhole, hexact, Sum.exact, Term.exact, Term.exact, Number.natural_one, Number.natural_one]

end Expression

end EquationPuzzle
