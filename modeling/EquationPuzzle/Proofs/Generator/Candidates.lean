import EquationPuzzle.Proofs.Evaluation.Quotients
import EquationPuzzle.Proofs.Generator
import EquationPuzzle.Proofs.Generator.Layouts

/-!
# Candidates

Every row that a template draws is an equation, and what the evaluation with rounding takes for a
whole number is the exact value of the row.  So a row is rejected for its exact value alone, and
never for being too large: no layout comes to more than four digits.
-/

namespace EquationPuzzle

namespace Template

open Expression

variable {template : Template} {symbols : List Symbol}

/-- The tree of a row with a layout.  No layout comes to more than four digits. -/
theorem Spells.exists_sum (hspells : template.Spells symbols) :
    ∃ sum : Sum, sum.symbols = symbols ∧ sum.Agrees ∧ sum.exact ≤ 9999 := by
  have hone : ∀ a : Fin 10, (Term.number (.one a)).exact ≤ 9 := by
    intro a
    rw [Term.exact, Number.natural_one]
    exact_mod_cast (show a.val ≤ 9 by omega)
  have htwo : ∀ a b : Fin 10, (Term.number (.two a b)).exact ≤ 99 := by
    intro a b
    rw [Term.exact, Number.natural_two]
    exact_mod_cast (show a.val * 10 + b.val ≤ 99 by omega)
  have hnonneg : ∀ number : Number, 0 ≤ (Term.number number).exact := fun _ => Nat.cast_nonneg _
  have hshort : 6 ≤ 15 := by decide
  cases hspells with
  | @productPlusDigit a b c d =>
      refine ⟨.add (.term (.multiply (.number (.two a b)) (.one c))) (.number (.one d)), rfl,
        Sum.Whole.agrees ⟨trivial, trivial⟩ hshort, ?_⟩
      have hproduct := mul_le_mul (htwo a b) (hone c) (hnonneg _) (by norm_num)
      exact (add_le_add hproduct (hone d)).trans (by norm_num)
  | @digitsPlusTens a b c d op ha hb hc hop =>
      refine ⟨.extend (.add (.term (.number (.one a))) (.number (.one b))) (.number (.two c d)) op,
        Sum.symbols_extend hop, ?_, ?_⟩
      · exact Sum.Whole.agrees (Sum.Whole.extend ⟨trivial, trivial⟩ trivial)
          ((congrArg List.length (Sum.symbols_extend hop)).trans_le hshort)
      · refine (Sum.exact_extend_le (hnonneg _)).trans ?_
        exact (add_le_add (add_le_add (hone a) (hone b)) (htwo c d)).trans (by norm_num)
  | @tensPlusDigits a b c d op ha hc hd hop =>
      refine ⟨.extend (.add (.term (.number (.two a b))) (.number (.one c))) (.number (.one d)) op,
        Sum.symbols_extend hop, ?_, ?_⟩
      · exact Sum.Whole.agrees (Sum.Whole.extend ⟨trivial, trivial⟩ trivial)
          ((congrArg List.length (Sum.symbols_extend hop)).trans_le hshort)
      · refine (Sum.exact_extend_le (hnonneg _)).trans ?_
        exact (add_le_add (add_le_add (htwo a b) (hone c)) (hone d)).trans (by norm_num)
  | @productPlusTens a b c d =>
      refine ⟨.add (.term (.multiply (.number (.one a)) (.one b))) (.number (.two c d)), rfl,
        Sum.Whole.agrees ⟨trivial, trivial⟩ hshort, ?_⟩
      have hproduct := mul_le_mul (hone a) (hone b) (hnonneg _) (by norm_num)
      exact (add_le_add hproduct (htwo c d)).trans (by norm_num)
  | @digitPlusProduct a b c d =>
      refine ⟨.add (.term (.number (.one a))) (.multiply (.number (.one b)) (.two c d)), rfl,
        Sum.Whole.agrees ⟨trivial, trivial⟩ hshort, ?_⟩
      have hproduct := mul_le_mul (hone b) (htwo c d) (hnonneg _) (by norm_num)
      exact (add_le_add (hone a) hproduct).trans (by norm_num)
  | @quotientPlusTens a b c d op ha hb hc hop =>
      refine ⟨_, Sum.symbols_extend hop, Sum.agrees_divide hb c d op, ?_⟩
      have hdivisor : (1 : Rat) ≤ (Number.one b).val.natural := by
        rw [Number.natural_one]
        exact_mod_cast Nat.pos_of_ne_zero fun hzero => hb (Fin.ext hzero)
      have hquotient : (Term.divide (.number (.one a)) (.one b)).exact ≤ 9 :=
        (div_le_self (hnonneg _) hdivisor).trans (hone a)
      refine (Sum.exact_extend_le (hnonneg _)).trans ?_
      exact (add_le_add hquotient (htwo c d)).trans (by norm_num)

theorem Spells.fault?_eq_none {spelling : Spelling} (hspells : template.Spells spelling.toList) :
    spelling.fault? = none := by
  obtain ⟨⟨symbols⟩, hsize⟩ := spelling
  change template.Spells symbols at hspells
  cases hspells with
  | productPlusDigit ha hc hd => rfl
  | digitsPlusTens ha hb hc hop => rcases hop with rfl | rfl <;> rfl
  | tensPlusDigits ha hc hd hop => rcases hop with rfl | rfl <;> rfl
  | productPlusTens ha hb hc => rfl
  | digitPlusProduct ha hb hc => rfl
  | quotientPlusTens ha hb hc hop =>
      -- The divisor must be looked at, too.
      rcases hop with rfl | rfl <;>
        simp [Spelling.fault?, Vector.head, Vector.back, Vector.toList,
          Spelling.adjacentOperators?, Spelling.dividesByZero, Spelling.hasOperation,
          Symbol.isOperator, Symbol.isDigit, hb]

/-- A zero starts a numeral. -/
inductive LeadingZero (symbols : List Symbol) : Prop
  | first (hhead : symbols.head? = some (.digit 0))
  | behind {op : Operator} (hwithin : [.operator op, .digit 0] <:+: symbols)

theorem leadingZero_iff : LeadingZero symbols ↔
    symbols.head? = some (.digit 0) ∨ ∃ op, [.operator op, .digit 0] <:+: symbols := by
  constructor
  · rintro (hhead | hwithin)
    · exact Or.inl hhead
    · exact Or.inr ⟨_, hwithin⟩
  · rintro (hhead | ⟨op, hwithin⟩)
    · exact .first hhead
    · exact .behind hwithin

theorem Spells.not_leadingZero (hspells : template.Spells symbols) : ¬LeadingZero symbols := by
  rw [leadingZero_iff]
  cases hspells with
  | productPlusDigit ha hc hd => simp [List.infix_cons_iff, ha, hc.symm, hd.symm]
  | digitsPlusTens ha hb hc hop => simp [List.infix_cons_iff, ha, hb.symm, hc.symm]
  | tensPlusDigits ha hc hd hop => simp [List.infix_cons_iff, ha, hc.symm, hd.symm]
  | productPlusTens ha hb hc => simp [List.infix_cons_iff, ha, hb.symm, hc.symm]
  | digitPlusProduct ha hb hc => simp [List.infix_cons_iff, ha, hb.symm, hc.symm]
  | quotientPlusTens ha hb hc hop => simp [List.infix_cons_iff, ha, hb.symm, hc.symm]

end Template

/-! ## Candidates -/

namespace Generator

open Expression

/-- The row is an equation, and its exact value tells the target number. -/
structure Candidate (spelling : Spelling) (equation : Equation) (value : Rat) : Prop where
  passes : Equation.ofSpelling spelling = .ok equation
  worth : Worth spelling.toList value
  le_max : value ≤ 9999
  targetNumber_iff : ∀ target : UInt32, equation.targetNumber = some target ↔
    value = target.toNat ∧ 1 ≤ target.toNat

theorem exists_candidate {template : Template} {spelling : Spelling}
    (hspells : template.Spells spelling.toList) :
    ∃ equation value, Candidate spelling equation value := by
  obtain ⟨sum, hsymbols, ⟨result, hvalue, hagrees⟩, hmax⟩ := hspells.exists_sum
  have hevaluate : evaluate spelling.toList = .ok result := by
    rw [← hsymbols, evaluate_symbols, hvalue]
    rfl
  obtain ⟨equation, hspelling, hresult⟩ : ∃ equation : Equation,
      equation.spelling = spelling ∧ equation.value = result :=
    ⟨⟨spelling, result, hspells.fault?_eq_none, hevaluate⟩, rfl, rfl⟩
  refine ⟨equation, sum.exact, Equation.ofSpelling_eq_ok_iff.mpr hspelling,
    hsymbols ▸ worth_symbols sum, hmax, fun target => ?_⟩
  rw [equation.targetNumber_eq_some_iff, hresult, hagrees, Int.cast_natCast]

section Candidate

variable {spelling : Spelling} {equation other : Equation} {value : Rat}

theorem Candidate.eq (hcandidate : Candidate equation.spelling other value) : equation = other :=
  Equation.ext (Equation.ofSpelling_eq_ok_iff.mp hcandidate.passes).symm

/-- The bound of generated puzzles rejects no candidate. -/
theorem Candidate.le_maxTarget (hcandidate : Candidate spelling equation value) {target : UInt32}
    (htarget : equation.targetNumber = some target) : target ≤ maxTarget := by
  have hmax := hcandidate.le_max
  rw [((hcandidate.targetNumber_iff target).mp htarget).1] at hmax
  have hnumber : target.toNat ≤ 9999 := by exact_mod_cast hmax
  exact UInt32.le_iff_toNat_le.mpr hnumber

theorem Candidate.puzzle?_eq (hcandidate : Candidate spelling equation value) :
    puzzle? spelling = equation.targetNumber.map fun target => ⟨equation, target⟩ := by
  rw [puzzle?, hcandidate.passes]
  cases htarget : equation.targetNumber with
  | none => simp only [htarget, Option.map_none]
  | some target =>
      simp only [htarget, hcandidate.le_maxTarget htarget, if_true, Option.map_some]

/-- The exact value alone decides whether a candidate is rejected. -/
theorem Candidate.puzzle?_eq_none_iff (hcandidate : Candidate spelling equation value) :
    puzzle? spelling = none ↔ value < 1 ∨ ∀ whole : Int, value ≠ whole := by
  rw [hcandidate.puzzle?_eq, Option.map_eq_none_iff, Option.eq_none_iff_forall_ne_some]
  simp only [ne_eq, hcandidate.targetNumber_iff, not_and_or]
  constructor
  · intro hrejected
    by_contra hfitting
    push Not at hfitting
    obtain ⟨hpositive, whole, rfl⟩ := hfitting
    have hleast : 1 ≤ whole := by exact_mod_cast hpositive
    have hmost : whole ≤ 9999 := by exact_mod_cast hcandidate.le_max
    have hnumber : (UInt32.ofNat whole.toNat).toNat = whole.toNat :=
      UInt32.toNat_ofNat_of_lt' (show whole.toNat < UInt32.size by rw [UInt32.size]; omega)
    have hwhole : (whole.toNat : Int) = whole := Int.toNat_of_nonneg (by omega)
    rcases hrejected (UInt32.ofNat whole.toNat) with hother | hzero
    · rw [hnumber] at hother
      exact hother (by exact_mod_cast hwhole.symm)
    · omega
  · rintro (hless | hbroken) target
    · refine not_and_or.mp ?_
      rintro ⟨hexact, hpositive⟩
      rw [hexact] at hless
      have hnumber : target.toNat < 1 := by exact_mod_cast hless
      omega
    · exact Or.inl (by exact_mod_cast hbroken target.toNat)

end Candidate

end Generator

end EquationPuzzle
