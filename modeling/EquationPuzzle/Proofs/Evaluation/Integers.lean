import EquationPuzzle.Proofs.Evaluation.Exact

/-!
# Whole numbers without rounding

A row without divisions computes with whole numbers.  As long as the numerals, the running products
and the running totals do not exceed `2 ^ 53`, each operation has a whole number of the format as
its exact result.  So nothing is rounded, however long the row is.
-/

namespace EquationPuzzle

/-- An operation other than a division is exact as long as its result fits. -/
theorem Operator.exists_apply_eq_exact {op : Operator} (hop : op ≠ .divide) {left right : Int}
    (hresult : |op.exact left right| ≤ 2 ^ 53) :
    ∃ result : Int, op.exact left right = result ∧
      op.apply (.finite left) (.finite right) = .ok (.finite result) := by
  have hround : ∀ result : Int, op.exact left right = result →
      Binary64.round (op.exact left right) = .finite result := by
    intro result hexact
    rw [hexact] at hresult ⊢
    exact (Binary64.representable_intCast_of_le (by exact_mod_cast hresult)).round_eq
  cases op with
  | add =>
      refine ⟨left + right, (Int.cast_add left right).symm, congrArg Except.ok ?_⟩
      exact hround _ (Int.cast_add left right).symm
  | subtract =>
      refine ⟨left - right, (Int.cast_sub left right).symm, congrArg Except.ok ?_⟩
      rw [Binary64.subtract, Binary64.negate, Binary64.add, ← sub_eq_add_neg]
      exact hround _ (Int.cast_sub left right).symm
  | multiply =>
      refine ⟨left * right, (Int.cast_mul left right).symm, congrArg Except.ok ?_⟩
      exact hround _ (Int.cast_mul left right).symm
  | divide => contradiction

namespace Operations

/-- The numerals, running products and running totals that evaluation meets from a term on, without
rounding. -/
def stages (total : Rat) (pending : Operator) (term : Rat) : Operations → List Rat
  | done => [pending.exact total term]
  | fault _ => []
  | next op operand rest =>
    if op.isMultiplicative then
      (operand.natural : Rat) :: op.exact term operand.natural ::
        rest.stages total pending (op.exact term operand.natural)
    else
      (operand.natural : Rat) :: pending.exact total term ::
        rest.stages (pending.exact total term) op operand.natural

theorem exists_value_eq_exact {operations : Operations} (hsound : operations.Sound)
    (hdivide : Symbol.operator .divide ∉ operations.symbols) {total term : Int}
    {pending : Operator} (hpending : pending.isMultiplicative = false)
    (hstages : ∀ stage ∈ operations.stages total pending term, |stage| ≤ 2 ^ 53) :
    ∃ result : Int, operations.exact total pending term = result ∧
      operations.value (.finite total) pending (.finite term) = .ok (.finite result) := by
  have hadditive : pending ≠ .divide := by
    rintro rfl
    contradiction
  induction operations generalizing total term pending with
  | done => exact Operator.exists_apply_eq_exact hadditive (hstages _ (by simp [stages]))
  | fault error => exact hsound.elim
  | next op operand rest ih =>
      have hop : op ≠ .divide := by
        rintro rfl
        exact hdivide (List.mem_cons_self ..)
      have hrest : Symbol.operator .divide ∉ rest.symbols := fun hmem =>
        hdivide (List.mem_cons_of_mem _ (List.mem_append_right _ hmem))
      have hcast : (operand.natural : Rat) = (operand.natural : Int) := (Int.cast_natCast _).symm
      have hread (hoperand : |((operand.natural : Int) : Rat)| ≤ 2 ^ 53) :
          operand.value = .finite (operand.natural : Int) := by
        rw [← hcast] at hoperand ⊢
        exact Digits.value_eq_of_natural_le (by exact_mod_cast le_of_abs_le hoperand)
      rw [stages, hcast] at hstages
      rw [exact, value, hcast]
      split at hstages
      · next hproduct =>
          rw [List.forall_mem_cons, List.forall_mem_cons] at hstages
          obtain ⟨hoperand, hterm, hstages⟩ := hstages
          obtain ⟨product, hexact, happlied⟩ := Operator.exists_apply_eq_exact hop hterm
          rw [hexact] at hstages
          rw [if_pos hproduct, if_pos hproduct, hexact, hread hoperand, happlied]
          exact ih hsound.2 hrest hpending hstages hadditive
      · next hsum =>
          rw [List.forall_mem_cons, List.forall_mem_cons] at hstages
          obtain ⟨hoperand, htotal, hstages⟩ := hstages
          obtain ⟨sum, hexact, happlied⟩ := Operator.exists_apply_eq_exact hadditive htotal
          rw [hexact] at hstages
          rw [if_neg hsum, if_neg hsum, hexact, happlied, hread hoperand]
          exact ih hsound.2 hrest (by simpa using hsum) hstages hop

end Operations

namespace Expression

variable {first : Number} {operations : Operations}

theorem exists_sum_of_sound (first : Number) (hsound : operations.Sound) :
    ∃ sum : Sum, sum.symbols = first.symbols ++ operations.symbols ∧
      Operations.read 0 sum.symbols = (first.val, operations) := by
  obtain ⟨sum, hsum⟩ := Sum.exists_symbols_eq (.term (.number first)) hsound
  refine ⟨sum, hsum, ?_⟩
  rw [hsum]
  exact Operations.read_append 0 first.val hsound

/-- Evaluation without rounding comes to the exact value of the tree. -/
theorem worth_append (hsound : operations.Sound) :
    Worth (first.symbols ++ operations.symbols) (operations.exact 0 .add first.val.natural) := by
  obtain ⟨sum, hsum, hread⟩ := exists_sum_of_sound first hsound
  have hexact := sum.exact_row .done
  rw [(read_symbols sum).symm.trans hread, sum.resumeExact_done] at hexact
  rw [← hsum, hexact]
  exact worth_symbols sum

/-- A row of numerals, with operators other than the division between them, comes to its exact value
if no numeral, no running product and no running total exceeds `2 ^ 53` in size. -/
theorem evaluate_eq_exact (hsound : operations.Sound)
    (hdivide : Symbol.operator .divide ∉ operations.symbols)
    (hfirst : first.val.natural ≤ 2 ^ 53)
    (hstages : ∀ stage ∈ operations.stages 0 .add first.val.natural, |stage| ≤ 2 ^ 53) :
    ∃ whole : Int, Worth (first.symbols ++ operations.symbols) whole ∧
      evaluate (first.symbols ++ operations.symbols) = .ok whole := by
  obtain ⟨sum, hsum, hread⟩ := exists_sum_of_sound first hsound
  obtain ⟨whole, hexact, hvalue⟩ := @Operations.exists_value_eq_exact operations hsound hdivide 0
    first.val.natural .add rfl (by simpa using hstages)
  rw [Int.cast_zero, Int.cast_natCast] at hexact hvalue
  rw [← Digits.value_eq_of_natural_le hfirst, value_eq_of_read sum hread] at hvalue
  refine ⟨whole, hexact ▸ worth_append hsound, ?_⟩
  rw [← hsum, evaluate_symbols, hvalue]
  rfl

/-- A difference of two numbers at the bound, one of them a product, and a small number behind. -/
theorem evaluate_eq_exact_cancelled :
    let first : Number := ⟨[9, 0, 0, 7, 1, 9, 9, 2, 5, 4, 7, 4, 0, 9, 9, 2], by simp⟩
    let half : Digits := [4, 5, 0, 3, 5, 9, 9, 6, 2, 7, 3, 7, 0, 4, 9, 6]
    let operations : Operations :=
      .next .subtract [2] (.next .multiply half (.next .add [7] .done))
    operations.Sound ∧ Symbol.operator .divide ∉ operations.symbols ∧
      first.val.natural ≤ 2 ^ 53 ∧
      (∀ stage ∈ operations.stages 0 .add first.val.natural, |stage| ≤ 2 ^ 53) ∧
      ∃ whole : Int, Worth (first.symbols ++ operations.symbols) whole ∧
        evaluate (first.symbols ++ operations.symbols) = .ok whole := by
  intro first half operations
  have hsound : operations.Sound := by simp [operations, half, Operations.Sound]
  have hdivide : Symbol.operator .divide ∉ operations.symbols := by decide
  have hfirst : first.val.natural ≤ 2 ^ 53 := by decide
  have hstages : ∀ stage ∈ operations.stages 0 .add first.val.natural, |stage| ≤ 2 ^ 53 := by
    decide +kernel
  exact ⟨hsound, hdivide, hfirst, hstages, evaluate_eq_exact hsound hdivide hfirst hstages⟩

end Expression

end EquationPuzzle
