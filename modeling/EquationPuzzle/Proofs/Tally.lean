import EquationPuzzle.Symbol
import Mathlib.Tactic.Common

/-!
# Tallies

A tally counts the symbols of a row under their numbers.  Different symbols have different numbers,
so a row has the same tally as another one exactly if it is a rearrangement of it.
-/

namespace EquationPuzzle

theorem Symbol.index_injective : Function.Injective Symbol.index := by
  intro a b hindex
  have hvalue := congrArg Fin.val hindex
  cases a with
  | digit value =>
      cases b with
      | digit other =>
          have hsame : value = other := Fin.ext hvalue
          rw [hsame]
      | operator op =>
          have hbound := value.isLt
          simp [Symbol.index] at hvalue
          omega
  | operator op =>
      cases b with
      | digit value =>
          have hbound := value.isLt
          simp [Symbol.index] at hvalue
          omega
      | operator other => cases op <;> cases other <;> first | rfl | contradiction

theorem Tally.getElem_of (symbols : List Symbol) (symbol : Symbol) :
    (Tally.of symbols)[symbol.index] = symbols.count symbol := by
  simp only [Tally.of, Fin.getElem_fin, Vector.getElem_ofFn, List.count]
  apply List.countP_congr
  intro other _
  simp only [decide_eq_true_eq, beq_iff_eq]
  constructor
  · intro hindex
    exact Symbol.index_injective hindex
  · intro hsame
    rw [hsame]

/-- Two rows have the same tally exactly if they are rearrangements of each other. -/
theorem Tally.of_eq_iff_perm (symbols others : List Symbol) :
    Tally.of symbols = Tally.of others ↔ symbols.Perm others := by
  constructor
  · intro htally
    rw [List.perm_iff_count]
    intro symbol
    rw [← Tally.getElem_of, ← Tally.getElem_of, htally]
  · intro hperm
    unfold Tally.of
    congr 1
    funext index
    exact hperm.countP_eq _

end EquationPuzzle
