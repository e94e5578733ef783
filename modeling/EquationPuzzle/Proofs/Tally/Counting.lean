import EquationPuzzle.Proofs.Solution

/-!
# Counting symbol by symbol

A tally can be counted in a table that is empty at first: every symbol of a row adds one in the
place of its number.  A number beyond the table would have no place, but the numbers of the symbols
are exactly the places of the table.

After each symbol the table is the tally of the symbols so far.  So the whole row can be counted,
and two rows leave the same table exactly if one is a rearrangement of the other.
-/

namespace EquationPuzzle

/-- No number of a symbol lies beyond the table, and no place of the table is spare. -/
theorem Symbol.lt_count_iff (place : Nat) :
    place < Symbol.count ↔ ∃ symbol : Symbol, symbol.index.val = place := by
  constructor
  · intro hplace
    by_cases hdigit : place < 10
    · exact ⟨.digit ⟨place, hdigit⟩, rfl⟩
    · have hoperator : place = 10 ∨ place = 11 ∨ place = 12 ∨ place = 13 := by
        have hbound : place < 14 := hplace
        omega
      rcases hoperator with hplace | hplace | hplace | hplace
      · exact ⟨.operator .add, hplace.symm⟩
      · exact ⟨.operator .subtract, hplace.symm⟩
      · exact ⟨.operator .multiply, hplace.symm⟩
      · exact ⟨.operator .divide, hplace.symm⟩
  · intro hsymbol
    rcases hsymbol with ⟨symbol, hindex⟩
    exact hindex ▸ symbol.index.isLt

namespace Tally

/-- One more in a place, if the table has it. -/
def raise? (tally : Tally) (place : Nat) : Option Tally :=
  if hplace : place < Symbol.count then
    some (tally.set place (tally.get ⟨place, hplace⟩ + 1) hplace)
  else none

def countFrom? (tally : Tally) (symbols : List Symbol) : Option Tally :=
  symbols.foldlM (fun counted symbol => counted.raise? symbol.index.val) tally

/-- The table of a row, unless the number of one of its symbols lies beyond it. -/
def count? (symbols : List Symbol) : Option Tally :=
  countFrom? (Vector.replicate Symbol.count 0) symbols

theorem of_nil : Tally.of [] = Vector.replicate Symbol.count 0 := by
  apply Vector.ext
  intro place hplace
  simp [Tally.of]

/-- One more symbol is one more in the place of its number. -/
theorem raise?_of (seen : List Symbol) (symbol : Symbol) :
    (Tally.of seen).raise? symbol.index.val = some (Tally.of (seen ++ [symbol])) := by
  rw [raise?, dif_pos symbol.index.isLt, Option.some.injEq]
  apply Vector.ext
  intro place hplace
  -- Every place is the number of a symbol, so both tables can be read by symbols.
  obtain ⟨other, rfl⟩ := (Symbol.lt_count_iff place).mp hplace
  have hafter : (Tally.of (seen ++ [symbol]))[other.index.val] =
      seen.count other + [symbol].count other := by
    rw [← List.count_append]
    exact getElem_of _ other
  rw [hafter, Vector.getElem_set]
  by_cases hsame : symbol = other
  · subst other
    rw [if_pos rfl, List.count_singleton_self]
    exact congrArg (· + 1) (getElem_of seen symbol)
  · have hindex : symbol.index.val ≠ other.index.val :=
      fun h => hsame (Symbol.index_injective (Fin.ext h))
    rw [if_neg hindex, List.count_singleton, if_neg (by simpa using hsame)]
    exact getElem_of seen other

theorem countFrom?_of (seen rest : List Symbol) :
    countFrom? (Tally.of seen) rest = some (Tally.of (seen ++ rest)) := by
  induction rest generalizing seen with
  | nil => simp [countFrom?]
  | cons symbol rest ih =>
      have hrest := ih (seen ++ [symbol])
      rw [List.append_assoc, List.singleton_append] at hrest
      rw [countFrom?, List.foldlM_cons, raise?_of]
      exact hrest

theorem count?_eq (symbols : List Symbol) : count? symbols = some (Tally.of symbols) := by
  rw [count?, ← of_nil]
  exact countFrom?_of [] symbols

/-- Counting tells rearrangements from all other rows.  Since the numbers of the symbols are the
places of the table, any row can be counted and comes to its tally.  Two rows have the same tally
exactly if they are rearrangements of each other, and one equation is a permutation of another
exactly if its text rearranges the characters of the other's. -/
theorem eq_iff_rearranged :
    (∀ place, place < Symbol.count ↔ ∃ symbol : Symbol, symbol.index.val = place) ∧
      (∀ symbols : List Symbol, count? symbols = some (Tally.of symbols)) ∧
      (∀ symbols others : List Symbol,
        Tally.of symbols = Tally.of others ↔ symbols.Perm others) ∧
      ∀ a b : Equation, a.isPermutationOf b = true ↔ a.text.toList.Perm b.text.toList := by
  refine ⟨Symbol.lt_count_iff, count?_eq, of_eq_iff_perm, ?_⟩
  intro a b
  rw [Equation.isPermutationOf_iff, Equation.perm_text_iff a.ofText_text]

end Tally

end EquationPuzzle
