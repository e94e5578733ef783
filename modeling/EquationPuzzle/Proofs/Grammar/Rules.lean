import EquationPuzzle.Proofs.Equation
import Mathlib.Tactic.Common

/-!
# The grammar of equations

Which texts are expressions, and which rule a text breaks first if it is not one of six characters
with an operator in it and no zero behind a division sign.  The rules look at a character and the
one before it; the grammar reads numerals and operators in turn.
-/

namespace EquationPuzzle

namespace Grammar

def IsNumeral (characters : List Char) : Prop :=
  characters ≠ [] ∧ ∀ c ∈ characters, c.isDigit

/-- Numerals with operators between them. -/
inductive IsExpression : List Char → Prop
  | numeral {digits : List Char} (hdigits : IsNumeral digits) : IsExpression digits
  | operation {digits rest : List Char} {op : Char} (hdigits : IsNumeral digits)
      (hop : op ∈ Operator.characters) (hrest : IsExpression rest) :
      IsExpression (digits ++ op :: rest)

/-- An expression with at least one operator. -/
def IsOperation (characters : List Char) : Prop :=
  ∃ digits op rest, IsNumeral digits ∧ op ∈ Operator.characters ∧ IsExpression rest ∧
    characters = digits ++ op :: rest

def IsLetter (c : Char) : Prop :=
  c.isDigit ∨ c ∈ Operator.characters

def OperatorAt (characters : List Char) (position : Nat) : Prop :=
  ∃ op ∈ Operator.characters, characters[position]? = some op

/-- The character at a position and the one before it are operators. -/
def AdjoinAt (characters : List Char) : Nat → Prop
  | 0 => False
  | before + 1 => OperatorAt characters before ∧ OperatorAt characters (before + 1)

theorem operatorAt_cons_zero (c : Char) (rest : List Char) :
    OperatorAt (c :: rest) 0 ↔ c ∈ Operator.characters := by
  simp [OperatorAt]

theorem adjoinAt_cons_succ (c : Char) (rest : List Char) (before : Nat) :
    AdjoinAt (c :: rest) (before + 1) ↔
      (before = 0 ∧ c ∈ Operator.characters ∧ OperatorAt rest 0) ∨ AdjoinAt rest before := by
  cases before with
  | zero => simp [AdjoinAt, OperatorAt]
  | succ before => simp [AdjoinAt, OperatorAt]

/-! ### Expressions have digits at both ends and no two operators together -/

theorem not_mem_characters_of_isDigit {c : Char} (hc : c.isDigit) : c ∉ Operator.characters := by
  intro hmem
  have hall : ∀ op ∈ Operator.characters, op.isDigit = false := by simp [Operator.characters]
  rw [hall c hmem] at hc
  contradiction

theorem IsNumeral.append {digits : List Char} (hdigits : IsNumeral digits) (rest : List Char) :
    ¬OperatorAt (digits ++ rest) 0 := by
  obtain ⟨hnonempty, hall⟩ := hdigits
  obtain ⟨digit, digits, rfl⟩ := List.exists_cons_of_ne_nil hnonempty
  rw [List.cons_append, operatorAt_cons_zero]
  exact not_mem_characters_of_isDigit (hall digit (List.mem_cons_self ..))

theorem not_adjoinAt_nil (position : Nat) : ¬AdjoinAt [] position := by
  cases position <;> simp [AdjoinAt, OperatorAt]

theorem not_adjoinAt_append {digits rest : List Char} (hdigits : ∀ c ∈ digits, c.isDigit)
    (hrest : ∀ position, ¬AdjoinAt rest position) (position : Nat) :
    ¬AdjoinAt (digits ++ rest) position := by
  induction digits generalizing position with
  | nil => exact hrest position
  | cons digit digits ih =>
      have hdigit := not_mem_characters_of_isDigit (hdigits digit (List.mem_cons_self ..))
      have htail := ih fun c hc => hdigits c (List.mem_cons_of_mem _ hc)
      cases position with
      | zero => exact id
      | succ before =>
          rw [List.cons_append, adjoinAt_cons_succ]
          exact fun hadjoin => hadjoin.elim (fun hfirst => hdigit hfirst.2.1) (htail before)

namespace IsExpression

variable {characters : List Char}

theorem not_operatorAt_zero (hexpression : IsExpression characters) :
    ¬OperatorAt characters 0 := by
  cases hexpression with
  | numeral hdigits => simpa using hdigits.append []
  | operation hdigits hop hrest => exact hdigits.append _

theorem exists_getLast?_eq (hexpression : IsExpression characters) :
    ∃ digit, characters.getLast? = some digit ∧ digit.isDigit := by
  induction hexpression with
  | numeral hdigits =>
      have hlast := List.getLast?_eq_some_getLast hdigits.1
      exact ⟨_, hlast, hdigits.2 _ (List.getLast_mem hdigits.1)⟩
  | operation hdigits hop hrest ih =>
      obtain ⟨digit, hlast, hdigit⟩ := ih
      refine ⟨digit, ?_, hdigit⟩
      rw [List.getLast?_append, List.getLast?_cons, hlast]
      rfl

theorem isLetter (hexpression : IsExpression characters) : ∀ c ∈ characters, IsLetter c := by
  induction hexpression with
  | numeral hdigits => exact fun c hc => Or.inl (hdigits.2 c hc)
  | operation hdigits hop hrest ih =>
      intro c hc
      rcases List.mem_append.mp hc with hdigit | hc
      · exact Or.inl (hdigits.2 c hdigit)
      · rcases List.mem_cons.mp hc with rfl | hc
        · exact Or.inr hop
        · exact ih c hc

theorem not_adjoinAt (hexpression : IsExpression characters) (position : Nat) :
    ¬AdjoinAt characters position := by
  induction hexpression generalizing position with
  | numeral hdigits =>
      simpa using not_adjoinAt_append hdigits.2 not_adjoinAt_nil position
  | operation hdigits hop hrest ih =>
      refine not_adjoinAt_append hdigits.2 (fun position => ?_) position
      cases position with
      | zero => exact id
      | succ before =>
          rw [adjoinAt_cons_succ]
          exact fun hadjoin =>
            hadjoin.elim (fun hfirst => hrest.not_operatorAt_zero hfirst.2.2) (ih before)

end IsExpression

theorem IsOperation.isExpression {characters : List Char} (hoperation : IsOperation characters) :
    IsExpression characters := by
  obtain ⟨digits, op, rest, hdigits, hop, hrest, rfl⟩ := hoperation
  exact .operation hdigits hop hrest

/-- An expression is more than one numeral if it is not made of digits only. -/
theorem IsExpression.isOperation {characters : List Char} (hexpression : IsExpression characters)
    (hoperator : ∃ c ∈ characters, ¬c.isDigit) : IsOperation characters := by
  cases hexpression with
  | numeral hdigits =>
      obtain ⟨c, hc, hdigit⟩ := hoperator
      exact (hdigit (hdigits.2 c hc)).elim
  | operation hdigits hop hrest => exact ⟨_, _, _, hdigits, hop, hrest, rfl⟩

theorem IsOperation.exists_not_isDigit {characters : List Char}
    (hoperation : IsOperation characters) : ∃ c ∈ characters, ¬c.isDigit := by
  obtain ⟨digits, op, rest, hdigits, hop, hrest, rfl⟩ := hoperation
  exact ⟨op, by simp, fun hdigit => not_mem_characters_of_isDigit hdigit hop⟩

end Grammar

namespace Malformed

open Grammar

/-- The characters break a rule of the grammar, at the first place where they do so. -/
def Breaks (characters : List Char) : Malformed → Prop
  | wrongLength length => length = characters.length ∧ length ≠ 6
  | invalidCharacter c position =>
    characters[position]? = some c ∧ ¬IsLetter c ∧
      ∀ earlier ∈ characters.take position, IsLetter earlier
  | leadingOperator => OperatorAt characters 0
  | trailingOperator => ∃ op ∈ Operator.characters, characters.getLast? = some op
  | adjacentOperators position =>
    AdjoinAt characters position ∧ ∀ earlier < position, ¬AdjoinAt characters earlier
  | divisionByZero => ['÷', '0'] <:+: characters
  | missingOperation => ∀ c ∈ characters, c.isDigit

/-- The place of a rule in the order in which the rules are checked. -/
def rank : Malformed → Nat
  | wrongLength _ => 0
  | invalidCharacter _ _ => 1
  | leadingOperator => 2
  | trailingOperator => 3
  | adjacentOperators _ => 4
  | divisionByZero => 5
  | missingOperation => 6

/-- The characters keep the rules before the given place. -/
def Keeps (characters : List Char) (place : Nat) : Prop :=
  ∀ fault : Malformed, fault.rank < place → ¬fault.Breaks characters

/-- The first rule that the characters break. -/
structure IsFirst (characters : List Char) (fault : Malformed) : Prop where
  breaks : fault.Breaks characters
  keeps : Keeps characters fault.rank

/-- A rule is broken in one way only. -/
theorem Breaks.eq_of_rank_eq {characters : List Char} {a b : Malformed}
    (ha : a.Breaks characters) (hb : b.Breaks characters) (hrank : a.rank = b.rank) : a = b := by
  cases a with
  | wrongLength length =>
      cases b with
      | wrongLength length' => rw [ha.1, hb.1]
      | _ => simp [rank] at hrank
  | invalidCharacter c position =>
      cases b with
      | invalidCharacter c' position' =>
          have hle : ∀ {c c' : Char} {position position' : Nat},
              (invalidCharacter c position).Breaks characters →
              (invalidCharacter c' position').Breaks characters → position ≤ position' := by
            intro c c' position position' hbreaks hbreaks'
            refine Nat.le_of_not_lt fun hlt => hbreaks'.2.1 (hbreaks.2.2 c' ?_)
            rw [List.mem_take_iff_getElem]
            obtain ⟨hposition, hc⟩ := List.getElem?_eq_some_iff.mp hbreaks'.1
            exact ⟨position', by omega, hc⟩
          obtain rfl := Nat.le_antisymm (hle ha hb) (hle hb ha)
          rw [Option.some.inj (ha.1.symm.trans hb.1)]
      | _ => simp [rank] at hrank
  | adjacentOperators position =>
      cases b with
      | adjacentOperators position' =>
          rcases Nat.lt_trichotomy position position' with hlt | rfl | hgt
          · exact absurd ha.1 (hb.2 position hlt)
          · rfl
          · exact absurd hb.1 (ha.2 position' hgt)
      | _ => simp [rank] at hrank
  | leadingOperator =>
      cases b with
      | leadingOperator => rfl
      | _ => simp [rank] at hrank
  | trailingOperator =>
      cases b with
      | trailingOperator => rfl
      | _ => simp [rank] at hrank
  | divisionByZero =>
      cases b with
      | divisionByZero => rfl
      | _ => simp [rank] at hrank
  | missingOperation =>
      cases b with
      | missingOperation => rfl
      | _ => simp [rank] at hrank

theorem IsFirst.eq {characters : List Char} {a b : Malformed} (ha : a.IsFirst characters)
    (hb : b.IsFirst characters) : a = b := by
  refine ha.breaks.eq_of_rank_eq hb.breaks (Nat.le_antisymm ?_ ?_)
  · exact Nat.le_of_not_lt fun hlt => ha.keeps b hlt hb.breaks
  · exact Nat.le_of_not_lt fun hlt => hb.keeps a hlt ha.breaks

/-- Six characters that are numerals with operators between them can break two rules only. -/
theorem Breaks.eq_of_isExpression {characters : List Char} (hlength : characters.length = 6)
    (hexpression : IsExpression characters) {fault : Malformed}
    (hbreaks : fault.Breaks characters) :
    fault = .divisionByZero ∨ fault = .missingOperation := by
  cases fault with
  | wrongLength length => exact (hbreaks.2 (hbreaks.1.trans hlength)).elim
  | invalidCharacter c position =>
      exact (hbreaks.2.1 (hexpression.isLetter c (List.mem_of_getElem? hbreaks.1))).elim
  | leadingOperator => exact (hexpression.not_operatorAt_zero hbreaks).elim
  | trailingOperator =>
      obtain ⟨op, hop, hlast⟩ := hbreaks
      obtain ⟨digit, hlast', hdigit⟩ := hexpression.exists_getLast?_eq
      obtain rfl := Option.some.inj (hlast'.symm.trans hlast)
      exact (not_mem_characters_of_isDigit hdigit hop).elim
  | adjacentOperators position => exact (hexpression.not_adjoinAt position hbreaks.1).elim
  | divisionByZero => exact Or.inl rfl
  | missingOperation => exact Or.inr rfl

/-- With an operator among them, only a zero behind a division sign is left. -/
theorem Breaks.eq_of_isOperation {characters : List Char} (hlength : characters.length = 6)
    (hoperation : IsOperation characters) {fault : Malformed} (hbreaks : fault.Breaks characters) :
    fault = .divisionByZero := by
  rcases hbreaks.eq_of_isExpression hlength hoperation.isExpression with hzero | rfl
  · exact hzero
  · obtain ⟨c, hc, hdigit⟩ := hoperation.exists_not_isDigit
    exact (hdigit (hbreaks c hc)).elim

theorem not_breaks_of_isOperation {characters : List Char} (hlength : characters.length = 6)
    (hoperation : IsOperation characters) (hdivisors : ¬['÷', '0'] <:+: characters)
    (fault : Malformed) : ¬fault.Breaks characters := by
  intro hbreaks
  obtain rfl := hbreaks.eq_of_isOperation hlength hoperation
  exact hdivisors hbreaks

theorem isFirst_missingOperation_iff (characters : List Char) :
    missingOperation.IsFirst characters ↔
      characters.length = 6 ∧ ∀ c ∈ characters, c.isDigit := by
  constructor
  · intro hfirst
    refine ⟨by_contra fun hlength => ?_, hfirst.breaks⟩
    exact hfirst.keeps (.wrongLength characters.length) (by simp [rank]) ⟨rfl, hlength⟩
  · rintro ⟨hlength, hdigits⟩
    have hnumeral : IsNumeral characters := ⟨List.ne_nil_of_length_eq_add_one hlength, hdigits⟩
    refine ⟨hdigits, fun fault hrank hbreaks => ?_⟩
    rcases hbreaks.eq_of_isExpression hlength (.numeral hnumeral) with rfl | rfl
    · have hsign := hdigits '÷' (List.IsInfix.subset hbreaks (by decide))
      contradiction
    · exact Nat.lt_irrefl _ hrank

theorem Keeps.succ {characters : List Char} {place : Nat} (hkeeps : Keeps characters place)
    (hplace : ∀ fault : Malformed, fault.rank = place → ¬fault.Breaks characters) :
    Keeps characters (place + 1) := by
  intro fault hrank
  rcases Nat.lt_succ_iff_lt_or_eq.mp hrank with hlt | heq
  · exact hkeeps fault hlt
  · exact hplace fault heq

end Malformed

end EquationPuzzle
