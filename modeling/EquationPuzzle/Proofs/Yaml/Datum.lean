import EquationPuzzle.Proofs.Text.Numeral
import EquationPuzzle.Proofs.Yaml.Entries
import EquationPuzzle.Yaml.Datum

/-!
# The data of plain texts

A plain text is a text as long as it cannot be taken for a null, a truth value or a number.  Two
hyphens behind its first character rule all of these out, since no number has more than one there;
so does an operator among digits.  Digits without a zero in front are the number they write.
-/

namespace EquationPuzzle.Yaml

namespace Core

/-- The characters behind a sign. -/
def unsigned : List Char → List Char
  | '-' :: rest => rest
  | '+' :: rest => rest
  | rest => rest

def isMark (c : Char) : Bool :=
  c.isDigit || c = '-'

/-- The texts that are read as something else and are no numbers. -/
def keywords : List String :=
  ["", "null", "Null", "NULL", "~", "true", "True", "TRUE", "false", "False", "FALSE",
    ".nan", ".NaN", ".NAN", ".inf", ".Inf", ".INF"]

theorem unsigned_cases (characters : List Char) :
    (∃ rest, characters = '-' :: rest ∧ unsigned characters = rest) ∨
      (∃ rest, characters = '+' :: rest ∧ unsigned characters = rest) ∨
      ((∀ rest, characters ≠ '-' :: rest) ∧ (∀ rest, characters ≠ '+' :: rest) ∧
        unsigned characters = characters) := by
  unfold unsigned
  split
  next rest => exact Or.inl ⟨rest, rfl, rfl⟩
  next rest => exact Or.inr (Or.inl ⟨rest, rfl, rfl⟩)
  next hminus hplus => exact Or.inr (Or.inr ⟨hminus, hplus, rfl⟩)

theorem unsigned_of_isDigit {c : Char} (hdigit : c.isDigit) (rest : List Char) :
    unsigned (c :: rest) = c :: rest := by
  unfold unsigned
  split
  next heq => simp [(List.cons.inj heq).1, Char.isDigit] at hdigit
  next heq => simp [(List.cons.inj heq).1, Char.isDigit] at hdigit
  next => rfl

theorem ne_of_mem_keywords {text : String} (hmark : (unsigned text.toList).any isMark)
    {word : String} (hword : word ∈ keywords) : text ≠ word := by
  rintro rfl
  have hall : ∀ word ∈ keywords, (unsigned word.toList).any isMark = false := by decide
  rw [hall text hword] at hmark
  contradiction

section Numbers

variable {text : String} (hmark : (unsigned text.toList).any isMark)

include hmark

/-- A text with a digit or a hyphen behind its sign is a number or nothing else than itself. -/
theorem datum?_of_any_isMark :
    datum? text = match (integer? text).bind integerDatum? with
      | some datum => datum
      | none => if !isPaddedText text && isReal text then some .real else some (.text text) := by
  have hne : ∀ word ∈ keywords, text ≠ word := fun word => ne_of_mem_keywords hmark
  simp only [keywords, List.forall_mem_cons] at hne
  have hempty : text.isEmpty = false := by simp [hne]
  have hnull : null? text = none := by simp [null?, hne]
  have hbool : bool? text = none := by simp [bool?, hne]
  rw [datum?, hempty, hnull, hbool]
  rfl

theorem isReal_eq_isFiniteReal : isReal text = isFiniteReal (unsigned text.toList) := by
  have hne : ∀ word ∈ keywords, text ≠ word := fun word => ne_of_mem_keywords hmark
  have hrest : ∀ rest, unsigned text.toList = rest →
      ∀ word ∈ [".inf", ".Inf", ".INF"], String.ofList rest ≠ word := by
    rintro rest hrest word hword rfl
    have hall : ∀ word ∈ [".inf", ".Inf", ".INF"], word.toList.any isMark = false := by decide
    have hnone := hall _ hword
    rw [String.toList_ofList, ← hrest, hmark] at hnone
    contradiction
  simp only [keywords, List.forall_mem_cons] at hne
  have hnan : [".nan", ".NaN", ".NAN"].contains text = false := by simp [hne]
  simp only [isReal, hnan, Bool.false_eq_true, if_false]
  rcases unsigned_cases text.toList with
    ⟨rest, htext, hunsigned⟩ | ⟨rest, htext, hunsigned⟩ | ⟨hminus, hplus, hunsigned⟩
  · have hwords := hrest rest hunsigned
    simp only [List.forall_mem_cons] at hwords
    rw [htext] at hunsigned ⊢
    simp [hwords, hunsigned]
  · have hwords := hrest rest hunsigned
    simp only [List.forall_mem_cons] at hwords
    rw [htext] at hunsigned ⊢
    simp [hwords, hunsigned]
  · simp [hunsigned, hne]

theorem datum?_eq_text (hmagnitude : magnitude? (unsigned text.toList) = none)
    (hreal : isFiniteReal (unsigned text.toList) = false) :
    datum? text = some (.text text) := by
  have hinteger : integer? text = none := by
    unfold integer?
    rcases unsigned_cases text.toList with
      ⟨rest, htext, hunsigned⟩ | ⟨rest, htext, hunsigned⟩ | ⟨hminus, hplus, hunsigned⟩
    · rw [hunsigned] at hmagnitude
      simp [htext, hmagnitude]
    · rw [hunsigned] at hmagnitude
      simp [htext, hmagnitude]
    · rw [hunsigned] at hmagnitude
      split <;> simp_all
  rw [datum?_of_any_isMark hmark, hinteger, isReal_eq_isFiniteReal hmark, hreal]
  simp

end Numbers

/-! ## Texts with hyphens -/

theorem not_digit?_hyphen (base : Nat) : Text.digit? base '-' = none := by
  simp [Text.digit?]

theorem natural?_eq_none_of_hyphen {base : Nat} {characters : List Char}
    (hmem : '-' ∈ characters) : Text.natural? base characters = none :=
  Text.natural?_eq_none hmem (not_digit?_hyphen base)

theorem magnitude?_eq_none_of_hyphen {characters : List Char} (hmem : '-' ∈ characters) :
    magnitude? characters = none := by
  unfold magnitude?
  split
  next rest => exact natural?_eq_none_of_hyphen (by simpa using hmem)
  next rest => exact natural?_eq_none_of_hyphen (by simpa using hmem)
  next rest => exact natural?_eq_none_of_hyphen (by simpa using hmem)
  next =>
    split
    · rfl
    · exact natural?_eq_none_of_hyphen hmem

theorem count_hyphen_takeWhile_isDigit (characters : List Char) :
    (characters.takeWhile Char.isDigit).count '-' = 0 := by
  rw [List.count_eq_zero]
  intro hmem
  exact absurd (List.mem_takeWhile_imp hmem) (by decide)

theorem count_hyphen_dropWhile_isDigit (characters : List Char) :
    (characters.dropWhile Char.isDigit).count '-' = characters.count '-' := by
  conv_rhs => rw [← List.takeWhile_append_dropWhile (p := Char.isDigit) (l := characters)]
  rw [List.count_append, count_hyphen_takeWhile_isDigit, Nat.zero_add]

/-- The digits behind a point, and what follows them. -/
def splitFraction : List Char → List Char × List Char
  | '.' :: rest => (rest.takeWhile Char.isDigit, rest.dropWhile Char.isDigit)
  | rest => ([], rest)

def exponent? : List Char → Option Int
  | [] => some 0
  | mark :: rest =>
    if mark = 'e' ∨ mark = 'E' then
      match rest with
      | '-' :: digits => (Text.natural? 10 digits).map fun value => -(value : Int)
      | '+' :: digits => (Text.natural? 10 digits).map Int.ofNat
      | digits => (Text.natural? 10 digits).map Int.ofNat
    else none

theorem isFiniteReal_eq (characters : List Char) :
    isFiniteReal characters =
      match Text.natural? 10 (characters.takeWhile Char.isDigit ++
          (splitFraction (characters.dropWhile Char.isDigit)).1),
        exponent? (splitFraction (characters.dropWhile Char.isDigit)).2 with
      | some significand, some exponent =>
        Binary64.isFiniteDecimal significand
          (exponent - (splitFraction (characters.dropWhile Char.isDigit)).1.length)
      | _, _ => false := by
  rfl

theorem isFiniteReal_eq_false {characters : List Char}
    (hexponent : exponent? (splitFraction (characters.dropWhile Char.isDigit)).2 = none) :
    isFiniteReal characters = false := by
  rw [isFiniteReal_eq, hexponent]
  split
  next heq => contradiction
  next => rfl

theorem exponent?_eq_none_of_hyphens {characters : List Char}
    (hcount : 2 ≤ characters.count '-') : exponent? characters = none := by
  cases characters with
  | nil => simp at hcount
  | cons mark rest =>
      have hrest : 0 < rest.count '-' := by
        rw [List.count_cons] at hcount
        split at hcount <;> omega
      simp only [exponent?, ite_eq_right_iff]
      intro hmark
      split
      next digits =>
        have hne : mark ≠ '-' := by rintro rfl; simp at hmark
        have hmem : '-' ∈ digits := by
          rw [List.count_cons_of_ne hne, List.count_cons_self] at hcount
          exact List.count_pos_iff.mp (by omega)
        rw [natural?_eq_none_of_hyphen hmem]
        rfl
      next digits =>
        rw [natural?_eq_none_of_hyphen (by simpa using hrest)]
        rfl
      next =>
        rw [natural?_eq_none_of_hyphen (List.count_pos_iff.mp hrest)]
        rfl

theorem isFiniteReal_eq_false_of_hyphens {characters : List Char}
    (hcount : 2 ≤ characters.count '-') : isFiniteReal characters = false := by
  apply isFiniteReal_eq_false
  apply exponent?_eq_none_of_hyphens
  rw [← count_hyphen_dropWhile_isDigit] at hcount
  unfold splitFraction
  split
  next rest heq =>
    rw [heq, List.count_cons_of_ne (by decide)] at hcount
    rwa [count_hyphen_dropWhile_isDigit]
  next => exact hcount

/-- Two hyphens behind the first character make a text of what could else be a number. -/
theorem datum?_of_hyphens {text : String} (hcount : 2 ≤ text.toList.tail.count '-') :
    datum? text = some (.text text) := by
  have hunsigned : 2 ≤ (unsigned text.toList).count '-' := by
    rcases unsigned_cases text.toList with
      ⟨rest, htext, hunsigned⟩ | ⟨rest, htext, hunsigned⟩ | ⟨_, _, hunsigned⟩
    · rw [htext] at hcount
      rwa [hunsigned]
    · rw [htext] at hcount
      rwa [hunsigned]
    · rw [hunsigned]
      exact hcount.trans ((List.tail_sublist _).count_le '-')
  have hmem : '-' ∈ unsigned text.toList := List.count_pos_iff.mp (by omega)
  refine datum?_eq_text ?_ (magnitude?_eq_none_of_hyphen hmem)
    (isFiniteReal_eq_false_of_hyphens hunsigned)
  exact List.any_eq_true.mpr ⟨'-', hmem, rfl⟩

/-! ## Texts with operators -/

theorem of_mem_operators {c : Char} (hc : c ∈ ['+', '-', '×', '÷']) :
    Text.digit? 10 c = none ∧ c ≠ '.' ∧ c ≠ 'e' ∧ c ≠ 'E' := by
  simp only [List.mem_cons, List.not_mem_nil, or_false] at hc
  rcases hc with rfl | rfl | rfl | rfl <;> decide

/-- An operator behind the digits at the start of a text keeps it from being a number. -/
theorem datum?_of_operator {text : String} {digit operator : Char} {rest : List Char}
    (htext : text.toList = digit :: rest) (hdigit : digit.isDigit)
    (hall : ∀ c ∈ rest, c.isDigit ∨ c ∈ ['+', '-', '×', '÷'])
    (hmem : operator ∈ rest) (hoperator : operator.isDigit = false) :
    datum? text = some (.text text) := by
  have hunsigned : unsigned text.toList = digit :: rest := by
    rw [htext, unsigned_of_isDigit hdigit]
  have hletters : ∀ letter, ¬(letter.isDigit ∨ letter ∈ ['+', '-', '×', '÷']) →
      ∀ others, rest ≠ letter :: others := by
    rintro letter hletter others rfl
    exact hletter (hall letter (List.mem_cons_self ..))
  have hoperators : ∀ c ∈ rest, c.isDigit = false → c ∈ ['+', '-', '×', '÷'] :=
    fun c hc hnot => (hall c hc).resolve_left (by simp [hnot])
  refine datum?_eq_text ?_ ?_ ?_
  · simp [hunsigned, isMark, hdigit]
  · have hnone := (of_mem_operators (hoperators operator hmem hoperator)).1
    rw [hunsigned]
    unfold magnitude?
    split
    next heq => exact absurd (List.cons.inj heq).2 (hletters 'x' (by decide) _)
    next heq => exact absurd (List.cons.inj heq).2 (hletters 'o' (by decide) _)
    next heq => exact absurd (List.cons.inj heq).2 (hletters 'b' (by decide) _)
    next =>
      split
      · rfl
      · exact Text.natural?_eq_none (List.mem_cons_of_mem _ hmem) hnone
  · apply isFiniteReal_eq_false
    rw [hunsigned, List.dropWhile_cons_of_pos hdigit]
    cases hdrop : rest.dropWhile Char.isDigit with
    | nil =>
        rw [List.dropWhile_eq_nil_iff] at hdrop
        simp [hdrop operator hmem] at hoperator
    | cons first others =>
        have hfirst : first ∈ ['+', '-', '×', '÷'] := by
          have hnot : first.isDigit = false := by
            simpa [hdrop] using List.head?_dropWhile_not Char.isDigit rest
          refine hoperators first ?_ hnot
          exact (List.dropWhile_sublist Char.isDigit).subset (by simp [hdrop])
        obtain ⟨-, hpoint, he, hE⟩ := of_mem_operators hfirst
        simp [splitFraction, exponent?, hpoint, he, hE]

/-! ## Numbers -/

theorem isPadded_toDigits (value : Nat) : isPadded (Nat.toDigits 10 value) = false := by
  by_cases hsmall : value < 10
  · simp [isPadded, Nat.toDigits_of_lt_base hsmall]
  · simp [isPadded, Text.head?_toDigits (show 0 < value by omega)]

theorem magnitude?_toDigits (value : Nat) :
    magnitude? (Nat.toDigits 10 value) = some value := by
  have hdigits : ∀ c ∈ Nat.toDigits 10 value, c.isDigit := fun _ => Text.isDigit_of_mem_toDigits
  have hread : Text.natural? 10 (Text.zeroPadded 10 0 value) = some value :=
    Text.natural?_zeroPadded (by decide) (by decide) 0 value
  unfold magnitude?
  split
  next heq => simp [heq, Char.isDigit] at hdigits
  next heq => simp [heq, Char.isDigit] at hdigits
  next heq => simp [heq, Char.isDigit] at hdigits
  next =>
    rw [isPadded_toDigits]
    exact hread

theorem datum?_number {value : Nat} (hvalue : value < UInt32.size) :
    datum? (toString value) = some (.integer value) := by
  have htext : (toString value).toList = Nat.toDigits 10 value := by
    simp
  obtain ⟨first, others, hdigits, hfirst⟩ : ∃ first others,
      Nat.toDigits 10 value = first :: others ∧ first.isDigit := by
    cases hdigits : Nat.toDigits 10 value with
    | nil => simp at hdigits
    | cons first others =>
        have hmem : first ∈ Nat.toDigits 10 value := by simp [hdigits]
        obtain ⟨digit, hdigit, heq⟩ := Text.mem_toDigits (by decide) hmem
        exact ⟨first, others, rfl, by simpa [heq] using hdigit⟩
  have hmark : (unsigned (toString value).toList).any isMark := by
    rw [htext, hdigits, unsigned_of_isDigit hfirst]
    simp [isMark, hfirst]
  have hmagnitude := magnitude?_toDigits value
  have hinteger : integer? (toString value) = some (value : Int) := by
    rw [hdigits] at hmagnitude
    unfold integer?
    rw [htext, hdigits]
    split
    next heq => simp [(List.cons.inj heq).1, Char.isDigit] at hfirst
    next heq => simp [(List.cons.inj heq).1, Char.isDigit] at hfirst
    next => simp [hmagnitude]
  rw [datum?_of_any_isMark hmark, hinteger]
  have hrange : Datum.integerMin ≤ (value : Int) ∧ (value : Int) ≤ Datum.integerMax := by
    have hsize : value < 4294967296 := hvalue
    simp only [Datum.integerMin, Datum.integerMax]
    omega
  simp [integerDatum?, hrange]

end Core

end EquationPuzzle.Yaml
