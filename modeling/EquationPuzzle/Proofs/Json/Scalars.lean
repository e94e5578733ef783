import EquationPuzzle.Json.Reader
import EquationPuzzle.Proofs.Text.Numeral

/-!
# Reading back scalars

Strings, whole numbers and words are read back from their written form, and the reader stops behind
it.  A string ends with its quote, so anything may follow it; behind a number there must be an end
or one of the marks that separate values.
-/

namespace EquationPuzzle

namespace Json

/-! ## Strings -/

theorem hexadecimalUnit?_control {code : Nat} (hcode : code < 32) (rest : List Char) :
    hexadecimalUnit?
        ('0' :: '0' :: Nat.digitChar (code / 16) :: Nat.digitChar (code % 16) :: rest) =
      some (code, rest) := by
  have hall : ∀ code < 32,
      Text.natural? 16 ['0', '0', Nat.digitChar (code / 16), Nat.digitChar (code % 16)] =
        some code := by decide
  rw [hexadecimalUnit?, hall code hcode]
  rfl

section Strings

variable (characters : List Char) (fuel : Nat) (rest : List Char)

theorem readString_control {code : Nat} (hcode : code < 32) :
    readString characters true (fuel + 1)
        ('\\' :: 'u' :: '0' :: '0' :: Nat.digitChar (code / 16) :: Nat.digitChar (code % 16) ::
          rest) =
      readString (Char.ofNat code :: characters) true fuel rest := by
  have hhigh : ¬(0xD800 ≤ code ∧ code ≤ 0xDBFF) := by omega
  have hlow : ¬(0xDC00 ≤ code ∧ code ≤ 0xDFFF) := by omega
  rw [readString, hexadecimalUnit?_control hcode]
  simp only [if_neg hhigh, if_neg hlow]

theorem readString_plain {c : Char} (hquote : c ≠ '"') (hslash : c ≠ '\\') (hplain : 32 ≤ c.toNat) :
    readString characters true (fuel + 1) (c :: rest) =
      readString (c :: characters) true fuel rest := by
  have hkept : ¬(c = '\\' ∨ c.toNat < 32) := by
    rintro (hsame | hcontrol)
    · exact hslash hsame
    · omega
  rw [readString]
  · rw [if_neg hkept]
  · exact hquote
  · exact fun other hsame _ => hslash hsame
  · exact fun other more hsame _ => hslash hsame

theorem readString_escapeChar (c : Char) :
    readString characters true (fuel + 1) (escapeChar c ++ rest) =
      readString (c :: characters) true fuel rest := by
  unfold escapeChar
  split
  all_goals try rfl
  -- The character has no escape of its own.
  rename_i hquote hslash _ _ _ _ _
  split
  · next hcontrol =>
    have hread := readString_control characters fuel rest hcontrol
    rwa [Char.ofNat_toNat] at hread
  · next hplain => exact readString_plain characters fuel rest hquote hslash (by omega)

/-- A text between quotes is read back, whatever its characters. -/
theorem readString_flatMap (text : List Char) (hfuel : text.length < fuel) :
    readString characters true fuel (text.flatMap escapeChar ++ '"' :: rest) =
      some (.string (String.ofList (characters.reverse ++ text)), rest) := by
  induction text generalizing characters fuel with
  | nil =>
      rcases Nat.exists_eq_add_of_lt hfuel with ⟨more, rfl⟩
      rw [List.append_nil]
      rfl
  | cons c text ih =>
      rcases Nat.exists_eq_add_of_lt hfuel with ⟨more, rfl⟩
      rw [List.flatMap_cons, List.append_assoc, readString_escapeChar, ih, List.reverse_cons,
        List.append_assoc]
      · rfl
      · rw [List.length_cons]
        omega

end Strings

theorem escapeChar_ne_nil (c : Char) : escapeChar c ≠ [] := by
  unfold escapeChar
  split
  all_goals try exact List.cons_ne_nil _ _
  split
  · exact List.cons_ne_nil _ _
  · exact List.cons_ne_nil _ _

theorem length_le_flatMap_escapeChar (text : List Char) :
    text.length ≤ (text.flatMap escapeChar).length := by
  induction text with
  | nil => exact Nat.le_refl 0
  | cons c text ih =>
      have hpositive := List.length_pos_iff.mpr (escapeChar_ne_nil c)
      rw [List.flatMap_cons, List.length_append, List.length_cons]
      omega

theorem readToken_quoted (text : String) (rest : List Char) :
    readToken ((quoted text).toList ++ rest) = some (.scalar (.string text), rest) := by
  have hlength := length_le_flatMap_escapeChar text.toList
  have hread := readString_flatMap [] ((text.toList.flatMap escapeChar ++ '"' :: rest).length + 1)
    rest text.toList (by rw [List.length_append]; omega)
  have hspelled : (quoted text).toList ++ rest =
      '"' :: (text.toList.flatMap escapeChar ++ '"' :: rest) := by
    simp [quoted]
  rw [hspelled, readToken, hread]
  simp

/-! ## Numbers -/

/-- The end, or a mark that separates values. -/
def Stops (rest : List Char) : Prop :=
  ∀ c ∈ rest.head?, c ∈ [',', ':', ']', '\x7d']

theorem Stops.head_cases {c : Char} {rest : List Char} (hstops : Stops (c :: rest)) :
    c = ',' ∨ c = ':' ∨ c = ']' ∨ c = '\x7d' := by
  simpa using hstops c rfl

theorem Stops.not_isDigit {c : Char} {rest : List Char} (hstops : Stops (c :: rest)) :
    c.isDigit = false := by
  rcases hstops.head_cases with rfl | rfl | rfl | rfl <;> rfl

theorem readFraction_of_stops {rest : List Char} (hstops : Stops rest) :
    readFraction rest = some ([], rest) := by
  cases rest with
  | nil => rfl
  | cons c rest => rcases hstops.head_cases with rfl | rfl | rfl | rfl <;> rfl

theorem readExponent_of_stops {rest : List Char} (hstops : Stops rest) :
    readExponent rest = some (none, rest) := by
  cases rest with
  | nil => rfl
  | cons c rest => rcases hstops.head_cases with rfl | rfl | rfl | rfl <;> rfl

theorem takeWhile_toDigits_append (number : Nat) {rest : List Char} (hstops : Stops rest) :
    (Nat.toDigits 10 number ++ rest).takeWhile Char.isDigit = Nat.toDigits 10 number ∧
      (Nat.toDigits 10 number ++ rest).dropWhile Char.isDigit = rest := by
  have hdigits : ∀ c ∈ Nat.toDigits 10 number, c.isDigit := fun _ => Text.isDigit_of_mem_toDigits
  rw [List.takeWhile_append_of_pos hdigits, List.dropWhile_append_of_pos hdigits]
  cases rest with
  | nil => simp
  | cons c rest =>
      rw [List.takeWhile_cons_of_neg (by simp [hstops.not_isDigit]),
        List.dropWhile_cons_of_neg (by simp [hstops.not_isDigit]), List.append_nil]
      exact ⟨rfl, rfl⟩

theorem length_toDigits_of_head? (number : Nat)
    (hzero : (Nat.toDigits 10 number).head? = some '0') : (Nat.toDigits 10 number).length = 1 := by
  rcases Nat.eq_zero_or_pos number with hnumber | hpositive
  · rw [hnumber]
    rfl
  · exact absurd hzero (Text.head?_toDigits hpositive)

/-- A whole number is read back behind its sign.  Only zero starts with a zero. -/
theorem readNumeral_toDigits (negative : Bool) {number : Nat} {rest : List Char}
    (hnumber : negative = true → 0 < number) (hstops : Stops rest) :
    readNumeral negative (Nat.toDigits 10 number ++ rest) =
      some (.integer (if negative then -number else number), rest) := by
  rcases takeWhile_toDigits_append number hstops with ⟨htaken, hdropped⟩
  have hpadded : 1 < (Nat.toDigits 10 number).length →
      (Nat.toDigits 10 number).head? ≠ some '0' := by
    intro hlength hzero
    have hone := length_toDigits_of_head? number hzero
    omega
  have hvalue : Text.naturalOfDigits (Nat.toDigits 10 number) = number :=
    Text.naturalOfDigits_zeroPadded 0 number
  have hsigned : negative = true → number ≠ 0 := fun hnegative => (hnumber hnegative).ne'
  unfold readNumeral
  rw [htaken, hdropped, readFraction_of_stops hstops]
  simpa [hvalue, readExponent_of_stops hstops] using And.intro hpadded hsigned

theorem readToken_negative {number : Nat} (hnumber : 0 < number) {rest : List Char}
    (hstops : Stops rest) :
    readToken ('-' :: (Nat.toDigits 10 number ++ rest)) =
      some (.scalar (.integer (-number)), rest) := by
  rw [readToken, readNumeral_toDigits true (fun _ => hnumber) hstops]
  rfl

theorem readToken_of_isDigit {c : Char} (hdigit : c.isDigit) (rest : List Char) :
    readToken (c :: rest) = (readNumeral false (c :: rest)).map fun read =>
      (.scalar read.1, read.2) := by
  have hmarks : ∀ mark : Char, mark.isDigit = false → c ≠ mark := fun _ =>
    Text.ne_of_class hdigit
  rw [readToken]
  · rw [if_pos hdigit]
    cases readNumeral false (c :: rest) <;> rfl
  all_goals exact hmarks _ rfl

theorem readToken_toDigits (number : Nat) {rest : List Char} (hstops : Stops rest) :
    readToken (Nat.toDigits 10 number ++ rest) = some (.scalar (.integer number), rest) := by
  have hread : readNumeral false (Nat.toDigits 10 number ++ rest) = some (.integer number, rest) :=
    readNumeral_toDigits false (fun hfalse => nomatch hfalse) hstops
  cases hdigits : Nat.toDigits 10 number with
  | nil => exact absurd hdigits Nat.toDigits_ne_nil
  | cons c digits =>
      have hdigit : c.isDigit := Text.isDigit_of_mem_toDigits (hdigits ▸ List.mem_cons_self ..)
      rw [hdigits] at hread
      rw [List.cons_append] at hread ⊢
      rw [readToken_of_isDigit hdigit, hread]
      rfl

theorem readToken_integer (value : Int) {rest : List Char} (hstops : Stops rest) :
    readToken ((toString value).toList ++ rest) = some (.scalar (.integer value), rest) := by
  cases value with
  | ofNat number =>
      have hspelled : (toString (Int.ofNat number)).toList = Nat.toDigits 10 number := by
        change (Nat.repr number).toList = _
        simp
      rw [hspelled]
      exact readToken_toDigits number hstops
  | negSucc number =>
      have hspelled : (toString (Int.negSucc number)).toList =
          '-' :: Nat.toDigits 10 (number + 1) := by
        change ("-" ++ Nat.repr (number + 1)).toList = _
        simp
      rw [hspelled]
      exact readToken_negative (Nat.succ_pos number) hstops

/-! ## Scalars -/

inductive Scalar : Json → Prop
  | null : Scalar .null
  | bool (value : Bool) : Scalar (.bool value)
  | integer (value : Int) : Scalar (.integer value)
  | string (text : String) : Scalar (.string text)

theorem Scalar.readToken_eq {value : Json} (hscalar : Scalar value) {rest : List Char}
    (hstops : Stops rest) :
    readToken (value.compact.toList ++ rest) = some (.scalar value, rest) := by
  cases hscalar with
  | null => rfl
  | bool value => cases value <;> rfl
  | integer value => exact readToken_integer value hstops
  | string text => exact readToken_quoted text rest

theorem Scalar.compact_ne_nil {value : Json} (hscalar : Scalar value) :
    value.compact.toList ≠ [] := by
  intro hnil
  have hread := hscalar.readToken_eq (show Stops [] by simp [Stops])
  rw [hnil] at hread
  contradiction

end Json

end EquationPuzzle
