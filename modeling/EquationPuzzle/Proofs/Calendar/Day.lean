import EquationPuzzle.Calendar.Day
import EquationPuzzle.Proofs.Text.Numeral
import Mathlib.Tactic.ByContra

/-!
# Reading back days

A day is read back from its text, whatever stands behind it.
-/

namespace EquationPuzzle

namespace Text

theorem isBlank_eq_false_of_isDigit {c : Char} (hdigit : c.isDigit) : isBlank c = false := by
  simp only [Char.isDigit, Bool.and_eq_true, decide_eq_true_eq] at hdigit
  have hlower : 48 ≤ c.toNat := hdigit.1
  have hupper : c.toNat ≤ 57 := hdigit.2
  simp only [isBlank, blankRanges, List.any_cons, List.any_nil, Bool.or_eq_false_iff,
    Bool.and_eq_false_iff, decide_eq_false_iff_not, and_true]
  omega

theorem skipBlanks_cons {c : Char} (hblank : isBlank c = false) (rest : List Char) :
    skipBlanks (c :: rest) = c :: rest := by
  simp [skipBlanks, hblank]

theorem skipBlanks_append {characters : List Char} (hne : characters ≠ [])
    (hdigits : ∀ c ∈ characters, c.isDigit) (rest : List Char) :
    skipBlanks (characters ++ rest) = characters ++ rest := by
  cases characters with
  | nil => contradiction
  | cons c others =>
      exact skipBlanks_cons (isBlank_eq_false_of_isDigit (hdigits c (by simp))) _

theorem padded_ne_nil (width value : Nat) : (padded width value).toList ≠ [] := by
  rw [toList_padded]
  exact zeroPadded_ne_nil _ _ _

end Text

namespace Day

theorem toList_text (d : Day) :
    d.text.toList = (yearText d.year).toList ++ '-' :: (Text.padded 2 d.month).toList ++
      '-' :: (Text.padded 2 d.day).toList := by
  simp [text]

theorem readMark_cons {mark : Char} (hblank : Text.isBlank mark = false) (rest : List Char) :
    readMark mark (mark :: rest) = some rest := by
  simp [readMark, Text.skipBlanks_cons hblank]

theorem readPart_padded {value : Nat} (hvalue : value < 100) (rest : List Char) :
    readPart ((Text.padded 2 value).toList ++ rest) = some (value, rest) := by
  have hlength := Text.length_padded (show 0 < 2 by decide) (show value < 10 ^ 2 by omega)
  rw [readPart, Text.skipBlanks_append (Text.padded_ne_nil _ _)
    fun _ hc => Text.isDigit_of_mem_padded hc]
  exact Text.readNatural_padded hlength.le (Or.inl hlength)

theorem readNatural_signed (value : Nat) (rest : List Char) :
    Text.readNatural ((Text.padded 4 value).toList ++ '-' :: rest).length
      ((Text.padded 4 value).toList ++ '-' :: rest) = some (value, '-' :: rest) := by
  apply Text.readNatural_padded
  · simp
  · right
    simp [Char.isDigit]

theorem readYear_yearText (year : Int) (rest : List Char) :
    readYear ((yearText year).toList ++ '-' :: rest) = some (year, '-' :: rest) := by
  unfold yearText
  split
  next hshort =>
    have hbound : year.toNat < 10 ^ 4 := by omega
    have hlength := Text.length_padded (show 0 < 4 by decide) hbound
    have hread : Text.readNatural 4 ((Text.padded 4 year.toNat).toList ++ '-' :: rest) =
        some (year.toNat, '-' :: rest) :=
      Text.readNatural_padded hlength.le (Or.inl hlength)
    unfold readYear
    rw [Text.skipBlanks_append (Text.padded_ne_nil _ _)
      fun _ hc => Text.isDigit_of_mem_padded hc]
    have hfirst : ∀ c rest', (Text.padded 4 year.toNat).toList ++ '-' :: rest = c :: rest' →
        c.isDigit := by
      intro c rest' heq
      cases hdigits : (Text.padded 4 year.toNat).toList with
      | nil => exact absurd hdigits (Text.padded_ne_nil _ _)
      | cons first others =>
          rw [hdigits] at heq
          obtain rfl := (List.cons.inj heq).1
          exact Text.isDigit_of_mem_padded (by rw [hdigits]; exact List.mem_cons_self ..)
    split
    · next heq => exact absurd (hfirst _ _ heq) (by decide)
    · next heq => exact absurd (hfirst _ _ heq) (by decide)
    · have hvalue : (year.toNat : Int) = year := Int.toNat_of_nonneg hshort.1
      rw [hread]
      simp [-Int.ofNat_toNat, hvalue]
  next hlong =>
    have hread := readNatural_signed year.natAbs rest
    by_cases hnegative : year < 0
    · have hblank : Text.isBlank '-' = false := by decide
      have hvalue : -(year.natAbs : Int) = year := by omega
      simp only [if_pos hnegative, readYear, String.toList_append, String.reduceToList,
        List.cons_append, List.nil_append, Text.skipBlanks_cons hblank, hread,
        Option.bind_eq_bind, Option.bind_some, Option.pure_def, hvalue]
    · have hblank : Text.isBlank '+' = false := by decide
      have hvalue : (year.natAbs : Int) = year := by omega
      simp only [if_neg hnegative, readYear, String.toList_append, String.reduceToList,
        List.cons_append, List.nil_append, Text.skipBlanks_cons hblank, hread,
        Option.bind_eq_bind, Option.bind_some, Option.pure_def, hvalue]

/-- A day is read off the start of a text that begins with it. -/
theorem read_text_append (d : Day) (rest : List Char) :
    read (d.text.toList ++ rest) = some (d, rest) := by
  obtain ⟨_, _, _, hmonth, _, hday⟩ := d.valid
  have hdays : d.day < 100 := by
    have hmonthDays : daysInMonth d.year d.month ≤ 31 := by
      unfold daysInMonth
      split_ifs <;> omega
    omega
  have hhyphen : Text.isBlank '-' = false := by decide
  have hyear := readYear_yearText d.year
    ((Text.padded 2 d.month).toList ++ '-' :: ((Text.padded 2 d.day).toList ++ rest))
  have hparts : ofParts? d.year d.month d.day = some d := by
    rw [ofParts?, dif_pos d.valid]
  simp only [read, toList_text, List.append_assoc, List.cons_append, hyear, readMark_cons hhyphen,
    readPart_padded (show d.month < 100 by omega), readPart_padded hdays, hparts,
    Option.bind_eq_bind, Option.bind_some, Option.pure_def]

theorem ofText?_text (d : Day) : ofText? d.text = some d := by
  have hread := d.read_text_append []
  rw [List.append_nil] at hread
  rw [ofText?, hread]
  rfl

theorem text_injective : Function.Injective text := by
  intro a b heq
  have ha := a.ofText?_text
  rw [heq, b.ofText?_text] at ha
  exact (Option.some.inj ha).symm

end Day

end EquationPuzzle
