import EquationPuzzle.Entry
import EquationPuzzle.Proofs.Calendar.Timestamp
import EquationPuzzle.Proofs.Equation
import EquationPuzzle.Proofs.Text.Identifier
import EquationPuzzle.Proofs.Yaml.Datum

/-!
# Values of records are words

What an entry writes of itself are words, and apart from the target number and the mark of use they
are read as texts.
-/

namespace EquationPuzzle

open Yaml

/-! ## Numbers -/

theorem isPlain_of_mem_padded {width value : Nat} {c : Char}
    (hc : c ∈ (Text.padded width value).toList) : isPlain c :=
  isPlain_of_isDigit (Text.isDigit_of_mem_padded hc)

theorem isWord_number (value : Nat) : isWord (toString value).toList := by
  have hdigits : ∀ c ∈ Nat.toDigits 10 value, c.isDigit := by
    intro c hc
    obtain ⟨digit, hdigit, rfl⟩ := Text.mem_toDigits (by decide) hc
    simpa using hdigit
  have htext : (toString value).toList = Nat.toDigits 10 value := by simp
  rw [htext]
  cases hvalue : Nat.toDigits 10 value with
  | nil => simp at hvalue
  | cons c rest =>
      rw [hvalue] at hdigits
      exact isWord_of_isPlain (Or.inl (opensWord_of_isDigit (hdigits c (by simp))))
        fun d hd => isPlain_of_isDigit (hdigits d hd)

/-! ## Texts -/

/-- A word that is read as a text. -/
structure Yaml.IsText (text : String) : Prop where
  isWord : isWord text.toList
  datum?_eq : Core.datum? text = some (.text text)

theorem Yaml.IsText.ne_empty {text : String} (htext : IsText text) : text ≠ "" := by
  rintro rfl
  exact Yaml.ne_nil_of_isWord htext.isWord rfl

theorem Difficulty.isText_name (difficulty : Difficulty) : IsText difficulty.name := by
  cases difficulty <;> exact ⟨by decide, rfl⟩

theorem Identifier.isText_text (identifier : Identifier) : IsText identifier.text := by
  obtain ⟨a, b, c, d, e, hparts, ha, -, -, -, -, htext⟩ := identifier.exists_toList_text
  have hdigits : ∀ part ∈ identifier.parts, ∀ c ∈ part, isPlain c ∧ opensWord c := by
    intro part hpart c hc
    obtain ⟨digit, hdigit, rfl⟩ := mem_digits (mem_digits_of_mem_parts hpart hc)
    have hall : ∀ digit < 16, isPlain (Nat.digitChar digit) ∧ opensWord (Nat.digitChar digit) := by
      decide
    exact hall digit hdigit
  have hhyphen : isPlain '-' := by decide
  rw [hparts] at hdigits
  simp only [List.forall_mem_cons] at hdigits
  obtain ⟨hfirst, hb, hc, hd, he, -⟩ := hdigits
  cases a with
  | nil => contradiction
  | cons first a =>
      refine ⟨?_, Core.datum?_of_hyphens ?_⟩
      · rw [htext]
        refine isWord_of_isPlain (Or.inl (hfirst first (by simp)).2) ?_
        simp only [List.forall_mem_cons, List.forall_mem_append, List.append_eq] at hfirst ⊢
        simp only [hhyphen, hfirst.1.1, true_and]
        exact ⟨⟨⟨⟨fun c hmem => (hfirst.2 c hmem).1, fun c hmem => (hb c hmem).1⟩,
          fun c hmem => (hc c hmem).1⟩, fun c hmem => (hd c hmem).1⟩, fun c hmem => (he c hmem).1⟩
      · rw [htext]
        simp
        omega

theorem Equation.isText_text (equation : Equation) : IsText equation.text := by
  obtain ⟨digit, rest, operator, htext, hdigit, hall, hmem, hoperator⟩ :=
    equation.exists_toList_text
  refine ⟨?_, Core.datum?_of_operator htext hdigit hall hmem hoperator⟩
  rw [htext]
  refine isWord_of_isPlain (Or.inl (opensWord_of_isDigit hdigit)) fun c hc => ?_
  have hoperators : ∀ c ∈ Operator.characters, isPlain c :=
    List.all_eq_true.mp (show Operator.characters.all isPlain by decide)
  rcases List.mem_cons.mp hc with rfl | hc
  · exact isPlain_of_isDigit hdigit
  · exact (hall c hc).elim isPlain_of_isDigit (hoperators c)

/-! ## Days and timestamps -/

namespace Day

theorem exists_yearText (year : Int) : ∃ sign value,
    (yearText year).toList = sign ++ (Text.padded 4 value).toList ∧
      (sign = [] ∨ sign = ['-'] ∨ sign = ['+']) := by
  unfold yearText
  split
  · exact ⟨[], year.toNat, (List.nil_append _).symm, by simp⟩
  · split
    · exact ⟨['-'], year.natAbs, by simp, by simp⟩
    · exact ⟨['+'], year.natAbs, by simp, by simp⟩

theorem count_hyphen_text (d : Day) : 2 ≤ d.text.toList.tail.count '-' := by
  obtain ⟨sign, value, hyear, -⟩ := exists_yearText d.year
  have hne : sign ++ (Text.padded 4 value).toList ≠ [] := by
    simpa using fun _ => Text.padded_ne_nil 4 value
  rw [toList_text, hyear, List.append_assoc (sign ++ _), List.tail_append_of_ne_nil hne]
  simp
  omega

theorem isText_text (d : Day) : IsText d.text := by
  refine ⟨?_, Core.datum?_of_hyphens d.count_hyphen_text⟩
  obtain ⟨sign, value, hyear, hsign⟩ := exists_yearText d.year
  have hmarks : isPlain '-' ∧ isPlain '+' := by decide
  have hplain : ∀ c ∈ sign ++ (Text.padded 4 value).toList ++
      '-' :: (Text.padded 2 d.month).toList ++ '-' :: (Text.padded 2 d.day).toList,
      isPlain c := by
    simp only [List.forall_mem_cons, List.forall_mem_append]
    refine ⟨⟨⟨?_, fun c => isPlain_of_mem_padded⟩, hmarks.1,
      fun c => isPlain_of_mem_padded⟩, hmarks.1, fun c => isPlain_of_mem_padded⟩
    rcases hsign with rfl | rfl | rfl <;> simp [hmarks]
  rw [toList_text, hyear]
  rcases hsign with rfl | rfl | rfl
  · cases hdigits : (Text.padded 4 value).toList with
    | nil => exact absurd hdigits (Text.padded_ne_nil 4 value)
    | cons first digits =>
        have hfirst : first.isDigit :=
          Text.isDigit_of_mem_padded (by rw [hdigits]; exact List.mem_cons_self ..)
        rw [hdigits] at hplain
        exact isWord_of_isPlain (Or.inl (opensWord_of_isDigit hfirst)) hplain
  · exact isWord_of_isPlain (Or.inr ⟨rfl, by simp⟩) hplain
  · exact isWord_of_isPlain (Or.inl (by decide)) hplain

end Day

namespace Timestamp

theorem isPlain_of_mem_fractionText {fraction : Nat} {c : Char}
    (hc : c ∈ (fractionText fraction).toList) : isPlain c := by
  have hpoint : isPlain '.' := by decide
  have hpadded : ∀ width value, ∀ c ∈ ("." ++ Text.padded width value).toList, isPlain c := by
    intro width value c hc
    rw [String.toList_append, List.mem_append] at hc
    rcases hc with hc | hc
    · rw [List.mem_singleton.mp hc]
      exact hpoint
    · exact isPlain_of_mem_padded hc
  unfold fractionText at hc
  split at hc
  · simp at hc
  · split at hc
    · exact hpadded _ _ c hc
    · split at hc <;> exact hpadded _ _ c hc

theorem isRun_part (value : Nat) {rest : List Char} (hrest : isRun rest) :
    isRun (':' :: ((Text.padded 2 value).toList ++ rest)) := by
  have hplain : ∀ c ∈ (Text.padded 2 value).toList, isPlain c := fun _ => isPlain_of_mem_padded
  have hrun := isRun_append (isRun_of_isPlain hplain) hrest
  cases hdigits : (Text.padded 2 value).toList with
  | nil => exact absurd hdigits (Text.padded_ne_nil 2 value)
  | cons c digits =>
      have hsolid : isSolid c := by
        have hc := hplain c (by simp [hdigits])
        simp only [isPlain, Bool.and_eq_true] at hc
        exact hc.1.1
      rw [hdigits] at hrun
      exact isRun_colon hsolid hrun

theorem isText_text (t : Timestamp) : IsText t.text := by
  have hmarks : isPlain 'T' ∧ isPlain 'Z' := by decide
  have hcolon : isPrintable ':' := by decide
  have hend : ∀ c ∈ (fractionText (t.fraction % nanosecondsPerSecond)).toList ++ ['Z'],
      isPlain c := by
    intro c hc
    rcases List.mem_append.mp hc with hc | hc
    · exact isPlain_of_mem_fractionText hc
    · rw [List.mem_singleton.mp hc]
      exact hmarks.2
  have hpadded : ∀ width value, (Text.padded width value).toList.all isPrintable :=
    fun width value => isPrintable_of_isPlain fun _ => isPlain_of_mem_padded
  constructor
  · rw [toList_text]
    refine isWord_append t.day.isText_text.isWord ?_ ?_
    · have hhour : isRun ('T' :: (Text.padded 2 (t.second / 3600)).toList) := by
        apply isRun_of_isPlain
        rw [List.forall_mem_cons]
        exact ⟨hmarks.1, fun _ => isPlain_of_mem_padded⟩
      have hclock := isRun_append hhour (isRun_part (t.second / 60 % 60)
        (isRun_part (t.second % 60 + t.fraction / nanosecondsPerSecond) (isRun_of_isPlain hend)))
      rwa [List.cons_append] at hclock
    · have hletter : isPrintable 'T' := by decide
      have hlast := isPrintable_of_isPlain hend
      rw [List.all_cons, List.all_append, List.all_cons, List.all_append, List.all_cons,
        List.all_append, hlast, hletter, hcolon, hpadded, hpadded, hpadded]
      rfl
  · apply Core.datum?_of_hyphens
    have hday := t.day.count_hyphen_text
    have hne : t.day.text.toList ≠ [] := by
      intro hnil
      simp [hnil] at hday
    rw [toList_text, List.tail_append_of_ne_nil hne, List.count_append]
    exact hday.trans (Nat.le_add_right _ _)

end Timestamp

end EquationPuzzle
