import EquationPuzzle.Text.Blank
import Mathlib.Data.List.TakeWhile

/-!
# Texts without the blanks around them

Trimming takes away the longest row of blanks at either end of a text.  What is kept is told by what
stands around it and by its own ends, which are no blanks.
-/

namespace EquationPuzzle.Text

/-- Blanks only stand around what is kept, and what is kept has none at its ends. -/
structure Trimmed (characters kept : List Char) : Prop where
  around : ∃ front back, characters = front ++ kept ++ back ∧
    (∀ c ∈ front, isBlank c) ∧ ∀ c ∈ back, isBlank c
  head : ∀ c ∈ kept.head?, isBlank c = false
  last : ∀ c ∈ kept.getLast?, isBlank c = false

theorem skipBlanks_append_of_blank {front : List Char} (hfront : ∀ c ∈ front, isBlank c)
    (rest : List Char) : skipBlanks (front ++ rest) = skipBlanks rest :=
  List.dropWhile_append_of_pos hfront

theorem skipBlanks_eq_self {characters : List Char}
    (hhead : ∀ c ∈ characters.head?, isBlank c = false) : skipBlanks characters = characters := by
  cases characters with
  | nil => rfl
  | cons c rest => simp [skipBlanks, hhead c (by simp)]

theorem not_isBlank_head_skipBlanks (characters : List Char) :
    ∀ c ∈ (skipBlanks characters).head?, isBlank c = false := by
  intro c hc
  have hnot := List.head?_dropWhile_not isBlank characters
  rw [Option.mem_def] at hc
  unfold skipBlanks at hc
  rw [hc] at hnot
  exact hnot

theorem skipBlanks_map {change : Char → Char} (hchange : ∀ c, isBlank (change c) = isBlank c)
    (characters : List Char) :
    skipBlanks (characters.map change) = (skipBlanks characters).map change := by
  unfold skipBlanks
  rw [List.dropWhile_map]
  congr 2
  funext c
  exact hchange c

theorem toList_trim (text : String) :
    (trim text).toList = (skipBlanks (skipBlanks text.toList).reverse).reverse := by
  rw [trim, String.toList_ofList]

theorem trimmed_trim (text : String) : Trimmed text.toList (trim text).toList := by
  rw [toList_trim]
  generalize hmiddle : skipBlanks text.toList = middle
  have hfront : text.toList.takeWhile isBlank ++ middle = text.toList := by
    rw [← hmiddle]
    exact List.takeWhile_append_dropWhile
  have hback : (skipBlanks middle.reverse).reverse ++ (middle.reverse.takeWhile isBlank).reverse =
      middle := by
    rw [← List.reverse_append]
    unfold skipBlanks
    rw [List.takeWhile_append_dropWhile, List.reverse_reverse]
  constructor
  · refine ⟨text.toList.takeWhile isBlank, (middle.reverse.takeWhile isBlank).reverse, ?_, ?_, ?_⟩
    · rw [List.append_assoc, hback, hfront]
    · intro c hc
      exact List.mem_takeWhile_imp hc
    · intro c hc
      exact List.mem_takeWhile_imp (List.mem_reverse.mp hc)
  · intro c hc
    have hhead := not_isBlank_head_skipBlanks text.toList
    rw [hmiddle, ← hback, List.head?_append] at hhead
    apply hhead
    rw [hc]
    rfl
  · rw [List.getLast?_reverse]
    exact not_isBlank_head_skipBlanks middle.reverse

theorem Trimmed.trim_eq {text : String} {kept : List Char} (htrimmed : Trimmed text.toList kept) :
    (trim text).toList = kept := by
  rcases htrimmed.around with ⟨front, back, htext, hfront, hback⟩
  rw [toList_trim, htext, List.append_assoc, skipBlanks_append_of_blank hfront]
  have hbehind : ∀ c ∈ back.reverse, isBlank c := fun c hc => hback c (List.mem_reverse.mp hc)
  cases kept with
  | nil =>
      have hnone : skipBlanks back = [] := List.dropWhile_eq_nil_iff.mpr hback
      rw [List.nil_append, hnone]
      rfl
  | cons c rest =>
      have hhead : skipBlanks (c :: rest ++ back) = c :: rest ++ back :=
        skipBlanks_eq_self htrimmed.head
      have hlast : ∀ c' ∈ (c :: rest).reverse.head?, isBlank c' = false := by
        rw [List.head?_reverse]
        exact htrimmed.last
      rw [hhead, List.reverse_append, skipBlanks_append_of_blank hbehind,
        skipBlanks_eq_self hlast, List.reverse_reverse]

theorem toList_trim_eq_iff {text : String} {kept : List Char} :
    (trim text).toList = kept ↔ Trimmed text.toList kept := by
  constructor
  · rintro rfl
    exact trimmed_trim text
  · exact Trimmed.trim_eq

theorem trim_trim (text : String) : trim (trim text) = trim text := by
  have htrimmed := trimmed_trim text
  apply String.toList_inj.mp
  apply Trimmed.trim_eq
  exact ⟨⟨[], [], by simp⟩, htrimmed.head, htrimmed.last⟩

/-- A change of characters that neither makes nor removes blanks may as well be made first. -/
theorem trim_map {change : Char → Char} (hchange : ∀ c, isBlank (change c) = isBlank c)
    (text : String) :
    trim (String.ofList (text.toList.map change)) =
      String.ofList ((trim text).toList.map change) := by
  rw [trim, toList_trim, String.toList_ofList, skipBlanks_map hchange, ← List.map_reverse,
    skipBlanks_map hchange, ← List.map_reverse]

end EquationPuzzle.Text
