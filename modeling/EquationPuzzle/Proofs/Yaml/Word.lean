import EquationPuzzle.Yaml.Scalar
import Mathlib.Tactic.Common

/-!
# Words

A word is a text that YAML reads as itself without quotes: it has no blanks and no line breaks, a
colon in it is followed by more of it, and it starts with none of the marks of the language.  This
file shows that a plain scalar is read off a word up to the colon or the line break behind it.
-/

namespace EquationPuzzle.Yaml

/-- Whether a character is neither a blank nor a line break. -/
def isSolid (c : Char) : Bool :=
  !isSpaceOrTab c && !isBreak c

/-- Whether the characters have no blank, and none of them is a colon that ends a word. -/
def isRun : List Char → Bool
  | [] => true
  | c :: rest => isSolid c && (c != ':' || rest.head?.any isSolid) && isRun rest

def opensWord (c : Char) : Bool :=
  c.isAlphanum || c = '_' || c = '+'

def isWord (characters : List Char) : Bool :=
  isRun characters && characters.all isPrintable &&
    match characters with
    | [] => false
    | c :: rest => opensWord c || (c = '-' && !rest.isEmpty)

theorem isRun_append {front back : List Char} (hfront : isRun front) (hback : isRun back) :
    isRun (front ++ back) := by
  induction front with
  | nil => exact hback
  | cons c front ih =>
      simp only [isRun, Bool.and_eq_true, Bool.or_eq_true] at hfront
      simp only [List.cons_append, isRun, Bool.and_eq_true, Bool.or_eq_true]
      refine ⟨⟨hfront.1.1, hfront.1.2.imp_right fun hnext => ?_⟩, ih hfront.2⟩
      cases front with
      | nil => simp at hnext
      | cons next front => exact hnext

theorem isRun_of_forall {characters : List Char}
    (hall : ∀ c ∈ characters, isSolid c ∧ c ≠ ':') : isRun characters := by
  induction characters with
  | nil => rfl
  | cons c rest ih =>
      obtain ⟨hsolid, hcolon⟩ := hall c (by simp)
      simp [isRun, hsolid, hcolon, ih fun d hd => hall d (by simp [hd])]

theorem isRun_colon {c : Char} {rest : List Char} (hsolid : isSolid c) (hrun : isRun (c :: rest)) :
    isRun (':' :: c :: rest) := by
  have hcolon : isSolid ':' := by decide
  rw [isRun, hcolon, hrun]
  simp [hsolid]

/-- Whether a character may stand anywhere in a word but perhaps at its start. -/
def isPlain (c : Char) : Bool :=
  isSolid c && c != ':' && isPrintable c

theorem isRun_of_isPlain {characters : List Char} (hall : ∀ c ∈ characters, isPlain c) :
    isRun characters := by
  apply isRun_of_forall
  intro c hc
  have hplain := hall c hc
  simp only [isPlain, Bool.and_eq_true, bne_iff_ne] at hplain
  exact hplain.1

theorem isPrintable_of_isPlain {characters : List Char} (hall : ∀ c ∈ characters, isPlain c) :
    characters.all isPrintable := by
  rw [List.all_eq_true]
  intro c hc
  have hplain := hall c hc
  simp only [isPlain, Bool.and_eq_true] at hplain
  exact hplain.2

theorem isPlain_of_isDigit {c : Char} (hdigit : c.isDigit) : isPlain c := by
  have hne : ∀ other : Char, other.isDigit = false → c ≠ other := by
    rintro other hother rfl
    simp [hother] at hdigit
  simp only [Char.isDigit, Bool.and_eq_true, decide_eq_true_eq] at hdigit
  have hbounds : 48 ≤ c.toNat ∧ c.toNat ≤ 57 := hdigit
  have hprintable : isPrintable c := by
    simp only [isPrintable, Bool.or_eq_true, Bool.and_eq_true, decide_eq_true_eq]
    omega
  simp [isPlain, isSolid, isSpaceOrTab, isBreak, hprintable, hne]

theorem opensWord_of_isDigit {c : Char} (hdigit : c.isDigit) : opensWord c := by
  simp [opensWord, Char.isAlphanum, hdigit]

theorem isWord_of_isPlain {c : Char} {rest : List Char}
    (hopens : opensWord c ∨ c = '-' ∧ rest ≠ []) (hall : ∀ d ∈ c :: rest, isPlain d) :
    isWord (c :: rest) := by
  simp only [isWord, isRun_of_isPlain hall, isPrintable_of_isPlain hall, Bool.true_and]
  simpa using hopens

theorem isWord_append {front back : List Char} (hfront : isWord front) (hrun : isRun back)
    (hprintable : back.all isPrintable) : isWord (front ++ back) := by
  cases front with
  | nil => simp [isWord] at hfront
  | cons c front =>
      simp only [isWord, Bool.and_eq_true] at hfront
      simp only [List.cons_append, isWord, Bool.and_eq_true]
      refine ⟨⟨isRun_append hfront.1.1 hrun, ?_⟩, ?_⟩
      · rw [← List.cons_append, List.all_append, hfront.1.2, hprintable]
        rfl
      · have hopens := hfront.2
        simp only [Bool.or_eq_true, Bool.and_eq_true] at hopens ⊢
        refine hopens.imp_right fun hhyphen => ⟨hhyphen.1, ?_⟩
        cases front with
        | nil => simp at hhyphen
        | cons => rfl

theorem endsWord_of_solid {c : Char} (hsolid : isSolid c) (rest : List Char)
    (index line column : Nat) : Cursor.endsWord ⟨c :: rest, index, line, column⟩ 0 = false := by
  simp only [isSolid, Bool.and_eq_true, Bool.not_eq_true'] at hsolid
  simp [Cursor.endsWord, hsolid]

theorem exists_cons_of_isWord {word : List Char} (hword : isWord word) :
    ∃ c rest, word = c :: rest ∧ (opensWord c ∨ c = '-' ∧ rest ≠ []) := by
  cases word with
  | nil => simp [isWord] at hword
  | cons c rest =>
      refine ⟨c, rest, rfl, ?_⟩
      simp only [isWord, Bool.and_eq_true] at hword
      simpa using hword.2

theorem isRun_of_isWord {word : List Char} (hword : isWord word) : isRun word := by
  simp only [isWord, Bool.and_eq_true] at hword
  exact hword.1.1

theorem ne_nil_of_isWord {word : List Char} (hword : isWord word) : word ≠ [] := by
  obtain ⟨c, rest, rfl, _⟩ := exists_cons_of_isWord hword
  exact List.cons_ne_nil c rest

namespace Plain

theorem endsAt_of_solid {c : Char} {rest : List Char} (hsolid : isSolid c)
    (hcolon : c = ':' → rest.head?.any isSolid) (index line column : Nat) :
    endsAt false ⟨c :: rest, index, line, column⟩ = false := by
  have hword := endsWord_of_solid hsolid rest index line column
  by_cases hc : c = ':'
  · have hnext := hcolon hc
    cases rest with
    | nil => simp at hnext
    | cons next rest =>
        have hfollowed : Cursor.endsWord ⟨c :: next :: rest, index, line, column⟩ 1 = false :=
          endsWord_of_solid hnext rest index line column
        simp [endsAt, hword, hfollowed]
  · simp [endsAt, hword, Cursor.sees, hc]

theorem readRun_append {characters stop : List Char} (hrun : isRun characters)
    (hstop : endsAt false { rest := stop }) (run : List Char) {fuel : Nat}
    (hfuel : characters.length < fuel) (index line column : Nat) :
    readRun false run fuel ⟨characters ++ stop, index, line, column⟩ =
      some (run.reverse ++ characters,
        ⟨stop, index + characters.length, line, column + characters.length⟩) := by
  obtain ⟨fuel, rfl⟩ : ∃ more, fuel = more + 1 := ⟨fuel - 1, by omega⟩
  induction characters generalizing run fuel index column with
  | nil =>
      have hends : endsAt false ⟨stop, index, line, column⟩ := hstop
      cases stop with
      | nil => simp [readRun, Cursor.peek?]
      | cons c stop => simp [readRun, Cursor.peek?, isStray, hends]
  | cons c characters ih =>
      obtain ⟨fuel, rfl⟩ : ∃ more, fuel = more + 1 := ⟨fuel - 1, by simp at hfuel; omega⟩
      simp only [isRun, Bool.and_eq_true, Bool.or_eq_true] at hrun
      obtain ⟨⟨hsolid, hcolon⟩, hrun⟩ := hrun
      have hcontinues : endsAt false ⟨c :: (characters ++ stop), index, line, column⟩ = false := by
        refine endsAt_of_solid hsolid (fun hc => ?_) _ _ _
        have hnext := hcolon.resolve_left (by simp [hc])
        cases characters with
        | nil => simp at hnext
        | cons next characters => exact hnext
      have hnext := ih hrun (c :: run) (index + 1) (column + 1) fuel (by simp at hfuel; omega)
      rw [readRun]
      simp only [Cursor.peek?, List.cons_append, List.head?_cons, endsWord_of_solid hsolid,
        isStray, hcontinues, Cursor.skip, List.tail_cons, Bool.false_and, Bool.false_eq_true,
        if_false, hnext]
      simp
      omega

/-- The line break behind a word, up to a next line that is not indented. -/
theorem read_gap {rest : List Char} (hnext : rest.head?.all isSolid)
    (indent index line column : Nat) {fuel : Nat} (hfuel : 1 < fuel) :
    Gap.read indent {} fuel ⟨'\n' :: rest, index, line, column⟩ =
      some (⟨[], true, ['\n'], []⟩, ⟨rest, index + 1, line + 1, 0⟩) := by
  obtain ⟨fuel, rfl⟩ : ∃ more, fuel = more + 2 := ⟨fuel - 2, by omega⟩
  have hbreak : isSpaceOrTab '\n' = false ∧ isBreak '\n' := by decide
  cases rest with
  | nil =>
      simp [Gap.read, Cursor.peek?, hbreak, Cursor.breakText, Cursor.skipBreak]
  | cons c rest =>
      have hsolid : isSpaceOrTab c = false ∧ isBreak c = false := by
        simpa [isSolid] using hnext
      simp [Gap.read, Cursor.peek?, hbreak, hsolid, Cursor.breakText, Cursor.skipBreak]

section Read

variable {word rest : List Char} (hword : isWord word) {index line column : Nat}

include hword

theorem sees_hash_eq_false (stop : List Char) :
    Cursor.sees ⟨word ++ stop, index, line, column⟩ '#' 0 = false := by
  obtain ⟨c, others, rfl, hopens⟩ := exists_cons_of_isWord hword
  have hne : c ≠ '#' := by
    rintro rfl
    rcases hopens with hopens | ⟨hopens, _⟩ <;> exact absurd hopens (by decide)
  simpa [Cursor.sees] using hne

/-- A word before a colon that ends it is a plain text by itself. -/
theorem read_name (indent fuel : Nat)
    (hmark : Cursor.atDocumentMark ⟨word ++ ':' :: ' ' :: rest, index, line, column⟩ = false) :
    Plain.read false indent [] {} (fuel + 1) ⟨word ++ ':' :: ' ' :: rest, index, line, column⟩ =
      some ⟨word, true, false, ⟨':' :: ' ' :: rest, index + word.length, line,
        column + word.length⟩⟩ := by
  have hstop : endsAt false { rest := ':' :: ' ' :: rest } := rfl
  have hfuel : word.length < (word ++ ':' :: ' ' :: rest).length + 1 := by
    rw [List.length_append]
    omega
  have hread := readRun_append (isRun_of_isWord hword) hstop [] hfuel index line column
  rw [Plain.read]
  simp only [hmark, sees_hash_eq_false hword, hread]
  simp [Gap.folded, Cursor.holds, ne_nil_of_isWord hword, isSpaceOrTab, isBreak]

/-- A word at the end of a line is a plain text by itself, if the next line is not indented. -/
theorem read_line (hnext : rest.head?.all isSolid) (fuel : Nat)
    (hmark : Cursor.atDocumentMark ⟨word ++ '\n' :: rest, index, line, column⟩ = false) :
    Plain.read false 1 [] {} (fuel + 1) ⟨word ++ '\n' :: rest, index, line, column⟩ =
      some ⟨word, true, true, ⟨rest, index + word.length + 1, line + 1, 0⟩⟩ := by
  have hstop : endsAt false { rest := '\n' :: rest } := rfl
  have hfuel : word.length < (word ++ '\n' :: rest).length + 1 := by
    rw [List.length_append]
    omega
  have hread := readRun_append (isRun_of_isWord hword) hstop [] hfuel index line column
  have hgap := read_gap hnext 1 (index + word.length) line (column + word.length)
    (show 1 < rest.length + 1 + 1 by omega)
  rw [Plain.read]
  simp only [hmark, sees_hash_eq_false hword, hread]
  simp [Gap.folded, Cursor.holds, ne_nil_of_isWord hword, isSpaceOrTab, isBreak, hgap]

end Read

end Plain

end EquationPuzzle.Yaml
