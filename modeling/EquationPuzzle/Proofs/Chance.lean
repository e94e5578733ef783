import EquationPuzzle.Chance
import Mathlib.Data.List.Forall2
import Mathlib.Tactic.Common

/-!
# What can be drawn

A draw answers what the next words of its source tell it to.  For every value in the range of a
choice there is a word on which the choice falls on it, and both sides of a coin have their words.
Draws that are made one after the other take their words one after the other.
-/

namespace EquationPuzzle

namespace WordSource

/-- The words that will be taken next. -/
def Next (source : WordSource) (words : List UInt32) : Prop :=
  ∀ index word, words[index]? = some word → source.word (source.taken + index) = word

def skip (source : WordSource) (count : Nat) : WordSource :=
  { source with taken := source.taken + count }

/-- A source that starts with the given words. -/
def ofWords (words : List UInt32) : WordSource where
  word index := words.getD index 0

theorem next_ofWords (words : List UInt32) : (ofWords words).Next words := by
  intro index word hword
  simp [ofWords, List.getD, hword]

section Next

variable {source : WordSource} {words more : List UInt32}

theorem Next.left (hnext : source.Next (words ++ more)) : source.Next words := by
  intro index word hword
  obtain ⟨hindex, _⟩ := List.getElem?_eq_some_iff.mp hword
  exact hnext index word (by rw [List.getElem?_append_left hindex, hword])

theorem Next.right (hnext : source.Next (words ++ more)) :
    (source.skip words.length).Next more := by
  intro index word hword
  have hbehind : (words ++ more)[words.length + index]? = some word := by
    rw [List.getElem?_append_right (Nat.le_add_right _ _), Nat.add_sub_cancel_left, hword]
  have hsource := hnext _ word hbehind
  rwa [← Nat.add_assoc] at hsource

theorem Next.append (hnext : source.Next words) (hmore : (source.skip words.length).Next more) :
    source.Next (words ++ more) := by
  intro index word hword
  by_cases hindex : index < words.length
  · rw [List.getElem?_append_left hindex] at hword
    exact hnext index word hword
  · obtain ⟨behind, rfl⟩ := Nat.exists_eq_add_of_le (Nat.le_of_not_lt hindex)
    rw [List.getElem?_append_right (Nat.le_add_right _ _), Nat.add_sub_cancel_left] at hword
    have hbehind := hmore behind word hword
    rwa [skip, Nat.add_assoc] at hbehind

theorem skip_skip (source : WordSource) (count more : Nat) :
    (source.skip count).skip more = source.skip (count + more) := by
  simp [skip, Nat.add_assoc]

end Next

end WordSource

namespace Draw

variable {α β : Type}

/-! ## What a draw may answer -/

/-- Whatever its source, the draw answers something of that kind. -/
def Always (draw : Draw α) (kind : α → Prop) : Prop :=
  ∀ source, kind (draw.run source).1

theorem Always.bind {draw : Draw α} {next : α → Draw β} {kind : α → Prop} {other : β → Prop}
    (hdraw : draw.Always kind) (hnext : ∀ answer, kind answer → (next answer).Always other) :
    Always (draw >>= next) other :=
  fun source => hnext _ (hdraw source) _

theorem always_mapM {draw : α → Draw β} {kind : α → β → Prop} (items : List α)
    (hdraw : ∀ item ∈ items, (draw item).Always (kind item)) :
    Always (items.mapM draw) (List.Forall₂ kind items) := by
  induction items with
  | nil => exact fun _ => .nil
  | cons item items ih =>
      rw [List.mapM_cons]
      refine (hdraw item (List.mem_cons_self ..)).bind fun first hfirst => ?_
      refine (ih fun item hitem => hdraw item (List.mem_cons_of_mem _ hitem)).bind ?_
      exact fun rest hrest _ => .cons hfirst hrest

/-! ## What a draw can answer -/

/-- On these words the draw answers so, and it takes no others. -/
def Answers (draw : Draw α) (words : List UInt32) (answer : α) : Prop :=
  ∀ source : WordSource, source.Next words → draw.run source = (answer, source.skip words.length)

/-- There are words on which the draw answers so. -/
def Reaches (draw : Draw α) (answer : α) : Prop :=
  ∃ words, draw.Answers words answer

theorem answers_pure (answer : α) : Answers (pure answer) [] answer :=
  fun _ _ => rfl

theorem Answers.bind {draw : Draw α} {next : α → Draw β} {words more : List UInt32} {answer : α}
    {last : β} (hdraw : draw.Answers words answer) (hnext : (next answer).Answers more last) :
    Answers (draw >>= next) (words ++ more) last := by
  intro source hsource
  have hrun : (draw >>= next).run source = (next (draw.run source).1).run (draw.run source).2 := rfl
  rw [hrun, hdraw source hsource.left, hnext _ hsource.right, WordSource.skip_skip,
    List.length_append]

theorem reaches_pure (answer : α) : Reaches (pure answer) answer :=
  ⟨[], answers_pure answer⟩

theorem Reaches.bind {draw : Draw α} {next : α → Draw β} {answer : α} {last : β}
    (hdraw : draw.Reaches answer) (hnext : (next answer).Reaches last) :
    Reaches (draw >>= next) last := by
  obtain ⟨words, hwords⟩ := hdraw
  obtain ⟨more, hmore⟩ := hnext
  exact ⟨words ++ more, hwords.bind hmore⟩

theorem answers_mapM_nil (draw : α → Draw β) : Answers ([].mapM draw) [] [] :=
  answers_pure []

theorem Answers.mapM_cons {draw : α → Draw β} {item : α} {items : List α}
    {words more : List UInt32} {answer : β} {answers : List β}
    (hfirst : (draw item).Answers words answer) (hrest : Answers (items.mapM draw) more answers) :
    Answers ((item :: items).mapM draw) (words ++ more) (answer :: answers) := by
  rw [List.mapM_cons, ← List.append_nil more]
  exact hfirst.bind (hrest.bind (answers_pure _))

theorem reaches_mapM {draw : α → Draw β} {items : List α} {answers : List β}
    (hdraw : List.Forall₂ (fun item answer => (draw item).Reaches answer) items answers) :
    Reaches (items.mapM draw) answers := by
  induction hdraw with
  | nil => exact ⟨[], answers_mapM_nil draw⟩
  | cons hfirst _ ih =>
      obtain ⟨words, hwords⟩ := hfirst
      obtain ⟨more, hmore⟩ := ih
      exact ⟨words ++ more, hwords.mapM_cons hmore⟩

theorem answers_word (drawn : UInt32) : word.Answers [drawn] drawn := by
  intro source hsource
  have hfirst : source.word source.taken = drawn := hsource 0 drawn rfl
  simp only [word, ← hfirst]
  rfl

/-- The first word whose product with the number of values is not below the value's share. -/
theorem exists_word_of_lt {value count : Nat} (hvalue : value < count)
    (hcount : 2 * count ≤ wordCount) :
    ∃ drawn : UInt32, drawn.toNat * count / wordCount = value ∧
      ¬wordCount < drawn.toNat * count % wordCount + count := by
  have hpositive : 0 < count := by omega
  have hshare := Nat.div_add_mod (value * wordCount + (count - 1)) count
  have hrest := Nat.mod_lt (value * wordCount + (count - 1)) hpositive
  have hproduct : (value + 1) * wordCount ≤ count * wordCount := Nat.mul_le_mul_right _ hvalue
  have hsize : (value * wordCount + (count - 1)) / count < wordCount := by
    rw [Nat.div_lt_iff_lt_mul hpositive, Nat.mul_comm wordCount]
    rw [Nat.add_mul] at hproduct
    omega
  refine ⟨UInt32.ofNat ((value * wordCount + (count - 1)) / count), ?_⟩
  rw [UInt32.toNat_ofNat_of_lt' hsize]
  generalize (value * wordCount + (count - 1)) / count = drawn at hshare
  have hdrawn : drawn * count = value * wordCount +
      (count - 1 - (value * wordCount + (count - 1)) % count) := by
    rw [Nat.mul_comm]
    omega
  generalize hslack : count - 1 - (value * wordCount + (count - 1)) % count = slack at hdrawn
  have hsmall : slack < wordCount := by omega
  rw [hdrawn, Nat.mul_comm value]
  constructor
  · rw [Nat.mul_add_div (by decide), Nat.div_eq_of_lt hsmall, Nat.add_zero]
  · rw [Nat.mul_add_mod, Nat.mod_eq_of_lt hsmall]
    omega

/-- Where a choice falls on a word that decides it. -/
theorem answers_below {count : Nat} (positive : 0 < count) {drawn : UInt32} {value : Fin count}
    (hvalue : drawn.toNat * count / wordCount = value)
    (hdecided : ¬wordCount < drawn.toNat * count % wordCount + count) :
    (below count positive).Answers [drawn] value := by
  apply (answers_word drawn).bind
  dsimp only
  rw [dif_neg hdecided]
  have hsame : (⟨drawn.toNat * count / wordCount, product_lt drawn.toNat_lt positive⟩ : Fin count) =
      value := Fin.ext hvalue
  rw [hsame]
  exact answers_pure value

/-- A choice can fall on each of its values. -/
theorem reaches_below {count : Nat} (hcount : 2 * count ≤ wordCount) (positive : 0 < count)
    (value : Fin count) : (below count positive).Reaches value := by
  obtain ⟨drawn, hvalue, hdecided⟩ := exists_word_of_lt value.isLt hcount
  exact ⟨[drawn], answers_below positive hvalue hdecided⟩

theorem reaches_coin (side : Bool) : coin.Reaches side := by
  cases side with
  | true => exact ⟨[0, 0], (answers_word 0).bind ((answers_word 0).bind (answers_pure true))⟩
  | false =>
      exact ⟨[0, 0x80000000],
        (answers_word 0).bind ((answers_word 0x80000000).bind (answers_pure false))⟩

/-! ## What a draw looks at -/

/-- The draw looks at no words but those that it takes. -/
def Frugal (draw : Draw α) : Prop :=
  ∀ source : WordSource, ∃ words, source.Next words ∧ draw.Answers words (draw.run source).1

theorem frugal_pure (answer : α) : Frugal (pure answer) := by
  intro source
  refine ⟨[], ?_, answers_pure answer⟩
  intro index word hword
  simp at hword

theorem Frugal.bind {draw : Draw α} {next : α → Draw β} (hdraw : draw.Frugal)
    (hnext : ∀ answer, (next answer).Frugal) : Frugal (draw >>= next) := by
  intro source
  rcases hdraw source with ⟨words, hwords, hanswer⟩
  rcases hnext (draw.run source).1 (source.skip words.length) with ⟨more, hmore, hlast⟩
  have hrun : ((draw >>= next).run source).1 =
      ((next (draw.run source).1).run (source.skip words.length)).1 := by
    change ((next (draw.run source).1).run (draw.run source).2).1 = _
    rw [hanswer source hwords]
  rw [hrun]
  exact ⟨words ++ more, hwords.append hmore, hanswer.bind hlast⟩

theorem frugal_mapM {draw : α → Draw β} (hdraw : ∀ item, (draw item).Frugal) (items : List α) :
    Frugal (items.mapM draw) := by
  induction items with
  | nil => exact frugal_pure []
  | cons item items ih =>
      rw [List.mapM_cons]
      apply (hdraw item).bind
      intro first
      exact ih.bind fun rest => frugal_pure (first :: rest)

theorem frugal_word : word.Frugal := by
  intro source
  refine ⟨[source.word source.taken], ?_, answers_word _⟩
  intro index drawn hdrawn
  cases index with
  | zero => simpa using hdrawn
  | succ index => simp at hdrawn

/-- A second word is looked at only where the first one leaves the choice open. -/
theorem frugal_below (count : Nat) (positive : 0 < count) : (below count positive).Frugal := by
  apply frugal_word.bind
  intro first
  dsimp only
  split
  · apply frugal_word.bind
    intro second
    split
    · exact frugal_pure _
    · exact frugal_pure _
  · exact frugal_pure _

theorem frugal_coin : coin.Frugal := by
  apply frugal_word.bind
  intro _
  exact frugal_word.bind fun second => frugal_pure _

end Draw

end EquationPuzzle
