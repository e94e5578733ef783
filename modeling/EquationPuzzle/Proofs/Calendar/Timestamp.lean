import EquationPuzzle.Calendar.Timestamp
import EquationPuzzle.Proofs.Calendar.Day

/-!
# Reading back timestamps

A timestamp is read back from its text, if its leap second, when it has one, ends a minute.  No
clock shows any other: universal time has leap seconds nowhere else, and a second that goes on for
longer within a minute is read as the next one.
-/

namespace EquationPuzzle

namespace Timestamp

/-- A leap second belongs to the last second of a minute. -/
def Proper (t : Timestamp) : Prop :=
  t.fraction < nanosecondsPerSecond ∨ t.second % 60 = 59

instance (t : Timestamp) : Decidable t.Proper :=
  inferInstanceAs (Decidable (_ ∨ _))

/-- The timestamp that a clock shows. -/
def shown (t : Timestamp) : Timestamp :=
  if hproper : t.Proper then t
  else {
    day := t.day
    second := t.second + 1
    fraction := t.fraction - nanosecondsPerSecond
    second_lt := by
      have hsecond := t.second_lt
      simp only [Proper, secondsPerDay] at hproper hsecond ⊢
      omega
    fraction_lt := (Nat.sub_le _ _).trans_lt t.fraction_lt }

theorem Proper.shown_eq {t : Timestamp} (hproper : t.Proper) : t.shown = t :=
  dif_pos hproper

theorem shown_eq_iff (t : Timestamp) : t.shown = t ↔ t.Proper := by
  refine ⟨fun hshown => ?_, Proper.shown_eq⟩
  by_contra hproper
  rw [shown, dif_neg hproper] at hshown
  exact Nat.succ_ne_self _ (congrArg second hshown)

/-! ## Fractions -/

theorem readFraction_padded {width value : Nat} (hwidth : 0 < width) (hlong : width ≤ 9)
    (hvalue : value < 10 ^ width) :
    readFraction ('.' :: ((Text.padded width value).toList ++ ['Z'])) =
      some (value * 10 ^ (9 - width), ['Z']) := by
  have hlength := Text.length_padded hwidth hvalue
  have hspan : Text.spanDigits ((Text.padded width value).toList ++ ['Z']) =
      ((Text.padded width value).toList, ['Z']) := by
    have hdigits : ∀ c ∈ (Text.padded width value).toList, c.isDigit :=
      fun _ hc => Text.isDigit_of_mem_padded hc
    simp [Text.spanDigits, List.takeWhile_append_of_pos hdigits,
      List.dropWhile_append_of_pos hdigits, Char.isDigit]
  have hkept : (Text.padded width value).toList.take 9 = (Text.padded width value).toList :=
    List.take_of_length_le (by omega)
  have hne : (Text.padded width value).toList.isEmpty = false := by
    simpa using Text.padded_ne_nil width value
  simp only [readFraction, hspan, hne, hkept, Text.naturalOfDigits_padded, hlength,
    Bool.false_eq_true, if_false]
  rfl

theorem readFraction_fractionText {fraction : Nat} (hfraction : fraction < nanosecondsPerSecond) :
    readFraction ((fractionText fraction).toList ++ ['Z']) = some (fraction, ['Z']) := by
  have hbound : fraction < 1000000000 := hfraction
  unfold fractionText
  split
  next hzero => simp [readFraction, hzero]
  next =>
    split
    next hmillis =>
      have hread := readFraction_padded (show 0 < 3 by decide) (by decide)
        (show fraction / 1000000 < 10 ^ 3 by omega)
      have hvalue : fraction / 1000000 * 10 ^ (9 - 3) = fraction := by omega
      rw [hvalue] at hread
      simpa using hread
    next =>
      split
      next hmicros =>
        have hread := readFraction_padded (show 0 < 6 by decide) (by decide)
          (show fraction / 1000 < 10 ^ 6 by omega)
        have hvalue : fraction / 1000 * 10 ^ (9 - 6) = fraction := by omega
        rw [hvalue] at hread
        simpa using hread
      next =>
        have hread := readFraction_padded (show 0 < 9 by decide) (by decide)
          (show fraction < 10 ^ 9 by omega)
        simpa using hread

/-! ## Timestamps -/

theorem toList_text (t : Timestamp) :
    t.text.toList = t.day.text.toList ++ 'T' :: ((Text.padded 2 (t.second / 3600)).toList ++
      ':' :: ((Text.padded 2 (t.second / 60 % 60)).toList ++
      ':' :: ((Text.padded 2 (t.second % 60 + t.fraction / nanosecondsPerSecond)).toList ++
      ((fractionText (t.fraction % nanosecondsPerSecond)).toList ++ ['Z'])))) := by
  simp [text]

theorem clock?_eq_shown (t : Timestamp) :
    clock? (t.second / 3600) (t.second / 60 % 60)
        (t.second % 60 + t.fraction / nanosecondsPerSecond)
        (t.fraction % nanosecondsPerSecond) = some (t.shown.second, t.shown.fraction) := by
  have hsecond : t.second < 86400 := t.second_lt
  have hfraction : t.fraction < 2 * nanosecondsPerSecond := t.fraction_lt
  by_cases hproper : t.Proper
  · rw [hproper.shown_eq]
    simp only [Proper, nanosecondsPerSecond] at hfraction hproper ⊢
    rw [clock?, if_pos (by omega)]
    split
    next hleap => simp only [nanosecondsPerSecond, Option.some.injEq, Prod.mk.injEq]; omega
    next hplain => simp only [Option.some.injEq, Prod.mk.injEq]; omega
  · rw [shown, dif_neg hproper]
    simp only [Proper, nanosecondsPerSecond] at hfraction hproper ⊢
    rw [clock?, if_pos (by omega), if_neg (by omega)]
    simp only [Option.some.injEq, Prod.mk.injEq]
    omega

theorem ofLocal?_zero (t : Timestamp) : ofLocal? t.day t.second t.fraction 0 = some t := by
  have hday : (t.second : Int) < secondsPerDay := Int.ofNat_lt.mpr t.second_lt
  unfold ofLocal?
  simp only [Int.sub_zero, Int.toNat_natCast]
  rw [if_neg (by omega), if_pos hday, ofParts?, dif_pos ⟨t.second_lt, t.fraction_lt⟩]

theorem ofText?_text (t : Timestamp) : ofText? t.text = some t.shown := by
  have hsecond : t.second < 86400 := t.second_lt
  have hfraction : t.fraction < 2 * nanosecondsPerSecond := t.fraction_lt
  have hread := readFraction_fractionText
    (Nat.mod_lt t.fraction (show 0 < nanosecondsPerSecond by decide))
  have hshown : t.second % 60 + t.fraction / nanosecondsPerSecond < 100 := by
    simp only [nanosecondsPerSecond] at hfraction ⊢
    omega
  have hcolon : Text.isBlank ':' = false := by decide
  have hoffset : readOffset (Text.skipBlanks ['Z']) = some (0, []) := by
    rw [Text.skipBlanks_cons (by decide)]
    rfl
  have hend : (Text.skipBlanks []).isEmpty := by decide
  rw [ofText?, toList_text]
  simp only [Day.read_text_append, Option.bind_eq_bind, Option.bind_some, Day.readMark_cons hcolon,
    Day.readPart_padded (show t.second / 3600 < 100 by omega),
    Day.readPart_padded (show t.second / 60 % 60 < 100 by omega), Day.readPart_padded hshown,
    hread, true_or, if_true, hoffset, hend, Bool.not_true, Bool.false_eq_true, if_false]
  have hday : t.shown.day = t.day := by
    unfold shown
    split <;> rfl
  rw [clock?_eq_shown, Option.bind_some, ← hday]
  exact ofLocal?_zero t.shown

end Timestamp

end EquationPuzzle
