import EquationPuzzle.Proofs.Text.Numeral
import EquationPuzzle.Toml.Reader

/-!
# Written TOML values

Quoted texts, whole numbers and booleans are read up to the end of their line as what they were
written for.
-/

namespace EquationPuzzle.Toml

/-! ## Texts -/

/-- A character that stands for itself in a quoted text. -/
def isBasic (c : Char) : Bool :=
  isPlain c && c ≠ '"' && c ≠ '\\'

theorem readBasic_of_isBasic {characters : List Char} (hbasic : ∀ c ∈ characters, isBasic c)
    (rest : List Char) {fuel : Nat} (hfuel : characters.length < fuel) :
    readBasic fuel (characters ++ '"' :: rest) = some (characters, rest) := by
  induction characters generalizing fuel with
  | nil =>
      cases fuel with
      | zero => exact absurd hfuel (Nat.not_lt_zero _)
      | succ fuel => rw [List.nil_append, readBasic]
  | cons c characters ih =>
      cases fuel with
      | zero => contradiction
      | succ fuel =>
          have hc := hbasic c (by simp)
          simp only [isBasic, Bool.and_eq_true, decide_eq_true_eq] at hc
          have hrest := ih (fun d hd => hbasic d (List.mem_cons_of_mem c hd))
            (Nat.lt_of_succ_lt_succ hfuel)
          simp [readBasic, hc, hrest]

def quoted (characters : List Char) : List Char :=
  '"' :: characters ++ ['"']

theorem readText?_cons {c : Char} (hc : c ≠ '"') (rest : List Char) :
    readText? ('"' :: c :: rest) =
      (readBasic ((c :: rest).length + 1) (c :: rest)).map fun read =>
        (String.ofList read.1, read.2) := by
  rw [readText?, Option.map_eq_bind]
  · rfl
  · intro other heq
    exact hc (List.cons.inj heq).1

theorem readText?_quoted {characters : List Char} (hbasic : ∀ c ∈ characters, isBasic c)
    (rest : List Char) :
    readText? (quoted characters ++ '\n' :: rest) =
      some (String.ofList characters, '\n' :: rest) := by
  cases characters with
  | nil => rfl
  | cons c characters =>
      have hc : c ≠ '"' := by
        have hfirst := hbasic c (by simp)
        simp only [isBasic, Bool.and_eq_true, decide_eq_true_eq] at hfirst
        exact hfirst.1.2
      have hquoted : quoted (c :: characters) ++ '\n' :: rest =
          '"' :: c :: (characters ++ '"' :: '\n' :: rest) := by simp [quoted]
      have hlength : (c :: characters).length <
          (c :: (characters ++ '"' :: '\n' :: rest)).length + 1 := by
        simp only [List.length_cons, List.length_append]
        omega
      have hread := readBasic_of_isBasic hbasic ('\n' :: rest) hlength
      rw [List.cons_append] at hread
      rw [hquoted, readText?_cons hc, hread]
      rfl

/-! ## Numbers -/

theorem digits?_eq_self {p : Char → Bool} (hunderscore : p '_' = false) {characters : List Char}
    (hne : characters ≠ []) (hall : ∀ c ∈ characters, p c) :
    digits? p characters = some characters := by
  induction characters with
  | nil => contradiction
  | cons c rest ih =>
      have hc : p c := hall c (by simp)
      cases rest with
      | nil => simp [digits?, hc]
      | cons d rest =>
          have hd : d ≠ '_' := by
            rintro rfl
            have hnot := hall '_' (by simp)
            rw [hunderscore] at hnot
            contradiction
          have hrest := ih (by simp) fun e he => hall e (List.mem_cons_of_mem c he)
          simp [digits?, hd, hc, hrest]

theorem isDigitOf_of_mem_toDigits {value : Nat} {c : Char} (hmem : c ∈ Nat.toDigits 10 value) :
    isDigitOf 10 c := by
  obtain ⟨digit, hdigit, rfl⟩ := Text.mem_toDigits (by decide) hmem
  rw [isDigitOf, Text.digit?_digitChar hdigit (by decide)]
  rfl

theorem natural?_toDigits (value : Nat) : natural? 10 (Nat.toDigits 10 value) = some value := by
  have hdigits : digits? (isDigitOf 10) (Nat.toDigits 10 value) = some (Nat.toDigits 10 value) :=
    digits?_eq_self rfl Nat.toDigits_ne_nil fun _ => isDigitOf_of_mem_toDigits
  have hread := Text.natural?_zeroPadded (by decide : 1 < 10) (by decide) 0 value
  rw [natural?, hdigits]
  simpa [Text.zeroPadded] using hread

theorem decimal?_toDigits (value : Nat) : decimal? (Nat.toDigits 10 value) = some value := by
  have hzero : ¬((Nat.toDigits 10 value).length > 1 ∧
      (Nat.toDigits 10 value).head? = some '0') := by
    rintro ⟨hlong, hhead⟩
    cases value with
    | zero => simp at hlong
    | succ value => exact Text.head?_toDigits (Nat.succ_pos value) hhead
  rw [decimal?, if_neg hzero, natural?_toDigits]

theorem splitSign_of_isDigit {characters : List Char} (hdigits : ∀ c ∈ characters, c.isDigit) :
    splitSign characters = (none, characters) := by
  unfold splitSign
  split
  next => simp [Char.isDigit] at hdigits
  next => simp [Char.isDigit] at hdigits
  next => rfl

/-- No sign and no mark of another base stands in front of decimal digits. -/
theorem integer?_of_isDigit {characters : List Char} (hdigits : ∀ c ∈ characters, c.isDigit) :
    integer? characters = (decimal? characters).map Int.ofNat := by
  unfold integer?
  split
  next => simp [Char.isDigit] at hdigits
  next => simp [Char.isDigit] at hdigits
  next => simp [Char.isDigit] at hdigits
  next =>
    rw [splitSign_of_isDigit hdigits]
    dsimp only
    cases decimal? characters with
    | none => rfl
    | some value => rfl

theorem scalar?_toDigits {value : Nat} (hvalue : (value : Int) ≤ Datum.integerMax) :
    scalar? (Nat.toDigits 10 value) = some (.integer value) := by
  have hdigits : ∀ c ∈ Nat.toDigits 10 value, c.isDigit := fun _ => Text.isDigit_of_mem_toDigits
  have hword : ∀ word : List Char, word.all Char.isDigit = false →
      Nat.toDigits 10 value ≠ word := by
    rintro word hword rfl
    rw [List.all_eq_true.mpr hdigits] at hword
    contradiction
  have hinteger : integer? (Nat.toDigits 10 value) = some (value : Int) := by
    rw [integer?_of_isDigit hdigits, decimal?_toDigits]
    rfl
  have hrange : Datum.integerMin ≤ (value : Int) ∧ (value : Int) ≤ Datum.integerMax := by
    refine ⟨?_, hvalue⟩
    unfold Datum.integerMin
    omega
  rw [scalar?, if_neg (hword _ rfl), if_neg (hword _ rfl), hinteger]
  exact if_pos hrange

/-! ## Values in a line -/

theorem readValue_cons {c : Char} (hlist : c ≠ '[') (hmap : c ≠ '\x7b') (rest : List Char)
    (fuel : Nat) :
    readValue (fuel + 1) (c :: rest) =
      (readText? (c :: rest)).elim (readScalar (c :: rest)) fun read =>
        some (.text read.1, read.2) := by
  rw [readValue]
  · cases readText? (c :: rest) with
    | none => rfl
    | some read => rfl
  · simpa using hlist
  · simpa using hmap

theorem readText?_eq_none {c : Char} (hdouble : c ≠ '"') (hsingle : c ≠ '\'')
    (rest : List Char) : readText? (c :: rest) = none := by
  simp [readText?, hdouble, hsingle]

/-- A value that is read as a datum up to the end of its line. -/
structure IsValue (written : List Char) (datum : Datum) : Prop where
  opens : written.head?.any (!isSpace ·)
  reads : ∀ fuel rest,
    readValue (fuel + 1) (written ++ '\n' :: rest) = some (datum, '\n' :: rest)

theorem isValue_quoted {characters : List Char} (hbasic : ∀ c ∈ characters, isBasic c) :
    IsValue (quoted characters) (.text (String.ofList characters)) := by
  constructor
  · rfl
  · intro fuel rest
    have hread := readText?_quoted hbasic rest
    rw [quoted, List.cons_append, List.cons_append] at hread ⊢
    rw [readValue_cons (by decide) (by decide), hread]
    rfl

theorem readScalar_word {word : List Char} (hword : ∀ c ∈ word, isScalarCharacter c)
    (rest : List Char) :
    readScalar (word ++ '\n' :: rest) = (scalar? word).map fun datum => (datum, '\n' :: rest) := by
  have hstop : isScalarCharacter '\n' = false := rfl
  rw [readScalar, List.takeWhile_append_of_pos hword, List.dropWhile_append_of_pos hword,
    Option.map_eq_bind]
  simp only [hstop, List.takeWhile_cons, List.dropWhile_cons, Bool.false_eq_true, if_false,
    List.append_nil]
  -- Only behind a date may a value go on, and then only behind a space.
  cases readDate word with
  | none => rfl
  | some after =>
      cases after with
      | nil => rfl
      | cons c after => rfl

/-- A word of letters and digits stands for the datum of an unquoted value. -/
theorem isValue_word {word : List Char} {datum : Datum} (hne : word ≠ [])
    (hword : ∀ c ∈ word, c.isAlphanum) (hdatum : scalar? word = some datum) :
    IsValue word datum := by
  obtain ⟨c, characters, rfl⟩ := List.exists_cons_of_ne_nil hne
  have hfirst : ∀ mark : Char, mark.isAlphanum = false → c ≠ mark := fun _ =>
    Text.ne_of_class (hword c (by simp))
  constructor
  · simp [isSpace, hfirst]
  · intro fuel rest
    have hscalar : ∀ d ∈ c :: characters, isScalarCharacter d := by
      intro d hd
      simp [isScalarCharacter, hword d hd]
    have hread := readScalar_word hscalar rest
    rw [List.cons_append] at hread ⊢
    rw [readValue_cons (hfirst _ rfl) (hfirst _ rfl),
      readText?_eq_none (hfirst _ rfl) (hfirst _ rfl), hread, hdatum]
    rfl

theorem isValue_toDigits {value : Nat} (hvalue : (value : Int) ≤ Datum.integerMax) :
    IsValue (Nat.toDigits 10 value) (.integer value) := by
  apply isValue_word Nat.toDigits_ne_nil _ (scalar?_toDigits hvalue)
  intro c hc
  have hdigit : c.isDigit := Text.isDigit_of_mem_toDigits hc
  simp [Char.isAlphanum, hdigit]

theorem isValue_bool (value : Bool) :
    IsValue (if value then "true" else "false").toList (.bool value) := by
  have hall : ∀ word ∈ ["true", "false"], word.toList.all Char.isAlphanum := by decide
  cases value with
  | true => exact isValue_word (by decide) (List.all_eq_true.mp (hall "true" (by simp))) rfl
  | false => exact isValue_word (by decide) (List.all_eq_true.mp (hall "false" (by simp))) rfl

end EquationPuzzle.Toml
