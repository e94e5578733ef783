import EquationPuzzle.Proofs.Toml.Values

/-!
# Lines of a TOML document

A text of lines that have a bare key, an equals sign and a value each is read as a table that gives
each key the datum of its line.  A key may be given on one line only.
-/

namespace EquationPuzzle.Toml

structure IsBareKey (key : List Char) : Prop where
  ne_nil : key ≠ []
  isKeyCharacter : ∀ c ∈ key, isKeyCharacter c

structure Line where
  key : String
  written : List Char
  datum : Datum

structure IsLine (line : Line) : Prop where
  isBareKey : IsBareKey line.key.toList
  isValue : IsValue line.written line.datum

def Line.statement (line : Line) : Statement :=
  .assign [line.key] line.datum

def lineText (line : Line) : List Char :=
  line.key.toList ++ ' ' :: '=' :: ' ' :: (line.written ++ ['\n'])

/-! ## Keys -/

section Keys

variable {c : Char} (hc : isKeyCharacter c)

include hc

theorem skipSpaces_of_isKeyCharacter (rest : List Char) :
    skipSpaces (c :: rest) = c :: rest := by
  have hspace : isSpace c = false := by
    simp (disch := decide) [isSpace, Text.ne_of_class hc]
  simp [skipSpaces, hspace]

/-- Nothing is skipped in front of a key. -/
theorem skipLines_of_isKeyCharacter (rest : List Char) (fuel : Nat) :
    skipLines fuel (c :: rest) = c :: rest := by
  have hmark : c ≠ '#' := Text.ne_of_class hc rfl
  have hreturn : c ≠ '\r' := Text.ne_of_class hc rfl
  have hfeed : c ≠ '\n' := Text.ne_of_class hc rfl
  have hcomment : skipComment (c :: rest) = c :: rest := by simp [skipComment, hmark]
  have hbreak : readBreak? (c :: rest) = none := by simp [readBreak?, hreturn, hfeed]
  cases fuel with
  | zero => rfl
  | succ fuel =>
      rw [skipLines, skipSpaces_of_isKeyCharacter hc, hcomment]
      simp only [hbreak]

end Keys

theorem readKeyPart_bare {key : List Char} (hkey : IsBareKey key) (rest : List Char) :
    readKeyPart (key ++ ' ' :: rest) = some (String.ofList key, ' ' :: rest) := by
  rcases hkey with ⟨hne, hkey⟩
  have hstop : isKeyCharacter ' ' = false := rfl
  have htaken : (key ++ ' ' :: rest).takeWhile isKeyCharacter = key := by
    simp [List.takeWhile_append_of_pos hkey, hstop]
  have hdropped : (key ++ ' ' :: rest).dropWhile isKeyCharacter = ' ' :: rest := by
    simp [List.dropWhile_append_of_pos hkey, hstop]
  cases key with
  | nil => contradiction
  | cons c key =>
      have hc : isKeyCharacter c := hkey c (by simp)
      rw [List.cons_append] at htaken hdropped ⊢
      rw [readKeyPart]
      · rw [htaken, hdropped]
        rfl
      · intro other heq
        exact Text.ne_of_class hc rfl (List.cons.inj heq).1
      · intro other heq
        exact Text.ne_of_class hc rfl (List.cons.inj heq).1

theorem readPath_bare {key : List Char} (hkey : IsBareKey key) (rest : List Char) (fuel : Nat) :
    readPath (fuel + 1) (key ++ ' ' :: '=' :: rest) = some ([String.ofList key], '=' :: rest) := by
  have hpart := readKeyPart_bare hkey ('=' :: rest)
  rcases hkey with ⟨hne, hkey⟩
  cases key with
  | nil => contradiction
  | cons c key =>
      rw [List.cons_append] at hpart ⊢
      rw [readPath, skipSpaces_of_isKeyCharacter (hkey c (by simp)), hpart]
      rfl

theorem readStatement_of_isKeyCharacter {c : Char} (hc : isKeyCharacter c) {rest after : List Char}
    {path : List String}
    (hpath : readPath (c :: rest).length (c :: rest) = some (path, '=' :: after)) :
    readStatement (c :: rest) =
      (readValue (2 * (c :: rest).length) (skipSpaces after)).map fun read =>
        (.assign path read.1, read.2) := by
  have hbracket : c ≠ '[' := Text.ne_of_class hc rfl
  rw [readStatement]
  · rw [hpath, Option.map_eq_bind]
    rfl
  · intro other heq
    exact hbracket (List.cons.inj heq).1
  · intro other heq
    exact hbracket (List.cons.inj heq).1

theorem skipSpaces_isValue {written : List Char} {datum : Datum} (hvalue : IsValue written datum)
    (rest : List Char) : skipSpaces (' ' :: (written ++ rest)) = written ++ rest := by
  have hopens := hvalue.opens
  cases written with
  | nil => contradiction
  | cons c written =>
      have hc : isSpace c = false := by simpa using hopens
      have hspace : isSpace ' ' := rfl
      simp [skipSpaces, hspace, hc]

theorem exists_cons_lineText {line : Line} (hline : IsLine line) (rest : List Char) :
    ∃ c characters, lineText line ++ rest = c :: characters ∧ isKeyCharacter c := by
  obtain ⟨c, characters, hcons⟩ := List.exists_cons_of_ne_nil hline.isBareKey.ne_nil
  have hc : isKeyCharacter c := hline.isBareKey.isKeyCharacter c (by simp [hcons])
  have htext : lineText line ++ rest =
      c :: (characters ++ ' ' :: '=' :: ' ' :: (line.written ++ ['\n']) ++ rest) := by
    rw [lineText, hcons]
    rfl
  exact ⟨c, _, htext, hc⟩

theorem readStatement_line {line : Line} (hline : IsLine line) (rest : List Char) :
    readStatement (lineText line ++ rest) = some (line.statement, '\n' :: rest) := by
  have htext : lineText line ++ rest =
      line.key.toList ++ ' ' :: '=' :: ' ' :: (line.written ++ '\n' :: rest) := by
    simp [lineText]
  have hpath := readPath_bare hline.isBareKey (' ' :: (line.written ++ '\n' :: rest))
  have hread := fun fuel => hline.isValue.reads fuel rest
  rw [String.ofList_toList] at hpath
  obtain ⟨c, characters, hcons, hc⟩ := exists_cons_lineText hline rest
  rw [← htext, hcons] at hpath
  rw [hcons, readStatement_of_isKeyCharacter hc (hpath _), skipSpaces_isValue hline.isValue,
    List.length_cons, Nat.mul_succ, hread]
  rfl

/-! ## All lines -/

theorem readStatements_line {line : Line} (hline : IsLine line) (rest : List Char) (fuel : Nat) :
    readStatements (fuel + 1) (lineText line ++ rest) =
      (readStatements fuel rest).map (line.statement :: ·) := by
  have hskip : skipLines (lineText line ++ rest).length (lineText line ++ rest) =
      lineText line ++ rest := by
    obtain ⟨c, characters, hcons, hc⟩ := exists_cons_lineText hline rest
    rw [hcons, skipLines_of_isKeyCharacter hc]
  have hne : lineText line ++ rest ≠ [] := by simp [lineText]
  rw [readStatements]
  simp only [hskip]
  rw [readStatement_line hline, Option.map_eq_bind]
  rfl

/-- The lines of a document are read one after the other. -/
theorem readStatements_lines {lines : List Line} (hlines : ∀ line ∈ lines, IsLine line)
    {fuel : Nat} (hfuel : lines.length < fuel) :
    readStatements fuel (lines.flatMap lineText) =
      some (lines.map Line.statement) := by
  induction lines generalizing fuel with
  | nil =>
      cases fuel with
      | zero => contradiction
      | succ fuel => rfl
  | cons line lines ih =>
      cases fuel with
      | zero => contradiction
      | succ fuel =>
          have hrest := ih (fun other hother => hlines other (List.mem_cons_of_mem line hother))
            (Nat.lt_of_succ_lt_succ hfuel)
          rw [List.flatMap_cons, readStatements_line (hlines line (by simp)), hrest]
          rfl

/-- The entries that lines come to. -/
def entriesOf (lines : List Line) : Entries :=
  lines.map fun line => (line.key, .value line.datum)

theorem find?_entriesOf (lines : List Line) {key : String} (hkey : key ∉ lines.map Line.key) :
    (entriesOf lines).find? key = none := by
  rw [Entries.find?, List.lookup_eq_none_iff]
  intro entry hentry
  obtain ⟨line, hline, rfl⟩ := List.mem_map.mp hentry
  simp only [bne_iff_ne, ne_eq]
  rintro rfl
  exact hkey (List.mem_map_of_mem hline)

theorem add?_assign {document : Document} {key : String} (hfree : document.entries.find? key = none)
    (hpath : document.path = []) (datum : Datum) :
    document.add? (.assign [key] datum) =
      some ⟨document.entries ++ [(key, .value datum)], document.path⟩ := by
  have hlookup : document.entries.lookup key = none := hfree
  simp [Document.add?, hpath, Entries.within?, Entries.assign?, hfree, Entries.put, hlookup]

theorem foldlM_add? (done lines : List Line) (hkeys : ((done ++ lines).map Line.key).Nodup) :
    (lines.map Line.statement).foldlM Document.add? ⟨entriesOf done, []⟩ =
      some ⟨entriesOf (done ++ lines), []⟩ := by
  induction lines generalizing done with
  | nil => simp
  | cons line lines ih =>
      have hfree : line.key ∉ done.map Line.key := by
        simp only [List.map_append, List.map_cons, List.nodup_append] at hkeys
        intro hmem
        exact hkeys.2.2 _ hmem _ (by simp) rfl
      have hrest := ih (done ++ [line]) (by simpa using hkeys)
      rw [List.map_cons, List.foldlM_cons, Line.statement,
        add?_assign (find?_entriesOf done hfree) rfl]
      simpa [entriesOf] using hrest

theorem ofStatements?_statement {lines : List Line} (hkeys : (lines.map Line.key).Nodup) :
    Document.ofStatements? (lines.map Line.statement) = some ⟨entriesOf lines, []⟩ :=
  foldlM_add? [] lines hkeys

theorem length_le_length_flatMap_lineText (lines : List Line) :
    lines.length ≤ (lines.flatMap lineText).length := by
  induction lines with
  | nil => simp
  | cons line lines ih =>
      simp only [List.length_cons, List.flatMap_cons, List.length_append, lineText]
      omega

/-- A text of lines with different keys is read as what its lines say. -/
theorem ofText?_lines {lines : List Line} (hlines : ∀ line ∈ lines, IsLine line)
    (hkeys : (lines.map Line.key).Nodup) :
    ofText? (String.ofList (lines.flatMap lineText)) = some ⟨entriesOf lines, []⟩ := by
  have hread := readStatements_lines hlines
    (Nat.lt_succ_of_le (length_le_length_flatMap_lineText lines))
  have hmark : ∀ rest, lines.flatMap lineText ≠ '\uFEFF' :: rest := by
    intro rest hsame
    cases lines with
    | nil => contradiction
    | cons line lines =>
        obtain ⟨c, characters, hcons, hc⟩ :=
          exists_cons_lineText (hlines line (by simp)) (lines.flatMap lineText)
        rw [List.flatMap_cons, hcons] at hsame
        exact Text.ne_of_class hc rfl (List.cons.inj hsame).1
  unfold ofText?
  rw [String.toList_ofList]
  split
  next hsame => exact absurd hsame (hmark _)
  next =>
    dsimp only
    rw [hread]
    exact ofStatements?_statement hkeys

end EquationPuzzle.Toml
