import EquationPuzzle.Proofs.Yaml.Word
import EquationPuzzle.Yaml.Token

/-!
# Lines of a map

A text of lines that have a name, a colon, a blank and a word each is scanned as the tokens of one
block map: each name becomes a key, each word a value.
-/

namespace EquationPuzzle.Yaml

theorem ne_of_opensWord {c d : Char} (hc : opensWord c) (hd : opensWord d = false) : c ≠ d := by
  rintro rfl
  rw [hd] at hc
  contradiction

theorem isSolid_of_opensWord {c : Char} (hc : opensWord c) : isSolid c := by
  have hne : ∀ d, opensWord d = false → (c = d) = False := fun d hd =>
    eq_false (ne_of_opensWord hc hd)
  simp (disch := decide) only [isSolid, isSpaceOrTab, isBreak, hne]
  decide

namespace Scanner

section Gap

variable (scanner : Scanner) {rest : List Char} {index line column : Nat}

theorem skipGap_of_solid {c : Char} (hcursor : scanner.cursor = ⟨c :: rest, index, line, column⟩)
    (hsolid : isSolid c) (hcomment : c ≠ '#') (hmark : c ≠ '\uFEFF') (fuel : Nat) :
    skipGap fuel scanner = scanner := by
  cases fuel with
  | zero => rfl
  | succ fuel =>
      simp only [isSolid, isSpaceOrTab, isBreak, Bool.and_eq_true, Bool.not_eq_true',
        Bool.or_eq_false_iff, decide_eq_false_iff_not] at hsolid
      obtain ⟨⟨hspace, htab⟩, hbreak⟩ := hsolid
      unfold skipGap
      simp [hcursor, Cursor.sees, hmark, Cursor.skipWhile, hspace, htab, Cursor.skipMany, hcomment,
        Cursor.holds, isBreak, hbreak, moveTo]
      rw [← hcursor]

theorem skipGap_of_end (hcursor : scanner.cursor = ⟨[], index, line, column⟩) (fuel : Nat) :
    skipGap fuel scanner = scanner := by
  cases fuel with
  | zero => rfl
  | succ fuel =>
      unfold skipGap
      simp [hcursor, Cursor.sees, Cursor.skipWhile, Cursor.skipMany, Cursor.holds, moveTo]
      rw [← hcursor]

theorem skipGap_space {c : Char}
    (hcursor : scanner.cursor = ⟨' ' :: c :: rest, index, line, column⟩) (hsolid : isSolid c)
    (hcomment : c ≠ '#') (fuel : Nat) :
    skipGap (fuel + 1) scanner = scanner.moveTo ⟨c :: rest, index + 1, line, column + 1⟩ := by
  simp only [isSolid, isSpaceOrTab, isBreak, Bool.and_eq_true, Bool.not_eq_true',
    Bool.or_eq_false_iff, decide_eq_false_iff_not] at hsolid
  obtain ⟨⟨hspace, htab⟩, hbreak⟩ := hsolid
  unfold skipGap
  simp [hcursor, Cursor.sees, Cursor.skipWhile, hspace, htab, Cursor.skipMany, Cursor.skip,
    hcomment, Cursor.holds, isBreak, hbreak]

end Gap

/-! ## One token -/

theorem fetch?_of_word (scanner : Scanner) {c : Char} {rest : List Char} {index line column : Nat}
    (hcursor : scanner.cursor = ⟨c :: rest, index, line, column⟩)
    (hopens : opensWord c ∨ c = '-' ∧ rest.head?.any isSolid)
    (hmark : scanner.cursor.atDocumentMark = false) :
    scanner.fetch? c = scanner.fetchPlain? := by
  rcases hopens with hopens | ⟨rfl, hnext⟩
  · have hne : ∀ d, opensWord d = false → (c = d) = False := fun d hd =>
      eq_false (ne_of_opensWord hopens hd)
    unfold fetch? startsPlain
    simp (disch := decide) [hmark, isSpaceOrTab, hne]
  · have hblank : Cursor.endsWord scanner.cursor 1 = false := by
      cases rest with
      | nil => simp at hnext
      | cons next rest =>
          rw [hcursor]
          exact endsWord_of_solid hnext rest index line column
    have hspace : Cursor.holds scanner.cursor isSpaceOrTab 1 = false := by
      cases rest with
      | nil => simp at hnext
      | cons next rest =>
          have hsolid : isSolid next := hnext
          simp only [isSolid, Bool.and_eq_true, Bool.not_eq_true'] at hsolid
          simp [Cursor.holds, hcursor, hsolid]
    unfold fetch? startsPlain
    simp [hmark, hblank, hspace]

theorem unroll_eq_self {scanner : Scanner} {column : Int} (hcolumn : scanner.indent ≤ column) :
    scanner.unroll column = scanner := by
  obtain ⟨cursor, tokens, keyAllowed, indent, outer, candidates⟩ := scanner
  unfold unroll
  split
  · rfl
  · cases outer with
    | nil => rfl
    | cons around outer =>
        simp only at hcolumn
        simp [unroll.close, Int.not_lt.mpr hcolumn]

/-- In a block, a plain text is read to where the next line may be indented less. -/
theorem fetchPlain?_eq (cursor : Cursor) (tokens : Array Token) (keyAllowed : Bool) (indent : Int)
    (outer : List Int) :
    fetchPlain? ⟨cursor, tokens, keyAllowed, indent, outer, [none]⟩ =
      (Plain.read false (indent + 1).toNat [] {} (cursor.rest.length + 1) cursor).map fun scalar =>
        ⟨scalar.cursor, tokens.push (.scalar (String.ofList scalar.text) scalar.plain),
          scalar.broken, indent, outer,
          [if keyAllowed then some ⟨decide (indent = cursor.column), tokens.size, cursor.index,
            cursor.line, cursor.column⟩ else none]⟩ := by
  rw [Option.map_eq_bind]
  cases keyAllowed <;> rfl

theorem run_succ {scanner : Scanner} {c : Char} {rest : List Char} {index line column : Nat}
    (hcursor : scanner.cursor = ⟨c :: rest, index, line, column⟩)
    (hgap : ∀ fuel, skipGap (fuel + 1) scanner = scanner)
    (hstale : scanner.dropStale? = some scanner) (hcolumn : scanner.indent ≤ column) (fuel : Nat) :
    run (fuel + 1) scanner = (scanner.fetch? c).bind (run fuel) := by
  have hunroll : scanner.unroll scanner.column = scanner := by
    apply unroll_eq_self
    simpa [Scanner.column, hcursor] using hcolumn
  rw [run, hgap]
  simp only [hstale, hunroll, hcursor, Cursor.peek?, Option.bind_eq_bind, Option.bind_some,
    List.head?_cons]

theorem run_space (scanner : Scanner) {c : Char} {rest : List Char} {index line column : Nat}
    (hcursor : scanner.cursor = ⟨' ' :: c :: rest, index, line, column⟩) (hsolid : isSolid c)
    (hcomment : c ≠ '#') (hmark : c ≠ '\uFEFF') (fuel : Nat) :
    run (fuel + 1) scanner =
      run (fuel + 1) (scanner.moveTo ⟨c :: rest, index + 1, line, column + 1⟩) := by
  have hmoved := skipGap_of_solid (scanner.moveTo ⟨c :: rest, index + 1, line, column + 1⟩) rfl
    hsolid hcomment hmark
  rw [run, run, skipGap_space scanner hcursor hsolid hcomment, hmoved]

/-! ## One line -/

/-- The scanner at the start of a line of a map at the left edge. -/
def atLine (tokens : Array Token) (rest : List Char) (index line : Nat) : Scanner :=
  ⟨⟨rest, index, line, 0⟩, tokens, true, 0, [-1], [none]⟩

/-- The scanner behind the colon of a key of such a map. -/
def atValue (tokens : Array Token) (rest : List Char) (index line column : Nat) : Scanner :=
  ⟨⟨rest, index, line, column⟩, tokens, false, 0, [-1], [none]⟩

theorem atDocumentMark_of_opensWord {c : Char} (hopens : opensWord c) (rest : List Char)
    (index line column : Nat) :
    Cursor.atDocumentMark ⟨c :: rest, index, line, column⟩ = false := by
  have hhyphen : c ≠ '-' := ne_of_opensWord hopens rfl
  have hdot : c ≠ '.' := ne_of_opensWord hopens rfl
  simp [Cursor.atDocumentMark, Cursor.sees, hhyphen, hdot]

theorem run_name {name rest : List Char} (hname : isWord name) (hopens : name.head?.any opensWord)
    (tokens : Array Token) (index line : Nat) {indent : Int} (hindent : indent ≤ 0)
    (outer : List Int) (fuel : Nat) :
    run (fuel + 1) ⟨⟨name ++ ':' :: ' ' :: rest, index, line, 0⟩, tokens, true, indent, outer,
        [none]⟩ =
      run fuel ⟨⟨':' :: ' ' :: rest, index + name.length, line, name.length⟩,
        tokens.push (.scalar (String.ofList name) true), false, indent, outer,
        [some ⟨decide (indent = 0), tokens.size, index, line, 0⟩]⟩ := by
  obtain ⟨c, others, rfl, _⟩ := exists_cons_of_isWord hname
  have hc : opensWord c := hopens
  have hmark : Cursor.atDocumentMark ⟨(c :: others) ++ ':' :: ' ' :: rest, index, line, 0⟩ =
      false := atDocumentMark_of_opensWord hc _ index line 0
  have hread := Plain.read_name hname (indent + 1).toNat
    ((c :: others ++ ':' :: ' ' :: rest).length) hmark
  rw [run_succ rfl (fun fuel => skipGap_of_solid _ rfl (isSolid_of_opensWord hc)
    (ne_of_opensWord hc rfl) (ne_of_opensWord hc rfl) _) rfl hindent]
  rw [fetch?_of_word _ rfl (Or.inl hc) hmark]
  simp only [fetchPlain?_eq, hread]
  simp

private theorem insertIdx_length_append {α : Type} (front back : List α) (a : α) :
    (front ++ back).insertIdx front.length a = front ++ a :: back := by
  induction front with
  | nil => rfl
  | cons b front ih => simp [ih]

theorem insertIdx_push (tokens : Array Token) (last token : Token) :
    (tokens.push last).insertIdxIfInBounds tokens.size token = (tokens.push token).push last := by
  apply Array.ext'
  have hlist := insertIdx_length_append tokens.toList [last] token
  simpa [Array.insertIdxIfInBounds] using hlist

theorem insertIdx_push_push (tokens : Array Token) (first last token : Token) :
    ((tokens.push first).push last).insertIdxIfInBounds tokens.size token =
      ((tokens.push token).push first).push last := by
  apply Array.ext'
  have hbound : tokens.size ≤ tokens.size + 1 + 1 := by omega
  have hlist := insertIdx_length_append tokens.toList [first, last] token
  simpa [Array.insertIdxIfInBounds, hbound] using hlist

/-- The colon behind a name makes the name a key, which opens a map unless one is open. -/
theorem run_colon {rest : List Char} {tokens : Array Token} {name : Token} {required : Bool}
    {start index line column : Nat} (hcolumn : 0 < column) (hshort : index ≤ start + 1024)
    {indent : Int} (hindent : indent ≤ 0) (outer : List Int) (fuel : Nat) :
    run (fuel + 1) ⟨⟨':' :: ' ' :: rest, index, line, column⟩, tokens.push name, false, indent,
        outer, [some ⟨required, tokens.size, start, line, 0⟩]⟩ =
      run fuel ⟨⟨' ' :: rest, index + 1, line, column + 1⟩,
        (((if indent < 0 then tokens.push .blockMappingStart else tokens).push .key).push name).push
          .value, false, 0, if indent < 0 then indent :: outer else outer, [none]⟩ := by
  have hgap : ∀ more scanner, scanner.cursor = ⟨':' :: ' ' :: rest, index, line, column⟩ →
      skipGap (more + 1) scanner = scanner := fun more scanner hcursor =>
    skipGap_of_solid scanner hcursor rfl (by decide) (by decide) _
  have hfresh : isStale ⟨':' :: ' ' :: rest, index, line, column⟩
      ⟨required, tokens.size, start, line, 0⟩ = false := by
    simp [isStale, hshort]
  have hmark : Cursor.atDocumentMark ⟨':' :: ' ' :: rest, index, line, column⟩ = false := by
    simp [Cursor.atDocumentMark, Nat.ne_of_gt hcolumn]
  have hcolon : Cursor.endsWord ⟨':' :: ' ' :: rest, index, line, column⟩ 1 := rfl
  rw [run_succ rfl (fun more => hgap more _ rfl) (by simp [dropStale?, hfresh])
    (Int.le_trans hindent (Int.natCast_nonneg column))]
  simp only [fetch?, hmark, hcolon, fetchValue?]
  by_cases hopen : indent < 0
  · simp [insert, insertIdx_push, roll, inFlow, hopen, Int.not_le.mpr hopen, insertIdx_push_push,
      allowKey, mark, push, moveTo, Cursor.skipMany, Cursor.skip]
  · obtain rfl : indent = 0 := by omega
    simp [insert, insertIdx_push, roll, inFlow, allowKey, mark, push, moveTo, Cursor.skipMany,
      Cursor.skip]

theorem run_key {name rest : List Char} (hname : isWord name) (hopens : name.head?.any opensWord)
    (hshort : name.length ≤ 1024) (tokens : Array Token) (index line : Nat) {indent : Int}
    (hindent : indent ≤ 0) (outer : List Int) (fuel : Nat) :
    run (fuel + 2) ⟨⟨name ++ ':' :: ' ' :: rest, index, line, 0⟩, tokens, true, indent, outer,
        [none]⟩ =
      run fuel ⟨⟨' ' :: rest, index + name.length + 1, line, name.length + 1⟩,
        (((if indent < 0 then tokens.push .blockMappingStart else tokens).push .key).push
          (.scalar (String.ofList name) true)).push .value,
        false, 0, if indent < 0 then indent :: outer else outer, [none]⟩ := by
  rw [run_name hname hopens tokens index line hindent outer]
  exact run_colon (List.length_pos_iff.mpr (ne_nil_of_isWord hname)) (by omega) hindent outer fuel

theorem head?_all_isSolid {rest : List Char} (hnext : rest.head?.all opensWord) :
    rest.head?.all isSolid := by
  cases rest with
  | nil => rfl
  | cons c rest => exact isSolid_of_opensWord hnext

theorem run_word {word rest : List Char} (hword : isWord word) (hnext : rest.head?.all opensWord)
    (tokens : Array Token) (index line column fuel : Nat) :
    run (fuel + 1) (atValue tokens (' ' :: word ++ '\n' :: rest) index line column) =
      run fuel (atLine (tokens.push (.scalar (String.ofList word) true)) rest
        (index + word.length + 2) (line + 1)) := by
  obtain ⟨c, others, hcons, hopens⟩ := exists_cons_of_isWord hword
  have hsolid : isSolid c := by
    have hrun := isRun_of_isWord hword
    simp only [hcons, isRun, Bool.and_eq_true] at hrun
    exact hrun.1.1
  have hne : ∀ d, opensWord d = false → d ≠ '-' → c ≠ d := by
    rintro d hd hhyphen rfl
    rcases hopens with hopens | ⟨rfl, _⟩
    · rw [hd] at hopens
      contradiction
    · exact hhyphen rfl
  have hgap : ∀ more scanner,
      scanner.cursor = ⟨word ++ '\n' :: rest, index + 1, line, column + 1⟩ →
        skipGap (more + 1) scanner = scanner := fun more scanner hcursor =>
    skipGap_of_solid scanner (hcursor.trans (by rw [hcons]; rfl)) hsolid (hne '#' rfl (by decide))
      (hne '\uFEFF' rfl (by decide)) _
  have hmark : Cursor.atDocumentMark ⟨word ++ '\n' :: rest, index + 1, line, column + 1⟩ =
      false := by
    simp [Cursor.atDocumentMark]
  have hread := Plain.read_line hword (head?_all_isSolid hnext)
    ((word ++ '\n' :: rest).length) hmark
  have hstart : opensWord c ∨ c = '-' ∧ (others ++ '\n' :: rest).head?.any isSolid := by
    refine hopens.imp_right ?_
    rintro ⟨hhyphen, hothers⟩
    refine ⟨hhyphen, ?_⟩
    obtain ⟨next, more, rfl⟩ := List.exists_cons_of_ne_nil hothers
    have hrun := isRun_of_isWord hword
    simp only [hcons, isRun, Bool.and_eq_true] at hrun
    exact hrun.2.1.1
  have hfetch : fetch? (atValue tokens (word ++ '\n' :: rest) (index + 1) line (column + 1)) c =
      some (atLine (tokens.push (.scalar (String.ofList word) true)) rest
        (index + word.length + 2) (line + 1)) := by
    rw [fetch?_of_word _ (by rw [hcons]; rfl) hstart hmark, atValue, fetchPlain?_eq]
    have hindent : ((0 : Int) + 1).toNat = 1 := rfl
    rw [hindent, hread]
    simp [atLine]
    omega
  have hspace : run (fuel + 1) (atValue tokens (' ' :: word ++ '\n' :: rest) index line column) =
      run (fuel + 1) (atValue tokens (word ++ '\n' :: rest) (index + 1) line (column + 1)) := by
    rw [hcons]
    exact run_space _ rfl hsolid (hne '#' rfl (by decide)) (hne '\uFEFF' rfl (by decide)) fuel
  rw [hspace, run_succ (by rw [hcons]; rfl) (fun more => hgap more _ rfl) rfl
    (Int.natCast_nonneg _), hfetch]
  rfl

theorem run_break {rest : List Char} (hnext : rest.head?.all opensWord) (tokens : Array Token)
    (index line column fuel : Nat) :
    run (fuel + 1) (atValue tokens ('\n' :: rest) index line column) =
      run (fuel + 1) (atLine tokens rest (index + 1) (line + 1)) := by
  have hgap : ∀ more, skipGap more (atLine tokens rest (index + 1) (line + 1)) =
      atLine tokens rest (index + 1) (line + 1) := by
    intro more
    cases rest with
    | nil => exact skipGap_of_end _ rfl _
    | cons c rest =>
        exact skipGap_of_solid _ rfl (isSolid_of_opensWord hnext) (ne_of_opensWord hnext rfl)
          (ne_of_opensWord hnext rfl) _
  have hbreak : ∀ more, skipGap (more + 1) (atValue tokens ('\n' :: rest) index line column) =
      atLine tokens rest (index + 1) (line + 1) := by
    intro more
    rw [← hgap more, skipGap]
    simp [atValue, atLine, Cursor.sees, Cursor.skipWhile, Cursor.skipMany, Cursor.holds, isBreak,
      Cursor.skipBreak, moveTo, allowKey, inFlow]
  rw [run, run, hbreak, hgap]

theorem run_quoted (rest : List Char) (tokens : Array Token) (index line column fuel : Nat) :
    run (fuel + 1) (atValue tokens (" '1'".toList ++ '\n' :: rest) index line column) =
      run fuel (atValue (tokens.push (.scalar "1" false)) ('\n' :: rest) (index + 4) line
        (column + 4)) := by
  have hquote : isSolid '\'' ∧ '\'' ≠ '#' ∧ '\'' ≠ '\uFEFF' := by decide
  have hgap : ∀ more scanner,
      scanner.cursor = ⟨'\'' :: '1' :: '\'' :: '\n' :: rest, index + 1, line, column + 1⟩ →
        skipGap (more + 1) scanner = scanner := fun more scanner hcursor =>
    skipGap_of_solid scanner hcursor hquote.1 hquote.2.1 hquote.2.2 _
  have hfetch : fetch? (atValue tokens ('\'' :: '1' :: '\'' :: '\n' :: rest) (index + 1) line
      (column + 1)) '\'' = some (atValue (tokens.push (.scalar "1" false)) ('\n' :: rest)
        (index + 4) line (column + 4)) := by
    have hquoted : fetch? (atValue tokens ('\'' :: '1' :: '\'' :: '\n' :: rest) (index + 1) line
        (column + 1)) '\'' = fetchQuoted? '\'' (atValue tokens ('\'' :: '1' :: '\'' :: '\n' :: rest)
          (index + 1) line (column + 1)) := by
      simp [fetch?, atValue, Cursor.atDocumentMark]
    rw [hquoted]
    rfl
  have hspace := run_space (atValue tokens (" '1'".toList ++ '\n' :: rest) index line column) rfl
    hquote.1 hquote.2.1 hquote.2.2 fuel
  rw [hspace, run_succ rfl (fun more => hgap more _ rfl) rfl (Int.natCast_nonneg _)]
  exact congrArg (fun next => next.bind (run fuel)) hfetch

theorem run_end (tokens : Array Token) (index line fuel : Nat) :
    run (fuel + 1) (atLine tokens [] index line) = some (tokens.push .blockEnd) := by
  rw [run, skipGap_of_end _ rfl]
  rfl

end Scanner

/-! ## All lines -/

structure IsLine (line : String × String) : Prop where
  name_isWord : isWord line.1.toList
  name_opens : line.1.toList.head?.any opensWord
  name_short : line.1.toList.length ≤ 1024
  value_isWord : isWord line.2.toList

def lineText (line : String × String) : List Char :=
  line.1.toList ++ ':' :: ' ' :: (line.2.toList ++ ['\n'])

def lineTokens (line : String × String) : List Token :=
  [.key, .scalar line.1 true, .value, .scalar line.2 true]

theorem head?_flatMap_lineText {lines : List (String × String)}
    (hlines : ∀ line ∈ lines, IsLine line) :
    (lines.flatMap lineText).head?.all opensWord := by
  cases lines with
  | nil => rfl
  | cons line lines =>
      have hopens := (hlines line (by simp)).name_opens
      rw [List.flatMap_cons, lineText]
      cases hname : line.1.toList with
      | nil =>
          rw [hname] at hopens
          contradiction
      | cons c rest =>
          rw [hname] at hopens
          exact hopens

namespace Scanner

theorem run_line {line : String × String} (hline : IsLine line) {rest : List Char}
    (hnext : rest.head?.all opensWord) (tokens : Array Token) (index number fuel : Nat) :
    ∃ next, run (fuel + 3) (atLine tokens (lineText line ++ rest) index number) =
      run fuel (atLine (tokens ++ lineTokens line) rest next (number + 1)) := by
  obtain ⟨hname, hopens, hshort, hvalue⟩ := hline
  refine ⟨index + line.1.toList.length + 1 + line.2.toList.length + 2, ?_⟩
  rw [show lineText line ++ rest = line.1.toList ++ ':' :: ' ' :: (line.2.toList ++ '\n' :: rest) by
    simp [lineText]]
  rw [atLine, run_key hname hopens hshort tokens index number (Int.le_refl 0) [-1]]
  have hword := run_word hvalue hnext
    (((tokens.push .key).push (.scalar (String.ofList line.1.toList) true)).push .value)
    (index + line.1.toList.length + 1) number (line.1.toList.length + 1) fuel
  refine Eq.trans hword ?_
  simp [lineTokens]

/-- The lines of a map are scanned as its keys and values. -/
theorem run_lines {lines : List (String × String)} (hlines : ∀ line ∈ lines, IsLine line)
    (tokens : Array Token) (index number : Nat) {fuel : Nat} (hfuel : 3 * lines.length < fuel) :
    run fuel (atLine tokens (lines.flatMap lineText) index number) =
      some ((tokens ++ lines.flatMap lineTokens).push .blockEnd) := by
  induction lines generalizing tokens index number fuel with
  | nil =>
      obtain ⟨fuel, rfl⟩ : ∃ more, fuel = more + 1 := ⟨fuel - 1, by omega⟩
      rw [List.flatMap_nil, run_end]
      simp
  | cons line lines ih =>
      obtain ⟨fuel, rfl⟩ : ∃ more, fuel = more + 3 := ⟨fuel - 3, by simp at hfuel; omega⟩
      have hrest : ∀ line ∈ lines, IsLine line := fun line hmem => hlines line (by simp [hmem])
      obtain ⟨next, hline⟩ := run_line (hlines line (by simp)) (head?_flatMap_lineText hrest) tokens
        index number fuel
      rw [List.flatMap_cons, hline, ih hrest _ _ _ (by simp at hfuel; omega)]
      exact congrArg some (Array.ext' (by simp))

end Scanner

/-- The tokens of a record: those of its version in quotes, and those of its lines. -/
def recordTokens (versionKey : String) (lines : List (String × String)) : List Token :=
  .blockMappingStart :: .key :: .scalar versionKey true :: .value :: .scalar "1" false ::
    (lines.flatMap lineTokens ++ [.blockEnd])

theorem isPrintable_of_isWord {word : List Char} (hword : isWord word) :
    word.all isPrintable := by
  simp only [isWord, Bool.and_eq_true] at hword
  exact hword.1.2

theorem isPrintable_lineText {line : String × String} (hline : IsLine line) :
    (lineText line).all isPrintable := by
  have hname := isPrintable_of_isWord hline.name_isWord
  have hvalue := isPrintable_of_isWord hline.value_isWord
  have hmarks : isPrintable ':' ∧ isPrintable ' ' ∧ isPrintable '\n' := by decide
  simp [lineText, hmarks]
  exact ⟨by simpa using hname, by simpa using hvalue⟩

theorem length_flatMap_lineText (lines : List (String × String)) :
    3 * lines.length ≤ (lines.flatMap lineText).length := by
  induction lines with
  | nil => simp
  | cons line lines ih =>
      simp only [List.flatMap_cons, List.length_append, lineText, List.length_cons,
        List.length_nil]
      omega

theorem tokens?_record {versionKey : String} (hkey : isWord versionKey.toList)
    (hopens : versionKey.toList.head?.any opensWord) (hshort : versionKey.toList.length ≤ 1024)
    {lines : List (String × String)} (hlines : ∀ line ∈ lines, IsLine line) {text : String}
    (htext : text.toList =
      versionKey.toList ++ ':' :: (" '1'".toList ++ '\n' :: lines.flatMap lineText)) :
    tokens? text = some (recordTokens versionKey lines).toArray := by
  have hprintable : text.toList.all isPrintable := by
    have hmarks : isPrintable ':' ∧ " '1'".toList.all isPrintable ∧ isPrintable '\n' := by decide
    have hall : (lines.flatMap lineText).all isPrintable := by
      rw [List.all_flatMap, List.all_eq_true]
      exact fun line hmem => isPrintable_lineText (hlines line hmem)
    rw [htext, List.all_append, List.all_cons, List.all_append, List.all_cons, hmarks.1, hmarks.2.1,
      hmarks.2.2, hall, isPrintable_of_isWord hkey]
    rfl
  have hnext := head?_flatMap_lineText hlines
  have hlength : text.toList.length =
      versionKey.toList.length + (lines.flatMap lineText).length + 6 := by
    rw [htext]
    simp [-List.length_flatMap]
    omega
  have hbound := length_flatMap_lineText lines
  obtain ⟨fuel, hfuel, hlines'⟩ : ∃ fuel,
      text.toList.length + 1 = fuel + 1 + 3 ∧ 3 * lines.length < fuel + 1 :=
    ⟨text.toList.length - 3, by omega, by omega⟩
  simp only [tokens?, hprintable, if_true, hfuel]
  rw [htext]
  refine (Scanner.run_key hkey hopens hshort #[] 0 0 (show (-1 : Int) ≤ 0 by decide) [] _).trans ?_
  refine (Scanner.run_quoted (lines.flatMap lineText) _ _ 0 _ _).trans ?_
  refine (Scanner.run_break hnext _ _ 0 _ _).trans ?_
  refine (Scanner.run_lines hlines _ _ 1 hlines').trans ?_
  exact congrArg some (Array.ext' (by simp [recordTokens]))

end EquationPuzzle.Yaml
