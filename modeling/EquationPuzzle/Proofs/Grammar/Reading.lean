import EquationPuzzle.Proofs.Evaluation.Bounds
import EquationPuzzle.Proofs.Grammar.Rules

/-!
# Reading equations

A text is read as an equation exactly if it has six characters, which are numerals with operators
between them, and no division sign has a zero behind it.  Any other text is refused for the first
rule that it breaks.  That a row has no fault is checked by looking at neighbouring symbols only;
this comes to the same as reading numerals and operators in turn, and it leaves nothing that could
go wrong when the row is evaluated.
-/

namespace EquationPuzzle

/-! ## Symbols and their characters -/

namespace Symbol

theorem toChar_mem_characters_iff (symbol : Symbol) :
    symbol.toChar ∈ Operator.characters ↔ symbol.isOperator = true := by
  cases symbol with
  | digit value =>
      have hall : ∀ value : Fin 10, (Symbol.digit value).toChar ∉ Operator.characters := by decide
      simp [hall value, isOperator]
  | operator op => simp [toChar, op.toChar_mem, isOperator]

theorem isDigit_toChar_iff (symbol : Symbol) :
    symbol.toChar.isDigit = true ↔ symbol.isOperator = false := by
  cases symbol with
  | digit value => simp [isDigit_toChar, isOperator]
  | operator op => simp [toChar, op.isDigit_toChar, isOperator]

theorem exists_digit_toChar_eq {c : Char} (hc : c.isDigit) :
    ∃ value, (Symbol.digit value).toChar = c := by
  have hrange : 48 ≤ c.toNat ∧ c.toNat ≤ 57 := Char.isDigit_iff_toNat.mp hc
  refine ⟨⟨c.toNat - 48, by omega⟩, ?_⟩
  have hcode : '0'.toNat + (c.toNat - 48) = c.toNat := by
    have hzero : '0'.toNat = 48 := rfl
    omega
  rw [toChar, hcode, Char.ofNat_toNat]

theorem exists_operator_toChar_eq {c : Char} (hc : c ∈ Operator.characters) :
    ∃ op : Operator, op.toChar = c := by
  simp only [Operator.characters, List.mem_cons, List.not_mem_nil, or_false] at hc
  rcases hc with rfl | rfl | rfl | rfl
  · exact ⟨.add, rfl⟩
  · exact ⟨.subtract, rfl⟩
  · exact ⟨.multiply, rfl⟩
  · exact ⟨.divide, rfl⟩

theorem isLetter_iff (c : Char) : Grammar.IsLetter c ↔ ∃ symbol : Symbol, symbol.toChar = c := by
  constructor
  · rintro (hdigit | hoperator)
    · obtain ⟨value, hvalue⟩ := exists_digit_toChar_eq hdigit
      exact ⟨.digit value, hvalue⟩
    · obtain ⟨op, hop⟩ := exists_operator_toChar_eq hoperator
      exact ⟨.operator op, hop⟩
  · rintro ⟨symbol, rfl⟩
    cases symbol with
    | digit value => exact Or.inl (isDigit_toChar value)
    | operator op => exact Or.inr op.toChar_mem

theorem isLetter_of_ofChar? {c : Char} {symbol : Symbol} (h : ofChar? c = some symbol) :
    Grammar.IsLetter c := by
  unfold ofChar? at h
  split at h
  · next value hdigit =>
      unfold digitOfChar? at hdigit
      split at hdigit
      · next hrange => exact Or.inl (Char.isDigit_iff_toNat.mpr hrange)
      · contradiction
  · obtain ⟨op, hop, _⟩ := Option.map_eq_some_iff.mp h
    unfold Operator.ofChar? at hop
    split at hop
    · exact Or.inr (by decide)
    · exact Or.inr (by decide)
    · exact Or.inr (by decide)
    · exact Or.inr (by decide)
    · contradiction

theorem toChar_of_ofChar? {c : Char} {symbol : Symbol} (h : ofChar? c = some symbol) :
    symbol.toChar = c := by
  obtain ⟨known, rfl⟩ := (isLetter_iff c).mp (isLetter_of_ofChar? h)
  rw [ofChar?_toChar, Option.some.injEq] at h
  rw [h]

theorem toChar_injective : Function.Injective toChar := by
  intro a b hab
  have hread := congrArg ofChar? hab
  rwa [ofChar?_toChar, ofChar?_toChar, Option.some.injEq] at hread

theorem not_isLetter_of_ofChar? {c : Char} (h : ofChar? c = none) : ¬Grammar.IsLetter c := by
  intro hletter
  obtain ⟨symbol, rfl⟩ := (isLetter_iff c).mp hletter
  simp [ofChar?_toChar] at h

end Symbol

namespace Spelling

open Grammar

/-- Reading stops at the first character that is not in the alphabet. -/
theorem symbolsFrom_cases (position : Nat) (characters : List Char) :
    (∃ symbols : List Symbol, symbolsFrom position characters = .ok symbols ∧
        characters = symbols.map Symbol.toChar) ∨
      ∃ c place, symbolsFrom position characters =
          .error (.invalidCharacter c (position + place)) ∧
        (Malformed.invalidCharacter c place).Breaks characters := by
  induction characters generalizing position with
  | nil => exact Or.inl ⟨[], rfl, rfl⟩
  | cons c rest ih =>
      cases hc : Symbol.ofChar? c with
      | none =>
          refine Or.inr ⟨c, 0, ?_, rfl, Symbol.not_isLetter_of_ofChar? hc, by simp⟩
          simp only [symbolsFrom, hc]
          rfl
      | some symbol =>
          have hsymbol := Symbol.toChar_of_ofChar? hc
          rcases ih (position + 1) with
            ⟨symbols, hread, hrest⟩ | ⟨bad, place, hread, hget, hbad, hearlier⟩
          · refine Or.inl ⟨symbol :: symbols, ?_, by rw [List.map_cons, hsymbol, ← hrest]⟩
            simp only [symbolsFrom, hc, hread]
            rfl
          · refine Or.inr ⟨bad, place + 1, ?_, hget, hbad, ?_⟩
            · simp only [symbolsFrom, hc, hread]
              rw [Nat.add_right_comm]
              rfl
            · intro earlier hmem
              rw [List.take_succ_cons, List.mem_cons] at hmem
              rcases hmem with rfl | hmem
              · exact Symbol.isLetter_of_ofChar? hc
              · exact hearlier earlier hmem

/-- A text is either spelled with six symbols, or it breaks one of the first two rules. -/
theorem ofText_cases (text : String) :
    (∃ spelling : Spelling, ofText text = .ok spelling ∧
        text.toList = spelling.toList.map Symbol.toChar) ∨
      ∃ fault, ofText text = .error fault ∧ fault.IsFirst text.toList := by
  by_cases hlength : text.toList.length = equationLength
  · rcases symbolsFrom_cases 0 text.toList with
      ⟨symbols, hread, hcharacters⟩ | ⟨c, place, hread, hbreaks⟩
    · have hsymbols : symbols.length = equationLength := by
        rw [← hlength, hcharacters, List.length_map]
      refine Or.inl ⟨⟨symbols.toArray, by simpa using hsymbols⟩, ?_, hcharacters⟩
      simp only [ofText, hlength, if_true, hread]
      exact dif_pos hsymbols
    · refine Or.inr ⟨_, ?_, hbreaks, fun earlier hrank hearlier => ?_⟩
      · simp only [ofText, hlength, if_true, hread, Nat.zero_add]
        rfl
      · cases earlier with
        | wrongLength length => exact hearlier.2 (hearlier.1.trans hlength)
        | _ => simp [Malformed.rank] at hrank
  · refine Or.inr ⟨.wrongLength text.toList.length, ?_, ⟨rfl, hlength⟩, ?_⟩
    · simp only [ofText, hlength, if_false]
    · intro earlier hrank
      simp [Malformed.rank] at hrank

/-! ## Rules about neighbours -/

/-- The search finds the first two operators that stand together, if there are any. -/
theorem adjacentOperators?_cases (position : Nat) (symbols : List Symbol) :
    (adjacentOperators? position symbols = none ∧
        ∀ place, ¬AdjoinAt (symbols.map Symbol.toChar) place) ∨
      ∃ place, adjacentOperators? position symbols = some (position + place) ∧
        (Malformed.adjacentOperators place).Breaks (symbols.map Symbol.toChar) := by
  induction symbols generalizing position with
  | nil => exact Or.inl ⟨rfl, not_adjoinAt_nil⟩
  | cons first symbols ih =>
      cases symbols with
      | nil =>
          refine Or.inl ⟨rfl, fun place hadjoin => ?_⟩
          cases place with
          | zero => exact hadjoin
          | succ before =>
              rw [List.map_cons, List.map_nil, adjoinAt_cons_succ] at hadjoin
              rcases hadjoin with ⟨_, _, hoperator⟩ | hadjoin
              · simp [OperatorAt] at hoperator
              · exact not_adjoinAt_nil before hadjoin
      | cons second rest =>
          have hfirst (before : Nat) :
              AdjoinAt ((first :: second :: rest).map Symbol.toChar) (before + 1) ↔
                (before = 0 ∧ first.isOperator && second.isOperator) ∨
                  AdjoinAt ((second :: rest).map Symbol.toChar) before := by
            rw [List.map_cons, adjoinAt_cons_succ, List.map_cons, operatorAt_cons_zero,
              Symbol.toChar_mem_characters_iff, Symbol.toChar_mem_characters_iff,
              Bool.and_eq_true]
          by_cases hboth : first.isOperator && second.isOperator
          · refine Or.inr ⟨1, by rw [adjacentOperators?, if_pos hboth], ?_, ?_⟩
            · exact (hfirst 0).mpr (Or.inl ⟨rfl, hboth⟩)
            · intro earlier hearlier
              obtain rfl : earlier = 0 := by omega
              exact id
          · rw [adjacentOperators?, if_neg hboth]
            rcases ih (position + 1) with ⟨hnone, hall⟩ | ⟨place, hsome, hadjoin, hearlier⟩
            · refine Or.inl ⟨hnone, fun place hadjoin => ?_⟩
              cases place with
              | zero => exact hadjoin
              | succ before =>
                  rcases (hfirst before).mp hadjoin with ⟨_, hboth'⟩ | hadjoin
                  · exact hboth hboth'
                  · exact hall before hadjoin
            · refine Or.inr ⟨place + 1, by rw [hsome, Nat.add_right_comm]; rfl, ?_, ?_⟩
              · exact (hfirst place).mpr (Or.inr hadjoin)
              · intro earlier hlt hadjoin
                cases earlier with
                | zero => exact hadjoin
                | succ before =>
                    rcases (hfirst before).mp hadjoin with ⟨_, hboth'⟩ | hadjoin
                    · exact hboth hboth'
                    · exact hearlier before (by omega) hadjoin

theorem dividesByZero_iff (symbols : List Symbol) :
    dividesByZero symbols = true ↔ [Symbol.operator .divide, .digit 0] <:+: symbols := by
  fun_induction dividesByZero symbols with
  | case1 first second rest ih =>
      rw [List.infix_cons_iff, ← ih, Bool.or_eq_true, Bool.and_eq_true, beq_iff_eq, beq_iff_eq,
        List.cons_prefix_cons, List.cons_prefix_cons, @eq_comm _ first, @eq_comm _ second]
      simp only [List.nil_prefix, and_true]
  | case2 symbols hshort =>
      refine ⟨by simp, fun hwindow => ?_⟩
      have hlength := hwindow.length_le
      rcases symbols with _ | ⟨first, _ | ⟨second, rest⟩⟩
      · simp at hlength
      · simp at hlength
      · exact (hshort first second rest rfl).elim

theorem infix_map_toChar_iff (symbols : List Symbol) :
    ['÷', '0'] <:+: symbols.map Symbol.toChar ↔
      [Symbol.operator .divide, .digit 0] <:+: symbols := by
  have hzero : ['÷', '0'] = [Symbol.operator .divide, .digit 0].map Symbol.toChar := rfl
  rw [List.infix_map_iff]
  constructor
  · rintro ⟨part, hpart, hmap⟩
    rw [hzero] at hmap
    rwa [List.map_injective_iff.mpr Symbol.toChar_injective hmap]
  · exact fun hwindow => ⟨_, hwindow, hzero⟩

/-! ## Rows without a fault -/

theorem read_fst_ne_nil_iff (position : Nat) (symbols : List Symbol) :
    (Operations.read position symbols).1 ≠ [] ↔ ∃ value, symbols.head? = some (.digit value) := by
  cases symbols with
  | nil => simp [Operations.read]
  | cons symbol rest =>
      rcases hrest : Operations.read (position + 1) rest with ⟨operand, behind⟩
      cases symbol with
      | digit value => simp [Operations.read_digit hrest]
      | operator op =>
          by_cases hoperand : operand = []
          · subst hoperand
            obtain ⟨error, hfault⟩ := Operations.read_operator_nil hrest op
            simp [hfault]
          · simp [Operations.read_operator hrest hoperand op]

/-- A row is read without a fault if no two operators stand together in it and none stands at its
end. -/
theorem sound_read {symbols : List Symbol} {start : Nat}
    (hlast : ∀ symbol, symbols.getLast? = some symbol → symbol.isOperator = false)
    (hadjacent : adjacentOperators? start symbols = none) (position : Nat) :
    (Operations.read position symbols).2.Sound := by
  induction symbols generalizing start position with
  | nil => trivial
  | cons symbol rest ih =>
      have hbehind : (Operations.read (position + 1) rest).2.Sound := by
        cases rest with
        | nil => trivial
        | cons second rest =>
            rw [adjacentOperators?] at hadjacent
            split at hadjacent
            · contradiction
            · exact ih (by simpa using hlast) hadjacent (position + 1)
      rcases hrest : Operations.read (position + 1) rest with ⟨operand, behind⟩
      rw [hrest] at hbehind
      cases symbol with
      | digit value =>
          rw [Operations.read_digit hrest]
          exact hbehind
      | operator op =>
          have hoperand : operand ≠ [] := by
            have hfirst := read_fst_ne_nil_iff (position + 1) rest
            rw [hrest] at hfirst
            refine hfirst.mpr ?_
            rcases rest with _ | ⟨value | second, rest⟩
            · simp [Symbol.isOperator] at hlast
            · exact ⟨value, rfl⟩
            · simp [adjacentOperators?, Symbol.isOperator] at hadjacent
          rw [Operations.read_operator hrest hoperand]
          exact ⟨hoperand, hbehind⟩

theorem hasOperation_cons {symbols : List Symbol} (hoperation : hasOperation symbols = true)
    (symbol : Symbol) : hasOperation (symbol :: symbols) = true := by
  rcases symbols with _ | ⟨first, _ | ⟨second, rest⟩⟩
  · contradiction
  · contradiction
  · rw [hasOperation, hoperation, Bool.or_true]

theorem hasOperation_row {first operand : Digits} (hfirst : first ≠ []) (hoperand : operand ≠ [])
    (op : Operator) (rest : Operations) :
    hasOperation (first.map .digit ++ (Operations.next op operand rest).symbols) = true := by
  obtain ⟨value, digits, rfl⟩ := List.exists_cons_of_ne_nil hoperand
  induction first with
  | nil => contradiction
  | cons digit first ih =>
      cases first with
      | nil => rfl
      | cons second first => exact hasOperation_cons (ih (by simp)) (.digit digit)

section Spelled

variable (spelling : Spelling)

theorem head?_toList : spelling.toList.head? = some spelling.head := by
  rcases spelling with ⟨⟨symbols⟩, hsize⟩
  cases symbols with
  | nil => contradiction
  | cons first rest => rfl

theorem getLast?_toList : spelling.toList.getLast? = some spelling.back := by
  rcases spelling with ⟨⟨symbols⟩, hsize⟩
  have hlength : symbols.length = 6 := hsize
  have hlast : symbols.length - 1 = 5 := by omega
  calc symbols.getLast? = symbols[symbols.length - 1]? := List.getLast?_eq_getElem?
    _ = symbols[5]? := by rw [hlast]
    _ = some symbols[5] := List.getElem?_eq_getElem (by omega)

theorem leadingOperator_breaks_iff :
    Malformed.leadingOperator.Breaks (spelling.toList.map Symbol.toChar) ↔
      spelling.head.isOperator = true := by
  have hhead := spelling.head?_toList
  simp only [Malformed.Breaks, OperatorAt, ← List.head?_eq_getElem?, List.head?_map, hhead,
    Option.map_some, Option.some.injEq, exists_eq_right', Symbol.toChar_mem_characters_iff]

theorem trailingOperator_breaks_iff :
    Malformed.trailingOperator.Breaks (spelling.toList.map Symbol.toChar) ↔
      spelling.back.isOperator = true := by
  have hlast := spelling.getLast?_toList
  simp only [Malformed.Breaks, List.getLast?_map, hlast, Option.map_some, Option.some.injEq,
    exists_eq_right', Symbol.toChar_mem_characters_iff]

theorem divisionByZero_breaks_iff :
    Malformed.divisionByZero.Breaks (spelling.toList.map Symbol.toChar) ↔
      dividesByZero spelling.toList = true := by
  rw [Malformed.Breaks, infix_map_toChar_iff, dividesByZero_iff]

theorem missingOperation_breaks_iff :
    Malformed.missingOperation.Breaks (spelling.toList.map Symbol.toChar) ↔
      ∀ symbol ∈ spelling.toList, symbol.isOperator = false := by
  simp only [Malformed.Breaks, List.forall_mem_map, Symbol.isDigit_toChar_iff]

/-- A spelling that breaks no rule is a row of numerals and operators, with an operator or more. -/
theorem exists_row_of_not_breaks
    (hbreaks : ∀ fault : Malformed, ¬fault.Breaks (spelling.toList.map Symbol.toChar)) :
    ∃ first op operand rest, first ≠ [] ∧ (Operations.next op operand rest).Sound ∧
      spelling.toList = first.map .digit ++ (Operations.next op operand rest).symbols := by
  have hhead := spelling.head?_toList
  have hlast := spelling.getLast?_toList
  have hadjacent : adjacentOperators? 0 spelling.toList = none := by
    rcases adjacentOperators?_cases 0 spelling.toList with ⟨hnone, _⟩ | ⟨place, _, hadjacent⟩
    · exact hnone
    · exact (hbreaks _ hadjacent).elim
  have hsound : (Operations.read 0 spelling.toList).2.Sound := by
    refine sound_read (fun symbol hsymbol => ?_) hadjacent 0
    have htrailing := mt spelling.trailingOperator_breaks_iff.mpr (hbreaks .trailingOperator)
    rw [hlast, Option.some.injEq] at hsymbol
    rwa [← hsymbol, ← Bool.not_eq_true]
  have hfirst : (Operations.read 0 spelling.toList).1 ≠ [] := by
    refine (read_fst_ne_nil_iff 0 spelling.toList).mpr ?_
    have hleading := mt spelling.leadingOperator_breaks_iff.mpr (hbreaks .leadingOperator)
    cases hsymbol : spelling.head with
    | digit value => exact ⟨value, hsymbol ▸ hhead⟩
    | operator op => simp [hsymbol, Symbol.isOperator] at hleading
  rcases hread : Operations.read 0 spelling.toList with ⟨first, operations⟩
  rw [hread] at hsound hfirst
  have hsymbols := Operations.eq_append_of_read hread hsound
  cases operations with
  | fault error => exact hsound.elim
  | next op operand rest => exact ⟨first, op, operand, rest, hfirst, hsound, hsymbols⟩
  | done =>
      refine (hbreaks .missingOperation (spelling.missingOperation_breaks_iff.mpr ?_)).elim
      rw [hsymbols, Operations.symbols, List.append_nil]
      intro symbol hsymbol
      obtain ⟨value, _, rfl⟩ := List.mem_map.mp hsymbol
      rfl

theorem keeps_alphabet : Malformed.Keeps (spelling.toList.map Symbol.toChar) 2 := by
  intro fault hrank hbreaks
  cases fault with
  | wrongLength length =>
      refine hbreaks.2 (hbreaks.1.trans ?_)
      rw [List.length_map]
      exact spelling.length_toList
  | invalidCharacter c position =>
      obtain ⟨hposition, hletter, _⟩ := hbreaks
      rw [List.getElem?_map, Option.map_eq_some_iff] at hposition
      obtain ⟨symbol, _, hsymbol⟩ := hposition
      exact hletter ((Symbol.isLetter_iff c).mpr ⟨symbol, hsymbol⟩)
  | _ => simp [Malformed.rank] at hrank

/-- When all other rules are kept, an operator is missing exactly if there is none. -/
theorem missingOperation_breaks_iff_of_keeps
    (hkeeps : Malformed.Keeps (spelling.toList.map Symbol.toChar) 6) :
    Malformed.missingOperation.Breaks (spelling.toList.map Symbol.toChar) ↔
      hasOperation spelling.toList = false := by
  constructor
  · intro hbreaks
    rw [missingOperation_breaks_iff] at hbreaks
    refine Bool.eq_false_iff.mpr fun hoperation => ?_
    obtain ⟨op, hop⟩ := exists_operator_of_hasOperation hoperation
    exact absurd (hbreaks _ (List.mem_of_mem_tail hop)) (by simp [Symbol.isOperator])
  · refine fun hoperation => by_contra fun hmissing => ?_
    have hall : ∀ fault : Malformed, ¬fault.Breaks (spelling.toList.map Symbol.toChar) := by
      intro fault
      cases fault with
      | missingOperation => exact hmissing
      | _ => exact hkeeps _ (by simp [Malformed.rank])
    obtain ⟨first, op, operand, rest, hfirst, hsound, hsymbols⟩ :=
      spelling.exists_row_of_not_breaks hall
    rw [hsymbols, hasOperation_row hfirst hsound.1] at hoperation
    contradiction

/-- The fault of a spelling is the first rule that its characters break. -/
theorem fault?_cases :
    (spelling.fault? = none ∧
        ∀ fault : Malformed, ¬fault.Breaks (spelling.toList.map Symbol.toChar)) ∨
      ∃ fault, spelling.fault? = some fault ∧
        fault.IsFirst (spelling.toList.map Symbol.toChar) := by
  have hletters := spelling.keeps_alphabet
  unfold fault?
  by_cases hleading : spelling.head.isOperator
  · refine Or.inr ⟨.leadingOperator, if_pos hleading, ?_, hletters⟩
    exact spelling.leadingOperator_breaks_iff.mpr hleading
  rw [if_neg hleading]
  have hfirst : Malformed.Keeps (spelling.toList.map Symbol.toChar) 3 := by
    refine hletters.succ fun fault hrank => ?_
    cases fault with
    | leadingOperator => exact mt spelling.leadingOperator_breaks_iff.mp hleading
    | _ => simp [Malformed.rank] at hrank
  by_cases htrailing : spelling.back.isOperator
  · refine Or.inr ⟨.trailingOperator, if_pos htrailing, ?_, hfirst⟩
    exact spelling.trailingOperator_breaks_iff.mpr htrailing
  rw [if_neg htrailing]
  have hlast : Malformed.Keeps (spelling.toList.map Symbol.toChar) 4 := by
    refine hfirst.succ fun fault hrank => ?_
    cases fault with
    | trailingOperator => exact mt spelling.trailingOperator_breaks_iff.mp htrailing
    | _ => simp [Malformed.rank] at hrank
  rcases adjacentOperators?_cases 0 spelling.toList with
    ⟨hnone, hadjoin⟩ | ⟨place, hsome, hbreaks⟩
  · rw [hnone]
    have hneighbours : Malformed.Keeps (spelling.toList.map Symbol.toChar) 5 := by
      refine hlast.succ fun fault hrank => ?_
      cases fault with
      | adjacentOperators place => exact fun hbreaks => hadjoin place hbreaks.1
      | _ => simp [Malformed.rank] at hrank
    by_cases hzero : dividesByZero spelling.toList
    · refine Or.inr ⟨.divisionByZero, if_pos hzero, ?_, hneighbours⟩
      exact spelling.divisionByZero_breaks_iff.mpr hzero
    have hdivisors : Malformed.Keeps (spelling.toList.map Symbol.toChar) 6 := by
      refine hneighbours.succ fun fault hrank => ?_
      cases fault with
      | divisionByZero => exact mt spelling.divisionByZero_breaks_iff.mp hzero
      | _ => simp [Malformed.rank] at hrank
    have hmissing := spelling.missingOperation_breaks_iff_of_keeps hdivisors
    simp only [hzero, Bool.false_eq_true, if_false]
    cases hoperation : hasOperation spelling.toList with
    | true =>
        refine Or.inl ⟨rfl, fun fault => ?_⟩
        cases fault with
        | missingOperation => simp [hmissing, hoperation]
        | _ => exact hdivisors _ (by simp [Malformed.rank])
    | false =>
        exact Or.inr ⟨.missingOperation, rfl, hmissing.mpr hoperation, hdivisors⟩
  · rw [hsome, Nat.zero_add]
    exact Or.inr ⟨.adjacentOperators place, rfl, hbreaks, hlast⟩

end Spelled

theorem isNumeral_map_toChar {digits : Digits} (hdigits : digits ≠ []) :
    IsNumeral ((digits.map Symbol.digit).map Symbol.toChar) := by
  refine ⟨by simpa using hdigits, ?_⟩
  simp [Symbol.isDigit_toChar]

theorem isExpression_map_toChar {first : Digits} (hfirst : first ≠ []) {operations : Operations}
    (hsound : operations.Sound) :
    IsExpression ((first.map Symbol.digit ++ operations.symbols).map Symbol.toChar) := by
  induction operations generalizing first with
  | fault error => exact hsound.elim
  | done =>
      rw [Operations.symbols, List.append_nil]
      exact .numeral (isNumeral_map_toChar hfirst)
  | next op operand rest ih =>
      rw [Operations.symbols, List.map_append, List.map_cons]
      exact .operation (isNumeral_map_toChar hfirst) op.toChar_mem (ih hsound.1 hsound.2)

/-- A row of six symbols without a zero behind a division sign has a value. -/
theorem exists_evaluate_eq {spelling : Spelling} {first : Digits} {operations : Operations}
    (hfirst : first ≠ []) (hsound : operations.Sound)
    (hdivisors : dividesByZero spelling.toList = false)
    (hrow : spelling.toList = first.map .digit ++ operations.symbols) :
    ∃ value, evaluate spelling.toList = .ok value := by
  have hlength : first.length + operations.symbols.length = 6 := by
    have hsymbols : spelling.toList.length = 6 := spelling.length_toList
    rwa [hrow, List.length_append, List.length_map] at hsymbols
  have hbehind : ¬[Symbol.operator .divide, .digit 0] <:+: operations.symbols := by
    intro hwindow
    have hwhole := hwindow.trans (List.suffix_append (first.map .digit) _).isInfix
    rw [← hrow, ← dividesByZero_iff, hdivisors] at hwhole
    contradiction
  have hwithin := Digits.within_value (show first.length ≤ 15 by omega)
  obtain ⟨value, hvalue⟩ := Operations.exists_value_eq hsound hbehind
    (show Operator.add.isMultiplicative = false from rfl) Binary64.within_zero hwithin (by omega)
  refine ⟨value, ?_⟩
  have hsymbols : (first.map Symbol.digit ++ operations.symbols).isEmpty = false := by
    simp [hfirst]
  have hnumeral : first.isEmpty = false := by simpa using hfirst
  rw [hrow, evaluate, hsymbols, Operations.read_append 0 first hsound]
  simp only [hnumeral, hvalue, Bool.false_eq_true, if_false]

end Spelling

namespace Equation

open Grammar

theorem ofSpelling_eq_ok {spelling : Spelling} {value : Rat} (hfault : spelling.fault? = none)
    (hvalue : evaluate spelling.toList = .ok value) :
    ofSpelling spelling = .ok ⟨spelling, value, hfault, hvalue⟩ :=
  ofSpelling_spelling ⟨spelling, value, hfault, hvalue⟩

theorem ofSpelling_eq_error {spelling : Spelling} {fault : Malformed}
    (hfault : spelling.fault? = some fault) :
    ofSpelling spelling = .error (.malformed fault) := by
  unfold ofSpelling
  split
  · next cause hcause => rw [Option.some.inj (hcause.symm.trans hfault)]
  · next hnone => simp [hnone] at hfault

/-- A text is an equation, which it spells, or it breaks a rule of the grammar. -/
theorem ofText_cases (text : String) :
    (∃ equation, ofText text = .ok equation ∧ equation.text = text ∧
        text.toList.length = 6 ∧ IsOperation text.toList ∧
        ∀ fault : Malformed, ¬fault.Breaks text.toList) ∨
      ∃ fault, ofText text = .error (.malformed fault) ∧ fault.IsFirst text.toList := by
  rcases Spelling.ofText_cases text with ⟨spelling, hspelling, htext⟩ | ⟨fault, herror, hfirst⟩
  · have hread : ofText text = ofSpelling spelling := by rw [ofText, hspelling]
    rcases spelling.fault?_cases with ⟨hnone, hbreaks⟩ | ⟨fault, hfault, hfirst⟩
    · obtain ⟨first, op, operand, rest, hfirst, hsound, hrow⟩ :=
        spelling.exists_row_of_not_breaks hbreaks
      have hdivisors : Spelling.dividesByZero spelling.toList = false :=
        Bool.eq_false_iff.mpr (mt spelling.divisionByZero_breaks_iff.mpr (hbreaks _))
      obtain ⟨value, hvalue⟩ := Spelling.exists_evaluate_eq hfirst hsound hdivisors hrow
      refine Or.inl ⟨_, hread.trans (ofSpelling_eq_ok hnone hvalue), ?_, ?_, ?_, ?_⟩
      · rw [Equation.text, Spelling.text, ← htext, String.ofList_toList]
      · rw [htext, List.length_map]
        exact spelling.length_toList
      · rw [htext, hrow, Operations.symbols, List.map_append, List.map_cons]
        exact ⟨_, _, _, Spelling.isNumeral_map_toChar hfirst, op.toChar_mem,
          Spelling.isExpression_map_toChar hsound.1 hsound.2, rfl⟩
      · rwa [htext]
    · exact Or.inr ⟨fault, hread.trans (ofSpelling_eq_error hfault), htext ▸ hfirst⟩
  · exact Or.inr ⟨fault, by rw [ofText, herror], hfirst⟩

theorem text_eq_of_ofText {text : String} {equation : Equation}
    (hread : ofText text = .ok equation) : equation.text = text := by
  rcases ofText_cases text with ⟨other, hother, htext, _⟩ | ⟨fault, hfault, _⟩
  · rwa [Except.ok.inj (hread.symm.trans hother)]
  · rw [hread] at hfault
    contradiction

/-- The texts that are read as equations are six characters long, numerals with operators between
them, and have no zero behind a division sign; they are written back as they were read.  Any other
text is refused for the first rule that it breaks, and never because the row has no value. -/
theorem ofText_eq_iff_grammar (text : String) :
    ((∃ equation, ofText text = .ok equation) ↔
        text.toList.length = 6 ∧ IsOperation text.toList ∧ ¬['÷', '0'] <:+: text.toList) ∧
      (∀ equation, ofText text = .ok equation → equation.text = text) ∧
      (∀ error, ofText text = .error error ↔
        ∃ fault, error = .malformed fault ∧ fault.IsFirst text.toList) ∧
      (ofText text = .error (.malformed .missingOperation) ↔
        text.toList.length = 6 ∧ ∀ c ∈ text.toList, c.isDigit) := by
  have hmissing := Malformed.isFirst_missingOperation_iff text.toList
  rcases ofText_cases text with ⟨equation, hread, htext, hlength, hoperation, hbreaks⟩ |
    ⟨fault, hread, hfirst⟩
  · refine ⟨?_, ?_, ?_, ?_⟩
    · exact ⟨fun _ => ⟨hlength, hoperation, hbreaks .divisionByZero⟩, fun _ => ⟨equation, hread⟩⟩
    · intro equation' hread'
      rwa [← Except.ok.inj (hread.symm.trans hread')]
    · intro error
      rw [hread]
      refine ⟨fun h => by contradiction, ?_⟩
      rintro ⟨fault, _, hfirst⟩
      exact (hbreaks fault hfirst.breaks).elim
    · rw [hread]
      exact ⟨fun h => by contradiction, fun h => (hbreaks _ (hmissing.mpr h).breaks).elim⟩
  · refine ⟨?_, ?_, ?_, ?_⟩
    · rw [hread]
      refine ⟨fun ⟨equation, h⟩ => by contradiction, ?_⟩
      rintro ⟨hlength, hoperation, hdivisors⟩
      exact (Malformed.not_breaks_of_isOperation hlength hoperation hdivisors fault
        hfirst.breaks).elim
    · intro equation hread'
      rw [hread] at hread'
      contradiction
    · intro error
      rw [hread, Except.error.injEq]
      constructor
      · rintro rfl
        exact ⟨fault, rfl, hfirst⟩
      · rintro ⟨fault', rfl, hfirst'⟩
        rw [hfirst.eq hfirst']
    · rw [hread, Except.error.injEq, InvalidEquation.malformed.injEq, ← hmissing]
      constructor
      · rintro rfl
        exact hfirst
      · exact hfirst.eq

end Equation

end EquationPuzzle
