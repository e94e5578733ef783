import EquationPuzzle.Proofs.Json.Scalars

/-!
# Reading back values

A written value is cut into the tokens that it consists of, and these are put together to the value
again.  Values that hold texts, whole numbers, words, lists and records of them are read back from
their compact form.
-/

namespace EquationPuzzle

namespace Json

/-! ## Tokens -/

theorem isBlank_of_readToken {c : Char} {rest : List Char} {read : Token × List Char}
    (hread : readToken (c :: rest) = some read) : isBlank c = false := by
  cases hblank : isBlank c with
  | false => rfl
  | true =>
      simp only [isBlank, Bool.or_eq_true, decide_eq_true_eq] at hblank
      have hnone : readToken (c :: rest) = none := by
        rcases hblank with ((rfl | rfl) | rfl) | rfl <;> rfl
      rw [hnone] at hread
      contradiction

/-- Tokens that stand in a text one behind the other. -/
inductive Cuts : List Char → List Token → Prop
  | done : Cuts [] []
  | token {text rest : List Char} {token : Token} {tokens : List Token} (hnonempty : text ≠ [])
      (hread : readToken (text ++ rest) = some (token, rest)) (hrest : Cuts rest tokens) :
      Cuts (text ++ rest) (token :: tokens)

theorem Cuts.tokens_eq {input : List Char} {cut : List Token} (hcuts : Cuts input cut) {fuel : Nat}
    (hfuel : input.length ≤ fuel) : tokens fuel input = some cut := by
  induction hcuts generalizing fuel with
  | done => cases fuel <;> rfl
  | @token text rest token cut hnonempty hread hrest ih =>
      rcases List.exists_cons_of_ne_nil hnonempty with ⟨c, more, rfl⟩
      rw [List.cons_append] at hread hfuel ⊢
      rw [List.length_cons, List.length_append] at hfuel
      rcases Nat.exists_eq_add_of_le' (show 1 ≤ fuel by omega) with ⟨less, rfl⟩
      have hshown : (c :: (more ++ rest)).dropWhile isBlank = c :: (more ++ rest) :=
        List.dropWhile_cons_of_neg (by simp [isBlank_of_readToken hread])
      have htokens := ih (show rest.length ≤ less by omega)
      rw [tokens, hshown]
      simp [hread, htokens]

mutual

def tokensOf : Json → List Token
  | array items => .openArray :: (tokensOfItems items ++ [.closeArray])
  | object members => .openObject :: (tokensOfMembers members ++ [.closeObject])
  | null => [.scalar null]
  | bool value => [.scalar (bool value)]
  | integer value => [.scalar (integer value)]
  | decimal negative significand exponent => [.scalar (decimal negative significand exponent)]
  | string text => [.scalar (string text)]
  | unpaired => [.scalar unpaired]

def tokensOfItems : List Json → List Token
  | [] => []
  | item :: rest =>
    tokensOf item ++ if rest.isEmpty then [] else .comma :: tokensOfItems rest

def tokensOfMembers : List (Json × Json) → List Token
  | [] => []
  | (key, value) :: rest =>
    .scalar key :: .colon :: (tokensOf value ++
      if rest.isEmpty then [] else .comma :: tokensOfMembers rest)

end

mutual

/-- A value without decimal numerals and with texts as keys. -/
def Plain : Json → Prop
  | array items => PlainItems items
  | object members => PlainMembers members
  | decimal _ _ _ => False
  | unpaired => False
  | null => True
  | bool _ => True
  | integer _ => True
  | string _ => True

def PlainItems : List Json → Prop
  | [] => True
  | item :: rest => Plain item ∧ PlainItems rest

def PlainMembers : List (Json × Json) → Prop
  | [] => True
  | (key, value) :: rest => (∃ text, key = string text) ∧ Plain value ∧ PlainMembers rest

end

theorem Cuts.mark {mark : Char} {token : Token} {rest : List Char} {tokens : List Token}
    (hrest : Cuts rest tokens) (hread : readToken (mark :: rest) = some (token, rest)) :
    Cuts (mark :: rest) (token :: tokens) :=
  Cuts.token (List.cons_ne_nil mark []) hread hrest

theorem Scalar.cuts {value : Json} (hscalar : Scalar value) {rest : List Char}
    {behind : List Token} (hstops : Stops rest) (hrest : Cuts rest behind) :
    Cuts (value.compact.toList ++ rest) (.scalar value :: behind) :=
  Cuts.token hscalar.compact_ne_nil (hscalar.readToken_eq hstops) hrest

theorem stops_cons {c : Char} {rest : List Char} (hc : c ∈ [',', ':', ']', '\x7d']) :
    Stops (c :: rest) := by
  intro first hfirst
  rw [List.head?_cons, Option.mem_some_iff] at hfirst
  rwa [← hfirst]

theorem toList_intercalate_cons (first : String) (rest : List String) :
    (",".intercalate (first :: rest)).toList =
      first.toList ++ if rest.isEmpty then [] else ',' :: (",".intercalate rest).toList := by
  cases rest with
  | nil => simp
  | cons second rest => simp [String.intercalate_cons_cons]

mutual

theorem cuts_compact (value : Json) (hplain : Plain value) {rest : List Char}
    {behind : List Token} (hstops : Stops rest) (hrest : Cuts rest behind) :
    Cuts (value.compact.toList ++ rest) (tokensOf value ++ behind) := by
  cases value with
  | null => exact Scalar.null.cuts hstops hrest
  | bool value => exact (Scalar.bool value).cuts hstops hrest
  | integer value => exact (Scalar.integer value).cuts hstops hrest
  | string text => exact (Scalar.string text).cuts hstops hrest
  | decimal => exact hplain.elim
  | unpaired => exact hplain.elim
  | array items =>
      have hclosed : Cuts (']' :: rest) (.closeArray :: behind) := hrest.mark rfl
      have hitems := cuts_items items hplain (stops_cons (by decide)) hclosed
      have hopened : Cuts ('[' :: _) (.openArray :: _) := hitems.mark rfl
      simpa [compact, tokensOf] using hopened
  | object members =>
      have hclosed : Cuts ('\x7d' :: rest) (.closeObject :: behind) := hrest.mark rfl
      have hmembers := cuts_members members hplain (stops_cons (by decide)) hclosed
      have hopened : Cuts ('\x7b' :: _) (.openObject :: _) := hmembers.mark rfl
      simpa [compact, tokensOf] using hopened

theorem cuts_items (items : List Json) (hplain : PlainItems items) {rest : List Char}
    {behind : List Token} (hstops : Stops rest) (hrest : Cuts rest behind) :
    Cuts ((",".intercalate (compactItems items)).toList ++ rest)
      (tokensOfItems items ++ behind) := by
  cases items with
  | nil => exact hrest
  | cons item others =>
      have hothers := cuts_items others hplain.2 hstops hrest
      rw [compactItems, toList_intercalate_cons, tokensOfItems]
      cases others with
      | nil => simpa [compactItems] using cuts_compact item hplain.1 hstops hrest
      | cons next more =>
          have hcomma : Cuts (',' :: _) (.comma :: _) := hothers.mark rfl
          have hitem := cuts_compact item hplain.1 (stops_cons (by decide)) hcomma
          simpa [compactItems] using hitem

theorem cuts_members (members : List (Json × Json)) (hplain : PlainMembers members)
    {rest : List Char} {behind : List Token} (hstops : Stops rest) (hrest : Cuts rest behind) :
    Cuts ((",".intercalate (compactMembers members)).toList ++ rest)
      (tokensOfMembers members ++ behind) := by
  cases members with
  | nil => exact hrest
  | cons member others =>
      rcases member with ⟨key, value⟩
      rcases hplain with ⟨⟨text, hkey⟩, hvalue, hmore⟩
      subst key
      have hothers := cuts_members others hmore hstops hrest
      rw [compactMembers, toList_intercalate_cons, tokensOfMembers]
      cases others with
      | nil =>
          have hvalue := cuts_compact value hvalue hstops hrest
          have hcolon : Cuts (':' :: _) (.colon :: _) := hvalue.mark rfl
          have hmember := (Scalar.string text).cuts (stops_cons (by decide)) hcolon
          simpa [compactMembers] using hmember
      | cons next more =>
          have hcomma : Cuts (',' :: _) (.comma :: _) := hothers.mark rfl
          have hvalue := cuts_compact value hvalue (stops_cons (by decide)) hcomma
          have hcolon : Cuts (':' :: _) (.colon :: _) := hvalue.mark rfl
          have hmember := (Scalar.string text).cuts (stops_cons (by decide)) hcolon
          simpa [compactMembers] using hmember

end

/-! ## Values -/

theorem exists_tokensOf_eq (value : Json) : ∃ first more, tokensOf value = first :: more ∧
    first ≠ .closeArray ∧ first ≠ .closeObject := by
  cases value with
  | array items => exact ⟨.openArray, _, rfl, nofun, nofun⟩
  | object members => exact ⟨.openObject, _, rfl, nofun, nofun⟩
  | _ => exact ⟨.scalar _, _, rfl, nofun, nofun⟩

section Steps

variable {fuel : Nat} {first : Token} {tokens rest : List Token}

theorem readValue_openArray {items : List Json} (hfirst : first ≠ .closeArray)
    (hread : readItems fuel (first :: tokens) = some (items, rest)) :
    readValue (fuel + 1) (.openArray :: first :: tokens) = some (.array items, rest) := by
  rw [readValue, hread]
  · rfl
  · exact fun more hsame => hfirst (List.cons.inj hsame).1

theorem readValue_openObject {members : List (Json × Json)} (hfirst : first ≠ .closeObject)
    (hread : readMembers fuel (first :: tokens) = some (members, rest)) :
    readValue (fuel + 1) (.openObject :: first :: tokens) = some (.object members, rest) := by
  rw [readValue, hread]
  · rfl
  · exact fun more hsame => hfirst (List.cons.inj hsame).1

theorem readItems_last {item : Json}
    (hread : readValue fuel tokens = some (item, .closeArray :: rest)) :
    readItems (fuel + 1) tokens = some ([item], rest) := by
  rw [readItems, hread]
  rfl

theorem readItems_comma {item : Json} {items : List Json} {more : List Token}
    (hread : readValue fuel tokens = some (item, .comma :: more))
    (hmore : readItems fuel more = some (items, rest)) :
    readItems (fuel + 1) tokens = some (item :: items, rest) := by
  rw [readItems, hread]
  simp [hmore]

@[simp] theorem isKey_string (text : String) : readMembers.isKey (.string text) = true := rfl

theorem readMembers_last (text : String) {value : Json}
    (hread : readValue fuel tokens = some (value, .closeObject :: rest)) :
    readMembers (fuel + 1) (.scalar (.string text) :: .colon :: tokens) =
      some ([(.string text, value)], rest) := by
  rw [readMembers, if_pos (isKey_string text), hread]
  rfl

theorem readMembers_comma (text : String) {value : Json} {members : List (Json × Json)}
    {more : List Token} (hread : readValue fuel tokens = some (value, .comma :: more))
    (hmore : readMembers fuel more = some (members, rest)) :
    readMembers (fuel + 1) (.scalar (.string text) :: .colon :: tokens) =
      some ((.string text, value) :: members, rest) := by
  rw [readMembers, if_pos (isKey_string text), hread]
  simp [hmore]

end Steps

theorem readValue_array {items : List Json} {first : Token} {tokens rest : List Token}
    {fuel : Nat} (hitems : tokensOfItems items = first :: tokens) (hfirst : first ≠ .closeArray)
    (hread : readItems fuel (tokensOfItems items ++ .closeArray :: rest) = some (items, rest)) :
    readValue (fuel + 1) (tokensOf (.array items) ++ rest) = some (.array items, rest) := by
  rw [hitems] at hread
  have hvalue := readValue_openArray hfirst hread
  simpa [tokensOf, hitems] using hvalue

mutual

theorem readValue_tokensOf (value : Json) (hplain : Plain value) {fuel : Nat}
    (hfuel : 2 * (tokensOf value).length ≤ fuel) (rest : List Token) :
    readValue fuel (tokensOf value ++ rest) = some (value, rest) := by
  -- Each call takes one unit of fuel, and no token is met by more than two calls.
  have hpositive : 1 ≤ fuel := by
    rcases exists_tokensOf_eq value with ⟨first, more, htokens, _⟩
    rw [htokens, List.length_cons] at hfuel
    omega
  rcases Nat.exists_eq_add_of_le' hpositive with ⟨less, hless⟩
  subst fuel
  cases value with
  | null => rfl
  | bool value => rfl
  | integer value => rfl
  | string text => rfl
  | decimal => exact hplain.elim
  | unpaired => exact hplain.elim
  | array items =>
      have hitems := readItems_tokensOf items hplain rest
      rw [tokensOf, List.length_cons, List.length_append] at hfuel
      cases items with
      | nil => rfl
      | cons item others =>
          rcases exists_tokensOf_eq item with ⟨first, more, htokens, hopening, _⟩
          have hread := hitems (List.cons_ne_nil _ _) (show _ ≤ less by omega)
          exact readValue_array (by rw [tokensOfItems, htokens, List.cons_append]) hopening hread
  | object members =>
      have hmembers := readMembers_tokensOf members hplain rest
      rw [tokensOf, List.length_cons, List.length_append] at hfuel
      cases members with
      | nil => rfl
      | cons member others =>
          have hread := hmembers (List.cons_ne_nil _ _) (show _ ≤ less by omega)
          have hvalue : readValue (less + 1)
              (.openObject :: (tokensOfMembers (member :: others) ++ .closeObject :: rest)) = _ :=
            readValue_openObject nofun hread
          simpa [tokensOf] using hvalue

theorem readItems_tokensOf (items : List Json) (hplain : PlainItems items) (rest : List Token)
    (hnonempty : items ≠ []) {fuel : Nat} (hfuel : 2 * (tokensOfItems items).length + 1 ≤ fuel) :
    readItems fuel (tokensOfItems items ++ .closeArray :: rest) = some (items, rest) := by
  rcases Nat.exists_eq_add_of_le' (show 1 ≤ fuel by omega) with ⟨less, hless⟩
  subst fuel
  cases items with
  | nil => contradiction
  | cons item others =>
      have hothers := readItems_tokensOf others hplain.2 rest
      rw [tokensOfItems, List.length_append] at hfuel
      rw [tokensOfItems, List.append_assoc]
      have hitem := readValue_tokensOf item hplain.1 (show _ ≤ less by omega)
      cases others with
      | nil => exact readItems_last (hitem _)
      | cons next more =>
          rw [List.isEmpty_cons, if_neg Bool.false_ne_true, List.length_cons] at hfuel
          have hread := hothers (List.cons_ne_nil _ _) (show _ ≤ less by omega)
          exact readItems_comma (hitem _) hread

theorem readMembers_tokensOf (members : List (Json × Json)) (hplain : PlainMembers members)
    (rest : List Token) (hnonempty : members ≠ []) {fuel : Nat}
    (hfuel : 2 * (tokensOfMembers members).length + 1 ≤ fuel) :
    readMembers fuel (tokensOfMembers members ++ .closeObject :: rest) = some (members, rest) := by
  rcases Nat.exists_eq_add_of_le' (show 1 ≤ fuel by omega) with ⟨less, hless⟩
  subst fuel
  cases members with
  | nil => contradiction
  | cons member others =>
      rcases member with ⟨key, value⟩
      rcases hplain with ⟨⟨text, hkey⟩, hvalue, hmore⟩
      subst key
      have hothers := readMembers_tokensOf others hmore rest
      rw [tokensOfMembers, List.length_cons, List.length_cons, List.length_append] at hfuel
      have hread := readValue_tokensOf value hvalue (show _ ≤ less by omega)
      cases others with
      | nil =>
          have hlast := readMembers_last text (hread (.closeObject :: rest))
          simpa [tokensOfMembers] using hlast
      | cons next more =>
          rw [List.isEmpty_cons, if_neg Bool.false_ne_true, List.length_cons] at hfuel
          have hrest := hothers (List.cons_ne_nil _ _) (show _ ≤ less by omega)
          have hcomma := readMembers_comma text (hread (.comma :: _)) hrest
          rw [tokensOfMembers, List.isEmpty_cons, if_neg Bool.false_ne_true]
          simpa using hcomma

end

/-- A value is read back from its compact form. -/
theorem ofText?_compact {value : Json} (hplain : Plain value) :
    ofText? value.compact = some value := by
  have hcuts := cuts_compact value hplain (show Stops [] by simp [Stops]) .done
  rw [List.append_nil, List.append_nil] at hcuts
  have htokens := hcuts.tokens_eq (Nat.le_refl _)
  have hread := readValue_tokensOf value hplain
    (show _ ≤ 2 * (tokensOf value).length + 2 by omega) []
  rw [List.append_nil] at hread
  simp [ofText?, htokens, hread]

end Json

end EquationPuzzle
