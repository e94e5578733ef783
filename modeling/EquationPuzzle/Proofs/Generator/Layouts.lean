import EquationPuzzle.Proofs.Chance
import EquationPuzzle.Generator

/-!
# Layouts of templates

Each template has a layout: its operators stand in fixed places, and no numeral starts with a zero.
The rows that a template can draw are those with its layout, and it can draw all of them.
-/

namespace EquationPuzzle

namespace Template

/-- The row of symbols has the layout of the template. -/
inductive Spells : Template → List Symbol → Prop
  | productPlusDigit {a b c d : Fin 10} (ha : a ≠ 0) (hc : c ≠ 0) (hd : d ≠ 0) :
      Spells .productPlusDigit
        [.digit a, .digit b, .operator .multiply, .digit c, .operator .add, .digit d]
  | digitsPlusTens {a b c d : Fin 10} {op : Operator} (ha : a ≠ 0) (hb : b ≠ 0) (hc : c ≠ 0)
      (hop : op = .add ∨ op = .subtract) :
      Spells .digitsPlusTens
        [.digit a, .operator .add, .digit b, .operator op, .digit c, .digit d]
  | tensPlusDigits {a b c d : Fin 10} {op : Operator} (ha : a ≠ 0) (hc : c ≠ 0) (hd : d ≠ 0)
      (hop : op = .add ∨ op = .subtract) :
      Spells .tensPlusDigits
        [.digit a, .digit b, .operator .add, .digit c, .operator op, .digit d]
  | productPlusTens {a b c d : Fin 10} (ha : a ≠ 0) (hb : b ≠ 0) (hc : c ≠ 0) :
      Spells .productPlusTens
        [.digit a, .operator .multiply, .digit b, .operator .add, .digit c, .digit d]
  | digitPlusProduct {a b c d : Fin 10} (ha : a ≠ 0) (hb : b ≠ 0) (hc : c ≠ 0) :
      Spells .digitPlusProduct
        [.digit a, .operator .add, .digit b, .operator .multiply, .digit c, .digit d]
  | quotientPlusTens {a b c d : Fin 10} {op : Operator} (ha : a ≠ 0) (hb : b ≠ 0) (hc : c ≠ 0)
      (hop : op = .add ∨ op = .subtract) :
      Spells .quotientPlusTens
        [.digit a, .operator .divide, .digit b, .operator op, .digit c, .digit d]

/-- The symbol may stand in the place. -/
inductive Place.Allows : Place → Symbol → Prop
  | nonzero {value : Fin 10} (hvalue : value ≠ 0) : Allows .nonzero (.digit value)
  | anyDigit {value : Fin 10} : Allows .anyDigit (.digit value)
  | fixed {op : Operator} : Allows (.fixed op) (.operator op)
  | additive {op : Operator} (hop : op = .add ∨ op = .subtract) : Allows .additive (.operator op)

theorem spells_iff_forall₂ (template : Template) (symbols : List Symbol) :
    template.Spells symbols ↔ List.Forall₂ Place.Allows template.places.toList symbols := by
  constructor
  · intro hspells
    cases hspells with
    | productPlusDigit ha hc hd =>
        exact .cons (.nonzero ha) (.cons .anyDigit (.cons .fixed (.cons (.nonzero hc)
          (.cons .fixed (.cons (.nonzero hd) .nil)))))
    | digitsPlusTens ha hb hc hop =>
        exact .cons (.nonzero ha) (.cons .fixed (.cons (.nonzero hb) (.cons (.additive hop)
          (.cons (.nonzero hc) (.cons .anyDigit .nil)))))
    | tensPlusDigits ha hc hd hop =>
        exact .cons (.nonzero ha) (.cons .anyDigit (.cons .fixed (.cons (.nonzero hc)
          (.cons (.additive hop) (.cons (.nonzero hd) .nil)))))
    | productPlusTens ha hb hc =>
        exact .cons (.nonzero ha) (.cons .fixed (.cons (.nonzero hb) (.cons .fixed
          (.cons (.nonzero hc) (.cons .anyDigit .nil)))))
    | digitPlusProduct ha hb hc =>
        exact .cons (.nonzero ha) (.cons .fixed (.cons (.nonzero hb) (.cons .fixed
          (.cons (.nonzero hc) (.cons .anyDigit .nil)))))
    | quotientPlusTens ha hb hc hop =>
        exact .cons (.nonzero ha) (.cons .fixed (.cons (.nonzero hb) (.cons (.additive hop)
          (.cons (.nonzero hc) (.cons .anyDigit .nil)))))
  · intro hplaces
    cases template with
    | productPlusDigit =>
        obtain _ | ⟨⟨ha⟩, _ | ⟨⟨⟩, _ | ⟨⟨⟩, _ | ⟨⟨hc⟩, _ | ⟨⟨⟩, _ | ⟨⟨hd⟩, _ | _⟩⟩⟩⟩⟩⟩ := hplaces
        exact .productPlusDigit ha hc hd
    | digitsPlusTens =>
        obtain _ | ⟨⟨ha⟩, _ | ⟨⟨⟩, _ | ⟨⟨hb⟩, _ | ⟨_ | _ | _ | hop, _ | ⟨⟨hc⟩, _ |
          ⟨⟨⟩, _ | _⟩⟩⟩⟩⟩⟩ := hplaces
        exact .digitsPlusTens ha hb hc hop
    | tensPlusDigits =>
        obtain _ | ⟨⟨ha⟩, _ | ⟨⟨⟩, _ | ⟨⟨⟩, _ | ⟨⟨hc⟩, _ | ⟨_ | _ | _ | hop, _ |
          ⟨⟨hd⟩, _ | _⟩⟩⟩⟩⟩⟩ := hplaces
        exact .tensPlusDigits ha hc hd hop
    | productPlusTens =>
        obtain _ | ⟨⟨ha⟩, _ | ⟨⟨⟩, _ | ⟨⟨hb⟩, _ | ⟨⟨⟩, _ | ⟨⟨hc⟩, _ | ⟨⟨⟩, _ | _⟩⟩⟩⟩⟩⟩ := hplaces
        exact .productPlusTens ha hb hc
    | digitPlusProduct =>
        obtain _ | ⟨⟨ha⟩, _ | ⟨⟨⟩, _ | ⟨⟨hb⟩, _ | ⟨⟨⟩, _ | ⟨⟨hc⟩, _ | ⟨⟨⟩, _ | _⟩⟩⟩⟩⟩⟩ := hplaces
        exact .digitPlusProduct ha hb hc
    | quotientPlusTens =>
        obtain _ | ⟨⟨ha⟩, _ | ⟨⟨⟩, _ | ⟨⟨hb⟩, _ | ⟨_ | _ | _ | hop, _ | ⟨⟨hc⟩, _ |
          ⟨⟨⟩, _ | _⟩⟩⟩⟩⟩⟩ := hplaces
        exact .quotientPlusTens ha hb hc hop

/-! ## Rows that are drawn -/

theorem always_drawDigit (place : Place) :
    place.drawDigit.Always fun draft => place = .additive ∨ place.Allows draft := by
  intro source
  cases place with
  | nonzero => exact Or.inr (.nonzero (Fin.succ_ne_zero _))
  | anyDigit => exact Or.inr .anyDigit
  | fixed op => exact Or.inr .fixed
  | additive => exact Or.inl rfl

theorem always_drawOperator {place : Place} {draft : Symbol}
    (hdraft : place = .additive ∨ place.Allows draft) :
    (place.drawOperator draft).Always place.Allows := by
  cases place with
  | additive =>
      have hcoin : Draw.coin.Always fun _ => True := fun _ => trivial
      refine hcoin.bind fun side _ source => ?_
      cases side with
      | true => exact .additive (Or.inl rfl)
      | false => exact .additive (Or.inr rfl)
  | nonzero => exact fun _ => hdraft.resolve_left (by simp)
  | anyDigit => exact fun _ => hdraft.resolve_left (by simp)
  | fixed op => exact fun _ => hdraft.resolve_left (by simp)

theorem exists_draft {place : Place} {symbol : Symbol} (hallows : place.Allows symbol) :
    ∃ draft, place.drawDigit.Reaches draft ∧ (place.drawOperator draft).Reaches symbol := by
  cases hallows with
  | @nonzero value hvalue =>
      refine ⟨.digit value, ?_, Draw.reaches_pure _⟩
      obtain ⟨before, rfl⟩ : ∃ before : Fin 9, before.succ = value :=
        ⟨_, Fin.succ_pred value hvalue⟩
      exact (Draw.reaches_below (by decide) _ before).bind (Draw.reaches_pure _)
  | @anyDigit value =>
      exact ⟨.digit value, (Draw.reaches_below (by decide) _ value).bind (Draw.reaches_pure _),
        Draw.reaches_pure _⟩
  | @fixed op => exact ⟨.operator op, Draw.reaches_pure _, Draw.reaches_pure _⟩
  | additive hop =>
      refine ⟨.operator .add, Draw.reaches_pure _, ?_⟩
      rcases hop with rfl | rfl
      · exact (Draw.reaches_coin true).bind (Draw.reaches_pure _)
      · exact (Draw.reaches_coin false).bind (Draw.reaches_pure _)

/-- The symbols of the row that a template draws. -/
def drawSymbols (places : List Place) : Draw (List Symbol) := do
  let drafts ← places.mapM Place.drawDigit
  (drafts.zip places).mapM fun pair => pair.2.drawOperator pair.1

theorem always_drawSymbols (places : List Place) :
    (drawSymbols places).Always (List.Forall₂ Place.Allows places) := by
  refine (Draw.always_mapM places fun place _ => always_drawDigit place).bind
    fun drafts hdrafts => ?_
  obtain ⟨hlength, hzip⟩ := List.forall₂_iff_zip.mp hdrafts.flip
  have hdraw := Draw.always_mapM (drafts.zip places)
    fun pair hpair => always_drawOperator (hzip hpair)
  intro source
  have hsymbols := List.forall₂_map_left_iff.mpr (hdraw source)
  rwa [List.map_snd_zip (Nat.le_of_eq hlength.symm)] at hsymbols

theorem reaches_drawSymbols {places : List Place} {symbols : List Symbol}
    (hallows : List.Forall₂ Place.Allows places symbols) :
    (drawSymbols places).Reaches symbols := by
  have hdrafts : ∃ drafts,
      List.Forall₂ (fun place draft => place.drawDigit.Reaches draft) places drafts ∧
        List.Forall₂ (fun pair symbol => (pair.2.drawOperator pair.1).Reaches symbol)
          (drafts.zip places) symbols := by
    induction hallows with
    | nil => exact ⟨[], .nil, .nil⟩
    | cons hfirst _ ih =>
        obtain ⟨draft, hdraft, hsymbol⟩ := exists_draft hfirst
        obtain ⟨drafts, hdrafts, hsymbols⟩ := ih
        exact ⟨draft :: drafts, .cons hdraft hdrafts, .cons hsymbol hsymbols⟩
  obtain ⟨drafts, hdrafts, hsymbols⟩ := hdrafts
  exact (Draw.reaches_mapM hdrafts).bind (Draw.reaches_mapM hsymbols)

theorem toList_mapM {α β : Type} {count : Nat} (draw : α → Draw β) (items : Vector α count) :
    Vector.toList <$> items.mapM draw = items.toList.mapM draw := by
  have hlist : items.toList.mapM draw = Array.toList <$> items.toArray.mapM draw :=
    Array.toList_mapM.symm
  rw [hlist, ← Vector.toArray_mapM, Functor.map_map]
  rfl

theorem toList_instantiate (template : Template) :
    Vector.toList <$> template.instantiate = drawSymbols template.places.toList := by
  rw [instantiate, map_bind, drawSymbols, ← toList_mapM, bind_map_left]
  refine bind_congr fun drafts => ?_
  rw [toList_mapM, Vector.toList_zip]

/-- What a template draws has its layout. -/
theorem spells_of_instantiate (template : Template) (source : WordSource) :
    template.Spells (template.instantiate.run source).1.toList := by
  have hdrawn := always_drawSymbols template.places.toList source
  rw [← toList_instantiate] at hdrawn
  exact (spells_iff_forall₂ template _).mpr hdrawn

theorem answers_instantiate {template : Template} {spelling : Spelling} {words : List UInt32}
    (hwords : (drawSymbols template.places.toList).Answers words spelling.toList) :
    template.instantiate.Answers words spelling := by
  intro source hsource
  have hrun := hwords source hsource
  rw [← toList_instantiate] at hrun
  obtain ⟨hsymbols, hrest⟩ := Prod.mk.inj hrun
  exact Prod.ext (Vector.toList_inj.mp hsymbols) hrest

/-- Every row with the layout of a template can be drawn. -/
theorem reaches_instantiate {template : Template} {spelling : Spelling}
    (hspells : template.Spells spelling.toList) : template.instantiate.Reaches spelling := by
  obtain ⟨words, hwords⟩ :=
    reaches_drawSymbols ((spells_iff_forall₂ template _).mp hspells)
  exact ⟨words, answers_instantiate hwords⟩

end Template

end EquationPuzzle
