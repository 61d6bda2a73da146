import FieldGuide.Example.Draft
import FieldGuide.Proofs.Example.DistinctKeys
import FieldGuide.Proofs.Except
import FieldGuide.Proofs.Keyed
import FieldGuide.Proofs.Number.Text
import Mathlib.Data.List.Forall2

/-!
# Keys of drafts

The keys of a draft's mapping are values, and its tree has their texts as keys. Values
that differ may have one text: this module shows that among scalars only a text and the
number or boolean that it spells do.
-/

namespace FieldGuide.Draft

mutual

/-- Whether the keys of every mapping in a draft pass a test, at any depth below items,
values and tags. -/
def everyMapping (test : List Draft → Bool) : Draft → Bool
  | .sequence items => everyMappingItems test items
  | .mapping entries => test (entries.map Prod.fst) && everyMappingEntries test entries
  | .tagged _ content => everyMapping test content
  | _ => true

/-- Whether the keys of every mapping in the items pass a test. -/
def everyMappingItems (test : List Draft → Bool) : List Draft → Bool
  | [] => true
  | item :: rest => everyMapping test item && everyMappingItems test rest

/-- Whether the keys of every mapping in the values of the entries pass a test. -/
def everyMappingEntries (test : List Draft → Bool) : List (Draft × Draft) → Bool
  | [] => true
  | (_, value) :: rest => everyMapping test value && everyMappingEntries test rest

end

/-- The mappings in the values of entries are those in the value of each entry. -/
theorem everyMappingEntries_iff {test : List Draft → Bool} {entries : List (Draft × Draft)} :
    everyMappingEntries test entries = true ↔
      ∀ entry ∈ entries, entry.2.everyMapping test = true := by
  induction entries with
  | nil => simp [everyMappingEntries]
  | cons entry rest inductionHypothesis =>
      rw [everyMappingEntries, Bool.and_eq_true, inductionHypothesis, List.forall_mem_cons]

/-- Whether a text is the text of a number or a boolean. -/
def spells : Draft → Draft → Bool
  | .text written, .bool value => written == .ofList (Json.boolText value)
  | .text written, .number value => written == .ofList value.yamlText
  | _, _ => false

/-- Whether no text among keys is the text of a number or a boolean among them. -/
def readApart (keys : List Draft) : Bool :=
  decide (keys.Pairwise fun left right => left.spells right = false ∧ right.spells left = false)

/-- A number equals itself as a reader sees it. -/
theorem same_number (number : Number) : same (.number number) (.number number) = true := by
  rw [same, number.same_refl]

/-- A key that has a text is a text, a boolean or a number. -/
theorem scalar_of_keyText {key : Draft} {text : String} (encoded : key.keyText = .ok text) :
    key = .text text ∨ (∃ value, key = .bool value ∧ text = .ofList (Json.boolText value)) ∨
      ∃ value, key = .number value ∧ text = .ofList value.yamlText := by
  cases key with
  | text value =>
      obtain rfl := Except.ok.inj encoded
      exact .inl rfl
  | bool value => exact .inr (.inl ⟨value, rfl, (Except.ok.inj encoded).symm⟩)
  | number value => exact .inr (.inr ⟨value, rfl, (Except.ok.inj encoded).symm⟩)
  | null | sequence items | mapping entries | tagged tag content => cases encoded

/-- Two scalar keys that differ have one text when one of them spells the other. -/
theorem keyText_eq_iff {left right : Draft} {leftText rightText : String}
    (leftEncoded : left.keyText = .ok leftText) (rightEncoded : right.keyText = .ok rightText)
    (differ : right.same left = false) :
    leftText = rightText ↔ left.spells right = true ∨ right.spells left = true := by
  rcases scalar_of_keyText leftEncoded with
    rfl | ⟨leftValue, rfl, rfl⟩ | ⟨leftValue, rfl, rfl⟩
  · rcases scalar_of_keyText rightEncoded with
      rfl | ⟨rightValue, rfl, rfl⟩ | ⟨rightValue, rfl, rfl⟩
    · have apart : rightText ≠ leftText := by simpa [same] using differ
      simp [spells, apart.symm]
    · simp [spells]
    · simp [spells]
  · rcases scalar_of_keyText rightEncoded with
      rfl | ⟨rightValue, rfl, rfl⟩ | ⟨rightValue, rfl, rfl⟩
    · rw [eq_comm]
      simp [spells]
    · have apart : rightValue ≠ leftValue := by simpa [same] using differ
      have texts : Json.boolText leftValue ≠ Json.boolText rightValue := by
        cases leftValue <;> cases rightValue <;> first | exact absurd rfl apart | decide
      simp [spells, String.ofList_inj, texts]
    · have apart := rightValue.yamlText_ne_boolText leftValue
      simp [spells, String.ofList_inj, apart.symm]
  · rcases scalar_of_keyText rightEncoded with
      rfl | ⟨rightValue, rfl, rfl⟩ | ⟨rightValue, rfl, rfl⟩
    · rw [eq_comm]
      simp [spells]
    · have apart := leftValue.yamlText_ne_boolText rightValue
      simp [spells, String.ofList_inj, apart]
    · have apart : leftValue.yamlText ≠ rightValue.yamlText := by
        intro equal
        obtain rfl := Number.yamlText_injective equal
        rw [same_number] at differ
        cases differ
      simp [spells, String.ofList_inj, apart]

/-- The text of a key is not among those of others that it differs from when none of them
spells the other. -/
theorem not_mem_iff_readApart {key : Draft} {text : String} {keys : List Draft}
    {texts : List String} (first : key.keyText = .ok text)
    (encoded : List.Forall₂ (fun key text => keyText key = .ok text) keys texts)
    (differ : ∀ other ∈ keys, other.same key = false) :
    text ∉ texts ↔ ∀ other ∈ keys, key.spells other = false ∧ other.spells key = false := by
  induction encoded with
  | nil => simp
  | cons other _ inductionHypothesis =>
      obtain ⟨otherDiffers, restDiffer⟩ := List.forall_mem_cons.mp differ
      rw [List.mem_cons, not_or, List.forall_mem_cons, inductionHypothesis restDiffer,
        keyText_eq_iff first other otherDiffers]
      simp

/-- Keys that differ have distinct texts when they read apart. -/
theorem nodup_iff_readApart {keys : List Draft} {texts : List String}
    (encoded : List.Forall₂ (fun key text => keyText key = .ok text) keys texts)
    (differ : Keyed.keysDiffer keys = true) : texts.Nodup ↔ readApart keys = true := by
  rw [Keyed.keysDiffer_iff] at differ
  rw [readApart, decide_eq_true_iff]
  induction encoded with
  | nil => simp
  | cons first others inductionHypothesis =>
      obtain ⟨firstDiffers, othersDiffer⟩ := List.pairwise_cons.mp differ
      rw [List.nodup_cons, List.pairwise_cons, inductionHypothesis othersDiffer,
        not_mem_iff_readApart first others firstDiffers]

/-- The trees of items are made one by one. -/
theorem toTrees_eq_mapM (items : List Draft) : toTrees items = items.mapM toTree := by
  induction items with
  | nil => rfl
  | cons item rest inductionHypothesis => rw [toTrees, inductionHypothesis, List.mapM_cons]

/-- An entry with the text of its key. -/
def toTreeEntry (entry : Draft × Draft) : Except EncodeError (String × Tree) := do
  let key ← keyText entry.1
  let value ← toTree entry.2
  return (key, value)

/-- Entries get the texts of their keys one by one. -/
theorem toTreeEntries_eq_mapM (entries : List (Draft × Draft)) :
    toTreeEntries entries = entries.mapM toTreeEntry := by
  induction entries with
  | nil => rfl
  | cons entry rest inductionHypothesis =>
      rw [toTreeEntries, inductionHypothesis, List.mapM_cons]
      simp only [toTreeEntry, bind_assoc, pure_bind]

/-- The keys of a tree's mapping are the texts of the keys of the draft. -/
theorem keyTexts_of_toTreeEntries {entries : List (Draft × Draft)}
    {pairs : List (String × Tree)} (encoded : toTreeEntries entries = .ok pairs) :
    List.Forall₂ (fun key text => keyText key = .ok text) (entries.map Prod.fst)
      (pairs.map Prod.fst) := by
  rw [toTreeEntries_eq_mapM, mapM_eq_ok] at encoded
  rw [List.forall₂_map_left_iff, List.forall₂_map_right_iff]
  refine encoded.imp fun entry pair one => ?_
  obtain ⟨text, keyed, inside⟩ := bind_eq_ok.mp one
  obtain ⟨value, -, rfl⟩ := bind_pure_eq_ok.mp inside
  exact keyed

/-- Whether the keys of a draft's entries are texts, with the trees of the values under them. -/
def EncodesTexts (entries : List (Draft × Draft)) (pairs : List (String × Tree)) : Prop :=
  List.Forall₂ (fun entry pair => entry.1 = .text pair.1 ∧ entry.2.toTree = .ok pair.2)
    entries pairs

/-- Entries under texts have the entries of a tree. -/
theorem toTreeEntries_of_texts {entries : List (Draft × Draft)} {pairs : List (String × Tree)}
    (encoded : EncodesTexts entries pairs) : toTreeEntries entries = .ok pairs := by
  rw [toTreeEntries_eq_mapM, mapM_eq_ok]
  refine encoded.imp ?_
  rintro ⟨key, value⟩ pair ⟨rfl, inner⟩
  exact bind_eq_ok.mpr ⟨pair.1, rfl, bind_pure_eq_ok.mpr ⟨pair.2, inner, rfl⟩⟩

/-- Texts are compared as they are. -/
theorem beq_text (left right : String) : (text left == text right) = (left == right) := by
  change same _ _ = _
  rw [same]

/-- Setting a text sets the same text in the tree. -/
theorem encodesTexts_put {key : String} {value : Draft} {tree : Tree}
    {entries : List (Draft × Draft)} {pairs : List (String × Tree)}
    (inner : value.toTree = .ok tree) (encoded : EncodesTexts entries pairs) :
    EncodesTexts (Keyed.put (.text key) value entries) (Keyed.put key tree pairs) := by
  induction encoded with
  | nil => exact .cons ⟨rfl, inner⟩ .nil
  | @cons entry pair rest others first onward inductionHypothesis =>
      obtain ⟨name, old⟩ := entry
      obtain ⟨text, oldTree⟩ := pair
      obtain ⟨rfl, oldInner⟩ := first
      rw [Keyed.put, Keyed.put, beq_text]
      split
      · exact .cons ⟨rfl, inner⟩ onward
      · exact .cons ⟨rfl, oldInner⟩ inductionHypothesis

/-- Collecting entries under texts collects those of the tree. -/
theorem encodesTexts_collect {entries : List (Draft × Draft)} {pairs : List (String × Tree)}
    (encoded : EncodesTexts entries pairs) :
    EncodesTexts (Keyed.collect entries) (Keyed.collect pairs) := by
  have run (collected : List (Draft × Draft)) (shown : List (String × Tree))
      (held : EncodesTexts collected shown) :
      EncodesTexts (entries.foldl (fun all entry => Keyed.put entry.1 entry.2 all) collected)
        (pairs.foldl (fun all pair => Keyed.put pair.1 pair.2 all) shown) := by
    induction encoded generalizing collected shown with
    | nil => exact held
    | @cons entry pair _ _ first _ inductionHypothesis =>
        obtain ⟨key, value⟩ := entry
        obtain ⟨rfl, inner⟩ := first
        exact inductionHypothesis _ _ (encodesTexts_put inner held)
  exact run [] [] .nil

mutual

/-- The tree of a draft whose keys differ has distinct keys when those of every mapping
read apart. -/
theorem hasDistinctKeys_toTree : ∀ {draft : Draft} {tree : Tree}, draft.toTree = .ok tree →
    draft.everyMapping Keyed.keysDiffer = true →
      (tree.hasDistinctKeys = true ↔ draft.everyMapping readApart = true)
  | .null, _, encoded, _ | .bool _, _, encoded, _ | .number _, _, encoded, _
  | .text _, _, encoded, _ => by
      obtain rfl := Except.ok.inj encoded
      simp [Tree.hasDistinctKeys, everyMapping]
  | .sequence items, _, encoded, differ => by
      obtain ⟨trees, members, rfl⟩ := bind_pure_eq_ok.mp encoded
      rw [Tree.hasDistinctKeys, everyMapping]
      exact allHaveDistinctKeys_toTrees members differ
  | .mapping entries, _, encoded, differ => by
      obtain ⟨pairs, members, rfl⟩ := bind_pure_eq_ok.mp encoded
      obtain ⟨keysDiffer, valuesDiffer⟩ := Bool.and_eq_true_iff.mp differ
      rw [Tree.hasDistinctKeys, everyMapping, Bool.and_eq_true, Bool.and_eq_true,
        decide_eq_true_iff, nodup_iff_readApart (keyTexts_of_toTreeEntries members) keysDiffer,
        valuesHaveDistinctKeys_toTreeEntries members valuesDiffer]
  | .tagged tag content, _, encoded, differ => by
      obtain ⟨tree, inner, rfl⟩ := bind_pure_eq_ok.mp encoded
      rw [everyMapping, Tree.hasDistinctKeys_under]
      exact hasDistinctKeys_toTree inner differ

/-- The trees of drafts whose keys differ have distinct keys when those of every mapping
read apart. -/
theorem allHaveDistinctKeys_toTrees : ∀ {items : List Draft} {trees : List Tree},
    toTrees items = .ok trees → everyMappingItems Keyed.keysDiffer items = true →
      (Tree.allHaveDistinctKeys trees = true ↔ everyMappingItems readApart items = true)
  | [], _, encoded, _ => by
      obtain rfl := Except.ok.inj encoded
      rfl
  | item :: rest, _, encoded, differ => by
      obtain ⟨tree, first, encoded⟩ := bind_eq_ok.mp encoded
      obtain ⟨trees, others, rfl⟩ := bind_pure_eq_ok.mp encoded
      obtain ⟨firstDiffers, othersDiffer⟩ := Bool.and_eq_true_iff.mp differ
      rw [Tree.allHaveDistinctKeys, everyMappingItems, Bool.and_eq_true, Bool.and_eq_true,
        hasDistinctKeys_toTree first firstDiffers, allHaveDistinctKeys_toTrees others othersDiffer]

/-- The values of entries whose keys differ have distinct keys when those of every mapping
in them read apart. -/
theorem valuesHaveDistinctKeys_toTreeEntries : ∀ {entries : List (Draft × Draft)}
    {pairs : List (String × Tree)}, toTreeEntries entries = .ok pairs →
    everyMappingEntries Keyed.keysDiffer entries = true →
      (Tree.valuesHaveDistinctKeys pairs = true ↔ everyMappingEntries readApart entries = true)
  | [], _, encoded, _ => by
      obtain rfl := Except.ok.inj encoded
      rfl
  | (key, value) :: rest, _, encoded, differ => by
      obtain ⟨text, -, encoded⟩ := bind_eq_ok.mp encoded
      obtain ⟨tree, first, encoded⟩ := bind_eq_ok.mp encoded
      obtain ⟨pairs, others, rfl⟩ := bind_pure_eq_ok.mp encoded
      obtain ⟨firstDiffers, othersDiffer⟩ := Bool.and_eq_true_iff.mp differ
      rw [Tree.valuesHaveDistinctKeys, everyMappingEntries, Bool.and_eq_true, Bool.and_eq_true,
        hasDistinctKeys_toTree first firstDiffers,
        valuesHaveDistinctKeys_toTreeEntries others othersDiffer]

end

end FieldGuide.Draft
