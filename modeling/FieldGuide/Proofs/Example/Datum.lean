import FieldGuide.Example.Datum
import FieldGuide.Proofs.Example.Collapse
import FieldGuide.Proofs.Example.Draft

/-!
# Encoding example data

The keys of a mapping in the draft of any datum differ as values. A tree is data as well: it
encodes to the tree with its keys collapsed, and so to itself when its keys are distinct.
-/

namespace FieldGuide

namespace Draft

/-- A mapping collected from entries has keys that differ where the values of the entries
have. -/
theorem keysDiffer_collected {entries : List (Draft × Draft)}
    (differ : everyMappingEntries Keyed.keysDiffer entries = true) :
    (mapping (Keyed.collect entries)).everyMapping Keyed.keysDiffer = true := by
  rw [everyMappingEntries_iff] at differ
  have values := Keyed.forall_collect (fun _ : Draft => True)
    (fun value : Draft => value.everyMapping Keyed.keysDiffer = true)
    fun entry member => ⟨trivial, differ entry member⟩
  rw [everyMapping, Keyed.keysDiffer_collect, Bool.true_and, everyMappingEntries_iff]
  exact fun entry member => (values entry member).2

end Draft

namespace Datum

mutual

/-- The keys of each mapping in the draft of a datum differ. -/
theorem keysDiffer_toDraft : ∀ {datum : Datum} {draft : Draft}, datum.toDraft = .ok draft →
    draft.everyMapping Keyed.keysDiffer = true
  | .absent, _, encoded | .bool _, _, encoded | .float _, _, encoded | .text _, _, encoded
  | .unitVariant _, _, encoded => by
      obtain rfl := Except.ok.inj encoded
      rfl
  | .integer value, _, encoded => by
      obtain rfl := Except.ok.inj encoded
      rw [integerDraft]
      split <;> rfl
  | .sequence items, _, encoded => by
      obtain ⟨drafts, members, rfl⟩ := bind_pure_eq_ok.mp encoded
      exact keysDiffer_toDrafts members
  | .mapping entries, _, encoded => by
      obtain ⟨drafts, members, rfl⟩ := bind_pure_eq_ok.mp encoded
      exact Draft.keysDiffer_collected (keysDiffer_toDraftEntries members)
  | .record fields, _, encoded => by
      obtain ⟨drafts, members, rfl⟩ := bind_pure_eq_ok.mp encoded
      exact Draft.keysDiffer_collected (keysDiffer_toDraftFields members)
  | .variant name content, _, encoded => by
      obtain ⟨-, -, encoded⟩ := bind_eq_ok.mp encoded
      obtain ⟨draft, inner, rfl⟩ := bind_pure_eq_ok.mp encoded
      rw [Draft.everyMapping]
      exact keysDiffer_toDraft inner
  | .tupleVariant name items, _, encoded => by
      obtain ⟨-, -, encoded⟩ := bind_eq_ok.mp encoded
      obtain ⟨drafts, members, rfl⟩ := bind_pure_eq_ok.mp encoded
      exact keysDiffer_toDrafts members
  | .recordVariant name fields, _, encoded => by
      obtain ⟨-, -, encoded⟩ := bind_eq_ok.mp encoded
      obtain ⟨drafts, members, rfl⟩ := bind_pure_eq_ok.mp encoded
      exact Draft.keysDiffer_collected (keysDiffer_toDraftFields members)
  | .failure _, _, encoded => by cases encoded

/-- The keys of each mapping in the drafts of items differ. -/
theorem keysDiffer_toDrafts : ∀ {items : List Datum} {drafts : List Draft},
    toDrafts items = .ok drafts → Draft.everyMappingItems Keyed.keysDiffer drafts = true
  | [], _, encoded => by
      obtain rfl := Except.ok.inj encoded
      rfl
  | item :: rest, _, encoded => by
      obtain ⟨draft, first, encoded⟩ := bind_eq_ok.mp encoded
      obtain ⟨drafts, others, rfl⟩ := bind_pure_eq_ok.mp encoded
      exact Bool.and_eq_true_iff.mpr ⟨keysDiffer_toDraft first, keysDiffer_toDrafts others⟩

/-- The keys of each mapping in the values of a map's drafts differ. -/
theorem keysDiffer_toDraftEntries : ∀ {entries : List (Datum × Datum)}
    {drafts : List (Draft × Draft)}, toDraftEntries entries = .ok drafts →
      Draft.everyMappingEntries Keyed.keysDiffer drafts = true
  | [], _, encoded => by
      obtain rfl := Except.ok.inj encoded
      rfl
  | (key, value) :: rest, _, encoded => by
      obtain ⟨keyDraft, -, encoded⟩ := bind_eq_ok.mp encoded
      obtain ⟨draft, first, encoded⟩ := bind_eq_ok.mp encoded
      obtain ⟨drafts, others, rfl⟩ := bind_pure_eq_ok.mp encoded
      exact Bool.and_eq_true_iff.mpr ⟨keysDiffer_toDraft first, keysDiffer_toDraftEntries others⟩

/-- The keys of each mapping in the values of a record's drafts differ. -/
theorem keysDiffer_toDraftFields : ∀ {fields : List (String × Datum)}
    {drafts : List (Draft × Draft)}, toDraftFields fields = .ok drafts →
      Draft.everyMappingEntries Keyed.keysDiffer drafts = true
  | [], _, encoded => by
      obtain rfl := Except.ok.inj encoded
      rfl
  | (name, value) :: rest, _, encoded => by
      obtain ⟨draft, first, encoded⟩ := bind_eq_ok.mp encoded
      obtain ⟨drafts, others, rfl⟩ := bind_pure_eq_ok.mp encoded
      exact Bool.and_eq_true_iff.mpr ⟨keysDiffer_toDraft first, keysDiffer_toDraftFields others⟩

end

/-- The tree of a datum has distinct keys when those of each mapping of its draft read
apart. -/
theorem hasDistinctKeys_toTree {datum : Datum} {draft : Draft} {tree : Tree}
    (described : datum.toDraft = .ok draft) (encoded : datum.toTree = .ok tree) :
    tree.hasDistinctKeys = true ↔ draft.everyMapping Draft.readApart = true := by
  rw [toTree, described] at encoded
  exact Draft.hasDistinctKeys_toTree encoded (keysDiffer_toDraft described)

/-- The drafts of items are made one by one. -/
theorem toDrafts_eq_mapM (items : List Datum) : toDrafts items = items.mapM toDraft := by
  induction items with
  | nil => rfl
  | cons item rest inductionHypothesis => rw [toDrafts, inductionHypothesis, List.mapM_cons]

/-- The drafts of a key and its value. -/
def toDraftEntry (entry : Datum × Datum) : Except EncodeError (Draft × Draft) := do
  let key ← toDraft entry.1
  let value ← toDraft entry.2
  return (key, value)

/-- The drafts of entries are made one by one. -/
theorem toDraftEntries_eq_mapM (entries : List (Datum × Datum)) :
    toDraftEntries entries = entries.mapM toDraftEntry := by
  induction entries with
  | nil => rfl
  | cons entry rest inductionHypothesis =>
      rw [toDraftEntries, inductionHypothesis, List.mapM_cons]
      simp only [toDraftEntry, bind_assoc, pure_bind]

/-- The entry of a map that is described like a field: its key is the name. -/
def fieldEntry (field : String × Datum) : Datum × Datum := (.text field.1, field.2)

/-- A record is described like a map from the names of its fields. -/
theorem toDraft_record (fields : List (String × Datum)) :
    (record fields).toDraft = (mapping (fields.map fieldEntry)).toDraft := by
  have entries : toDraftFields fields = toDraftEntries (fields.map fieldEntry) := by
    induction fields with
    | nil => rfl
    | cons field rest inductionHypothesis =>
        rw [toDraftFields, inductionHypothesis]
        rfl
  rw [toDraft, toDraft, entries]

/-- The draft of a number is the number. -/
theorem toDraft_ofNumber (number : Number) : (ofNumber number).toDraft = .ok (.number number) := by
  cases number with
  | integer value fits =>
      rw [ofNumber, toDraft, integerDraft, Number.ofInt?, dif_pos fits]
  | float value => rfl

mutual

/-- A tree has a draft, whose tree is the collapsed one. -/
theorem toDraft_ofTree : ∀ tree : Tree,
    ∃ draft, (ofTree tree).toDraft = .ok draft ∧ draft.toTree = .ok tree.collapse
  | .null | .bool _ | .text _ => ⟨_, rfl, rfl⟩
  | .number number => ⟨_, toDraft_ofNumber number, rfl⟩
  | .sequence items => by
      obtain ⟨drafts, described, encoded⟩ := toDrafts_ofTrees items
      exact ⟨.sequence drafts, bind_pure_eq_ok.mpr ⟨drafts, described, rfl⟩,
        bind_pure_eq_ok.mpr ⟨Tree.collapseItems items, encoded, rfl⟩⟩
  | .mapping entries => by
      obtain ⟨drafts, described, encoded⟩ := toDraftEntries_ofTreeEntries entries
      refine ⟨.mapping (Keyed.collect drafts), bind_pure_eq_ok.mpr ⟨drafts, described, rfl⟩, ?_⟩
      have settled := Draft.toTreeEntries_of_texts (Draft.encodesTexts_collect encoded)
      refine bind_pure_eq_ok.mpr ⟨_, settled, ?_⟩
      rw [Keyed.collect_eq_lastValues, Tree.collapse]

/-- Trees have drafts, whose trees are the collapsed ones. -/
theorem toDrafts_ofTrees : ∀ trees : List Tree,
    ∃ drafts, toDrafts (ofTrees trees) = .ok drafts ∧
      Draft.toTrees drafts = .ok (Tree.collapseItems trees)
  | [] => ⟨[], rfl, rfl⟩
  | tree :: rest => by
      obtain ⟨draft, described, encoded⟩ := toDraft_ofTree tree
      obtain ⟨drafts, othersDescribed, othersEncoded⟩ := toDrafts_ofTrees rest
      refine ⟨draft :: drafts, ?_, ?_⟩
      · exact bind_eq_ok.mpr ⟨draft, described, bind_pure_eq_ok.mpr ⟨drafts, othersDescribed, rfl⟩⟩
      · exact bind_eq_ok.mpr ⟨tree.collapse, encoded,
          bind_pure_eq_ok.mpr ⟨Tree.collapseItems rest, othersEncoded, rfl⟩⟩

/-- Entries have drafts under the texts of their keys, whose trees are the collapsed values. -/
theorem toDraftEntries_ofTreeEntries : ∀ entries : List (String × Tree),
    ∃ drafts, toDraftEntries (ofTreeEntries entries) = .ok drafts ∧
      Draft.EncodesTexts drafts (Tree.collapseEntries entries)
  | [] => ⟨[], rfl, .nil⟩
  | (key, value) :: rest => by
      obtain ⟨draft, described, encoded⟩ := toDraft_ofTree value
      obtain ⟨drafts, othersDescribed, othersEncoded⟩ := toDraftEntries_ofTreeEntries rest
      refine ⟨(.text key, draft) :: drafts, ?_, .cons ⟨rfl, encoded⟩ othersEncoded⟩
      exact bind_eq_ok.mpr ⟨.text key, rfl, bind_eq_ok.mpr ⟨draft, described,
        bind_pure_eq_ok.mpr ⟨drafts, othersDescribed, rfl⟩⟩⟩

end

/-- A tree encodes to the collapsed tree. -/
theorem toTree_ofTree (tree : Tree) : (ofTree tree).toTree = .ok tree.collapse :=
  bind_eq_ok.mpr (toDraft_ofTree tree)

example : (ofTree (.mapping [("a", .null), ("b", .text "x"), ("a", .bool true)])).toTree =
    .ok (.mapping [("a", .bool true), ("b", .text "x")]) := rfl

/-- A tree encodes to itself when its keys are distinct, and only then. -/
theorem toTree_ofTree_iff {tree : Tree} :
    (ofTree tree).toTree = .ok tree ↔ tree.hasDistinctKeys = true := by
  rw [toTree_ofTree, Except.ok.injEq, Tree.collapse_eq_iff]

/-- Encoding a tree once more returns, and leaves at every depth each key of a mapping once: at
its first place, with its last value. The result is the tree itself, or reads like it, exactly
when no mapping repeats a key. -/
theorem encodes_to_collapse (tree : Tree) :
    (ofTree tree).toTree = .ok tree.collapse ∧
      (tree.collapse = tree ↔ tree.hasDistinctKeys = true) ∧
      (tree.collapse.same tree = true ↔ tree.hasDistinctKeys = true) :=
  ⟨toTree_ofTree tree, Tree.collapse_eq_iff, Tree.same_collapse_iff⟩

end Datum

end FieldGuide
