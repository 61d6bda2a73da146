import FieldGuide.Proofs.Example.DistinctKeys

/-!
# Trees with collapsed keys

A mapping of a tree may repeat a key, and a mapping that is described again may not. This module
says what is left of a tree without repeated keys: at every depth, a key stands where it first
stood, with the value that stood last under it. Nothing is left out exactly where no key is
repeated.
-/

namespace FieldGuide.Tree

mutual

/-- The tree with each key of a mapping once, at any depth: at its first place, with its last
value. -/
def collapse : Tree → Tree
  | .null => .null
  | .bool value => .bool value
  | .number value => .number value
  | .text value => .text value
  | .sequence items => .sequence (collapseItems items)
  | .mapping entries => .mapping (Keyed.lastValues (collapseEntries entries))

/-- The trees with each key of a mapping once. -/
def collapseItems : List Tree → List Tree
  | [] => []
  | item :: rest => collapse item :: collapseItems rest

/-- The entries with each key of a mapping in their values once. -/
def collapseEntries : List (String × Tree) → List (String × Tree)
  | [] => []
  | (key, value) :: rest => (key, collapse value) :: collapseEntries rest

end

/-- Items are collapsed one by one. -/
theorem collapseItems_eq_map (items : List Tree) : collapseItems items = items.map collapse := by
  induction items with
  | nil => rfl
  | cons item rest inductionHypothesis => rw [collapseItems, inductionHypothesis, List.map_cons]

/-- The values of entries are collapsed one by one, under their keys. -/
theorem collapseEntries_eq_map (entries : List (String × Tree)) :
    collapseEntries entries = entries.map fun entry => (entry.1, entry.2.collapse) := by
  induction entries with
  | nil => rfl
  | cons entry rest inductionHypothesis =>
      rw [collapseEntries, inductionHypothesis, List.map_cons]

/-- A mapping whose keys are distinct keeps its entries, with their values collapsed. -/
theorem collapse_mapping_of_nodup {entries : List (String × Tree)}
    (distinct : (entries.map Prod.fst).Nodup) :
    (mapping entries).collapse =
      .mapping (entries.map fun entry => (entry.1, entry.2.collapse)) := by
  rw [collapse, collapseEntries_eq_map, ← Keyed.collect_eq_lastValues,
    Keyed.collect_of_keysDiffer]
  rw [Keyed.keysDiffer_iff_nodup, List.map_map]
  exact distinct

/-- A mapping that keeps its keys when it is collapsed has distinct keys. -/
theorem nodup_of_keys_collapse {entries : List (String × Tree)}
    (kept : (Keyed.lastValues (collapseEntries entries)).map Prod.fst = entries.map Prod.fst) :
    (entries.map Prod.fst).Nodup := by
  rw [← kept, ← Keyed.collect_eq_lastValues]
  exact Keyed.keysDiffer_iff_nodup.mp (Keyed.keysDiffer_collect _)

/-- A tree with distinct keys has nothing to collapse. -/
theorem collapse_of_hasDistinctKeys {tree : Tree} (distinct : tree.hasDistinctKeys = true) :
    tree.collapse = tree := by
  induction tree with
  | null | bool value | number value | text value => rw [collapse]
  | sequence items inductionHypothesis =>
      have parts := hasDistinctKeys_sequence.mp distinct
      rw [collapse, collapseItems_eq_map,
        List.map_congr_left fun item member => inductionHypothesis item member (parts item member),
        List.map_id']
  | mapping entries inductionHypothesis =>
      obtain ⟨keys, values⟩ := hasDistinctKeys_mapping.mp distinct
      rw [collapse_mapping_of_nodup keys, List.map_congr_left fun entry member =>
        congrArg (Prod.mk entry.1) (inductionHypothesis entry member (values entry member)),
        List.map_id']

/-- A tree that reads the same once collapsed has distinct keys. -/
theorem hasDistinctKeys_of_same_collapse {tree : Tree} (equal : tree.collapse.same tree = true) :
    tree.hasDistinctKeys = true := by
  induction tree with
  | null | bool value | number value | text value => rw [hasDistinctKeys] <;> simp
  | sequence items inductionHypothesis =>
      rw [collapse, collapseItems_eq_map, same_sequence, List.forall₂_map_left_iff,
        List.forall₂_same] at equal
      exact hasDistinctKeys_sequence.mpr fun item member =>
        inductionHypothesis item member (equal item member)
  | mapping entries inductionHypothesis =>
      have kept := equal
      rw [collapse, same_mapping] at kept
      have distinct := nodup_of_keys_collapse kept.1
      rw [collapse_mapping_of_nodup distinct, same_mapping] at equal
      simp only [List.forall₂_map_left_iff, List.forall₂_map_right_iff, List.forall₂_same] at equal
      exact hasDistinctKeys_mapping.mpr ⟨distinct, fun entry member =>
        inductionHypothesis entry member (equal.2 entry member)⟩

/-- Exactly the trees with distinct keys read the same once collapsed. -/
theorem same_collapse_iff {tree : Tree} :
    tree.collapse.same tree = true ↔ tree.hasDistinctKeys = true := by
  refine ⟨hasDistinctKeys_of_same_collapse, fun distinct => ?_⟩
  rw [collapse_of_hasDistinctKeys distinct, same_refl]

/-- Exactly the trees with distinct keys have nothing to collapse. -/
theorem collapse_eq_iff {tree : Tree} : tree.collapse = tree ↔ tree.hasDistinctKeys = true := by
  refine ⟨fun equal => same_collapse_iff.mp ?_, collapse_of_hasDistinctKeys⟩
  rw [equal, same_refl]

end FieldGuide.Tree
