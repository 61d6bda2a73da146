import FieldGuide.Proofs.Example.DistinctKeys
import FieldGuide.Proofs.View.Entries

/-!
# Views of trees with distinct keys

A view deletes and orders entries and keeps their keys, so that the view of a tree
with distinct keys has distinct keys.
-/

namespace FieldGuide.View

/-- The keys shown of a mapping are keys of the mapping, each as often at most. -/
theorem shownEntries_keys_subperm (view : View) (parent : Field)
    (entries : List (String × Tree)) :
    ((view.shownEntries parent entries).map Prod.fst).Subperm (entries.map Prod.fst) := by
  have kept : ((entries.filterMap (view.shown? parent)).map Prod.fst).Sublist
      (entries.map Prod.fst) := by
    induction entries with
    | nil => exact List.Sublist.refl _
    | cons entry rest inductionHypothesis =>
        rw [List.filterMap_cons, List.map_cons]
        cases shows : view.shown? parent entry with
        | none => exact inductionHypothesis.cons entry.1
        | some shown =>
            rw [List.map_cons, key_of_shown shows]
            exact inductionHypothesis.cons_cons entry.1
  exact ((orderedBy_perm _ _).map Prod.fst).subperm.trans kept.subperm

/-- The keys shown of a mapping with distinct keys are distinct. -/
theorem shownEntries_nodup (view : View) (parent : Field) {entries : List (String × Tree)}
    (distinct : (entries.map Prod.fst).Nodup) :
    ((view.shownEntries parent entries).map Prod.fst).Nodup := by
  obtain ⟨kept, reordered, selected⟩ := view.shownEntries_keys_subperm parent entries
  exact reordered.nodup_iff.mp (distinct.sublist selected)

/-- The shown entries have values with distinct keys, if walking the values of a
mapping keeps keys distinct. -/
private theorem shownEntries_values_distinct {view : View} {parent : Field}
    {entries : List (String × Tree)}
    (values : ∀ entry ∈ entries, entry.2.hasDistinctKeys = true ∧
      ∀ kind field, (view.walk kind field entry.2).hasDistinctKeys = true)
    (shown : String × Tree) (member : shown ∈ view.shownEntries parent entries) :
    shown.2.hasDistinctKeys = true := by
  obtain ⟨entry, entryMember, shows⟩ := mem_shownEntries.mp member
  obtain ⟨unwalked, walked⟩ := values entry entryMember
  cases declared : parent.lookup? entry.1 with
  | none =>
      rw [shown?_of_undeclared declared, Option.ite_none_left_eq_some] at shows
      rw [← Option.some.inj shows.2]
      exact unwalked
  | some found =>
      rw [shown?_of_declared declared, Option.ite_none_right_eq_some] at shows
      rw [← Option.some.inj shows.2]
      exact walked found.2.kind found.2

/-- Walking a tree with distinct keys leaves keys distinct. -/
theorem hasDistinctKeys_walk (view : View) (kind : Kind) (field : Field) {tree : Tree}
    (distinct : tree.hasDistinctKeys = true) :
    (view.walk kind field tree).hasDistinctKeys = true := by
  induction tree generalizing kind field with
  | null | bool value | number value | text value => simpa only [walk] using distinct
  | sequence items inductionHypothesis =>
      have parts := Tree.hasDistinctKeys_sequence.mp distinct
      cases kind with
      | scalar | map => simpa only [walk] using distinct
      | array =>
          rw [walk_sequence_array, Tree.hasDistinctKeys_sequence, List.forall_mem_map]
          exact fun item member => inductionHypothesis item member .scalar field (parts item member)
      | grid =>
          rw [walk_sequence_grid, Tree.hasDistinctKeys_sequence, List.forall_mem_map]
          exact fun row member => inductionHypothesis row member .array field (parts row member)
  | mapping entries inductionHypothesis =>
      obtain ⟨keys, values⟩ := Tree.hasDistinctKeys_mapping.mp distinct
      cases kind with
      | scalar =>
          by_cases childless : field.children = []
          · rwa [walk_mapping_of_childless view field entries childless]
          · rw [walk_mapping_scalar view field entries childless, Tree.hasDistinctKeys_mapping]
            refine ⟨view.shownEntries_nodup field keys, ?_⟩
            apply shownEntries_values_distinct
            intro entry member
            refine ⟨values entry member, fun kind field => ?_⟩
            exact inductionHypothesis entry member kind field (values entry member)
      | map =>
          rw [walk_mapping_map, Tree.hasDistinctKeys_mapping, List.map_map, List.forall_mem_map]
          exact ⟨keys, fun entry member =>
            inductionHypothesis entry member .scalar field (values entry member)⟩
      | array | grid => simpa only [walk] using distinct

/-- A view of an example with distinct keys has distinct keys. -/
theorem hasDistinctKeys_apply (view : View) (root : Field) {tree : Tree}
    (distinct : tree.hasDistinctKeys = true) :
    (view.apply root tree).hasDistinctKeys = true := by
  rcases apply_cases root tree with ⟨entries, rfl, shows⟩ | walks
  · obtain ⟨keys, values⟩ := Tree.hasDistinctKeys_mapping.mp distinct
    rw [shows, Tree.hasDistinctKeys_mapping]
    refine ⟨view.shownEntries_nodup root keys, ?_⟩
    apply shownEntries_values_distinct
    intro entry member
    refine ⟨values entry member, fun kind field => ?_⟩
    exact view.hasDistinctKeys_walk kind field (values entry member)
  · rw [walks]
    exact view.hasDistinctKeys_walk root.kind root distinct

end FieldGuide.View
