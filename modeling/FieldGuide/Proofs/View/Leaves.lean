import FieldGuide.Field.Edit
import FieldGuide.Proofs.View.Position

/-!
# Leaves of an example in its views

A leaf is an entry at a walked position whose key names a field without children. The
main statement says exactly which leaves a view shows, and that it shows them where they
stand in the example and with their value: neither the fields a leaf lies in nor what
else is left of them matter, as long as none of them is deprecated.
-/

namespace FieldGuide

namespace Field.Visits

variable {view : View} {kind : Kind} {field parent child : Field} {tree : Tree}
  {path : List Tree.Step} {above : List Field} {entries : List (String × Tree)}

/-- A revealed field reveals every field that the path to it passes, when none of these
is deprecated. -/
theorem reveals_above {filter : Filter}
    (visits : Visits kind field tree path above parent entries)
    (current : ∀ passed ∈ above, passed.isDeprecated = false)
    (member : child ∈ parent.children) (revealed : filter.reveals child = true) :
    (∃ below ∈ field.children, filter.reveals below = true) ∧
      ∀ passed ∈ above, filter.reveals passed = true := by
  induction visits with
  | here _ => exact ⟨⟨child, member, revealed⟩, by simp⟩
  | entry declared _ _ inductionHypothesis =>
      obtain ⟨firstCurrent, restCurrent⟩ := List.forall_mem_cons.mp current
      obtain ⟨⟨below, belowMember, belowRevealed⟩, passes⟩ :=
        inductionHypothesis restCurrent member
      have firstRevealed := Filter.reveals_of_child firstCurrent belowMember belowRevealed
      exact ⟨⟨_, mem_children_of_lookup declared, firstRevealed⟩,
        List.forall_mem_cons.mpr ⟨firstRevealed, passes⟩⟩
  | value _ _ inductionHypothesis | item _ _ inductionHypothesis | row _ _ inductionHypothesis =>
      exact inductionHypothesis current member

/-- Where the path to a visited mapping leads anywhere in the walked value, it passes
revealed fields only and leads to the shown entries. -/
theorem at?_walk (visits : Visits kind field tree path above parent entries)
    (distinct : tree.hasDistinctKeys = true) {reached : Tree}
    (leads : (view.walk kind field tree).at? path = some reached) :
    (∀ passed ∈ above, view.filter.reveals passed = true) ∧
      reached = .mapping (view.shownEntries parent entries) := by
  induction visits with
  | here declares =>
      rw [View.walk_mapping_scalar _ _ _ declares] at leads
      exact ⟨by simp, (Option.some.inj leads).symm⟩
  | @entry field entries key value position child path above parent found declared member below
      inductionHypothesis =>
      obtain ⟨keys, values⟩ := Tree.hasDistinctKeys_mapping.mp distinct
      rw [View.walk_mapping_scalar _ _ _ (List.ne_nil_of_mem (mem_children_of_lookup declared)),
        Tree.at?_key, Option.bind_eq_some_iff] at leads
      obtain ⟨walked, looked, leads⟩ := leads
      obtain ⟨source, sourceMember, rfl, revealed, -⟩ :=
        source_of_shown declared (Keyed.mem_of_lookup looked)
      obtain rfl := Tree.value_eq_of_mem keys sourceMember member
      obtain ⟨passes, same⟩ := inductionHypothesis (values _ member) leads
      exact ⟨List.forall_mem_cons.mpr ⟨revealed, passes⟩, same⟩
  | @value field entries key value path above parent found member below inductionHypothesis =>
      obtain ⟨keys, values⟩ := Tree.hasDistinctKeys_mapping.mp distinct
      rw [View.walk_mapping_map, Tree.at?_key, Option.bind_eq_some_iff] at leads
      obtain ⟨walked, looked, leads⟩ := leads
      obtain ⟨⟨name, source⟩, sourceMember, same⟩ := List.mem_map.mp (Keyed.mem_of_lookup looked)
      obtain ⟨rfl, rfl⟩ := Prod.mk.inj same
      obtain rfl := Tree.value_eq_of_mem keys sourceMember member
      exact inductionHypothesis (values _ member) leads
  | item listed _ inductionHypothesis =>
      have parts := Tree.hasDistinctKeys_sequence.mp distinct
      rw [View.walk_sequence_array, Tree.at?_item, List.getElem?_map, listed] at leads
      exact inductionHypothesis (parts _ (List.mem_of_getElem? listed)) leads
  | row listed _ inductionHypothesis =>
      have parts := Tree.hasDistinctKeys_sequence.mp distinct
      rw [View.walk_sequence_grid, Tree.at?_item, List.getElem?_map, listed] at leads
      exact inductionHypothesis (parts _ (List.mem_of_getElem? listed)) leads

end Field.Visits

namespace View

variable {view : View} {root parent leaf : Field} {tree value : Tree}
  {path : List Tree.Step} {above : List Field} {entries : List (String × Tree)}
  {key : String} {position : Nat}

/-- Looking a leaf's key up among the shown entries finds its value exactly when the
filter selects the leaf. -/
theorem lookup_shownEntries_leaf (distinct : (entries.map Prod.fst).Nodup)
    (member : (key, value) ∈ entries) (declared : parent.lookup? key = some (position, leaf))
    (childless : leaf.children = []) :
    (view.shownEntries parent entries).lookup key =
      if view.filter.selects leaf then some value else none := by
  cases selected : view.filter.selects leaf with
  | true =>
      have kept : view.keeps leaf (view.walk leaf.kind leaf value) = true := by
        rw [keeps, selected, Bool.true_or]
      have shown := Field.Visits.mem_shown declared member
        (Filter.reveals_of_selects selected) kept
      rw [walk_of_childless view leaf.kind value childless] at shown
      rw [if_pos rfl]
      exact Tree.lookup_of_mem (view.shownEntries_nodup parent distinct) shown
  | false =>
      rw [if_neg Bool.false_ne_true]
      cases looked : (view.shownEntries parent entries).lookup key with
      | none => rfl
      | some shown =>
          obtain ⟨_, _, _, revealed, _⟩ :=
            Field.Visits.source_of_shown declared (Keyed.mem_of_lookup looked)
          rw [Filter.reveals_of_childless childless, selected] at revealed
          cases revealed

/-- A leaf of an example with distinct keys is shown at its own path and with its own
value when the filter selects it and no declared field above it is deprecated, and
otherwise nothing is shown at that path. -/
theorem at?_leaf (distinct : tree.hasDistinctKeys = true)
    (visits : Field.Visits root.kind root tree path above parent entries)
    (member : (key, value) ∈ entries) (declared : parent.lookup? key = some (position, leaf))
    (childless : leaf.children = []) :
    (view.apply root tree).at? (path ++ [.key key]) =
      if view.filter.selects leaf = true ∧ ∀ passed ∈ above, passed.isDeprecated = false then
        some value
      else none := by
  have looked : (view.shownEntries parent entries).lookup key =
      if view.filter.selects leaf then some value else none :=
    lookup_shownEntries_leaf (visits.keys_nodup distinct) member declared childless
  rw [apply_of_declares view root tree visits.field_declares, Tree.at?_append]
  by_cases shows : view.filter.selects leaf = true ∧ ∀ passed ∈ above, passed.isDeprecated = false
  · obtain ⟨selected, current⟩ := shows
    rw [selected, if_pos rfl] at looked
    have revealed := (visits.reveals_above current (Field.mem_children_of_lookup declared)
      (Filter.reveals_of_selects selected)).2
    have shown : view.shownEntries parent entries ≠ [] :=
      List.ne_nil_of_mem (Keyed.mem_of_lookup looked)
    have leads := (visits.walk revealed shown).1.at?_eq
      (view.hasDistinctKeys_walk root.kind root distinct)
    rw [leads, Option.bind_some, Tree.at?_key, looked, if_pos ⟨selected, current⟩]
    rfl
  · rw [if_neg shows]
    cases leads : (view.walk root.kind root tree).at? path with
    | none => rfl
    | some reached =>
        obtain ⟨revealed, rfl⟩ := visits.at?_walk distinct leads
        have rejected : ¬view.filter.selects leaf = true := fun selected =>
          shows ⟨selected, fun passed member =>
            Filter.not_deprecated_of_reveals (revealed passed member)⟩
        rw [Option.bind_some, Tree.at?_key, looked, if_neg rejected]
        rfl

/-- An advanced array of objects, each with an advanced map of limits. -/
def limitsRoot : Field :=
  .root [{ Field.ofChildren "routes"
    [{ Field.ofChildren "limits"
        [.ofType "size" .int, { Field.ofType "count" .int with isAdvanced := true }] with
      kind := .map, isAdvanced := true }] with kind := .array, isAdvanced := true }]

/-- An example of two routes, of which the second has limits. -/
def limitsExample : Tree :=
  .mapping [("routes", .sequence [.mapping [],
    .mapping [("limits", .mapping [("peak", .mapping [("count", .null), ("size", .bool true)])])]])]

/-- The common view shows a common leaf below an advanced map of an advanced array. -/
theorem at?_leaf_limits :
    limitsExample.hasDistinctKeys = true ∧
      (apply ⟨.common, {}⟩ limitsRoot limitsExample).at?
          ([.key "routes", .item 1, .key "limits", .key "peak"] ++ [.key "size"]) =
        some (.bool true) := by
  have distinct : limitsExample.hasDistinctKeys = true := by decide
  have visits : ∃ above parent entries, Field.Visits limitsRoot.kind limitsRoot limitsExample
      [.key "routes", .item 1, .key "limits", .key "peak"] above parent entries ∧
        ("size", .bool true) ∈ entries ∧ parent.lookup? "size" = some (0, .ofType "size" .int) ∧
          ∀ passed ∈ above, passed.isDeprecated = false := by
    refine ⟨_, _, _, .entry rfl List.mem_cons_self (.item rfl (.entry rfl List.mem_cons_self
      (.value List.mem_cons_self (.here (List.cons_ne_nil _ _))))), ?_, rfl, ?_⟩
    · exact List.mem_cons_of_mem _ List.mem_cons_self
    · simp [Field.ofChildren, Field.ofType]
  obtain ⟨above, parent, entries, reached, member, declared, current⟩ := visits
  refine ⟨distinct, ?_⟩
  rw [at?_leaf distinct reached member declared rfl, if_pos ⟨rfl, current⟩]

end View

end FieldGuide
