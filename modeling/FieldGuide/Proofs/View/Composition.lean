import FieldGuide.Proofs.View.Entries

/-!
# Looking through one view after another

A view of a view is a view again. Each walk deletes entries, and the second one meets
the values the first one left, so the statement is proved for all arrangements of a
value at once: what the second walk does with an entry is settled by the field that
the entry names and by its walked value, and for both the narrower filter decides.
-/

namespace FieldGuide

variable (options : ViewOptions) (first second : Filter)

namespace View

/-- An entry shown by one view and then by another is shown by the narrower one, if
that holds of walking its value. -/
private theorem shown?_bind_shown? (parent : Field) (entry : String × Tree)
    (valueWalks : ∀ kind field,
      walk ⟨second, options⟩ kind field (walk ⟨first, options⟩ kind field entry.2) =
        walk ⟨first.narrower second, options⟩ kind field entry.2) :
    (shown? ⟨first, options⟩ parent entry).bind (shown? ⟨second, options⟩ parent) =
      shown? ⟨first.narrower second, options⟩ parent entry := by
  obtain ⟨key, value⟩ := entry
  cases declared : parent.lookup? key with
  | none =>
      rw [shown?_of_undeclared declared, shown?_of_undeclared declared]
      cases stripped : options.strips key with
      | true => rfl
      | false =>
          simp only [Bool.false_eq_true, if_false, Option.bind_some]
          rw [shown?_of_undeclared declared, stripped]
          rfl
  | some found =>
      obtain ⟨position, child⟩ := found
      have walked := valueWalks child.kind child
      have deprecation (revealed : Filter.common.reveals child = true) :=
        Filter.not_deprecated_of_reveals revealed
      rw [shown?_of_declared declared, shown?_of_declared declared]
      cases first with
      | common =>
          -- The second walk leaves what the common one showed.
          have unchanged : Filter.common.narrower second = .common := by cases second <;> rfl
          rw [unchanged] at walked ⊢
          split
          · next shows =>
              have revealed := (Bool.and_eq_true_iff.mp shows).1
              rw [Option.bind_some, shown?_of_declared declared, walked]
              cases second with
              | common => rw [if_pos shows]
              | advanced =>
                  simp [Filter.reveals_advanced, keeps, Filter.selects_advanced,
                    deprecation revealed]
          · rfl
      | advanced =>
          -- The first walk hides deprecated fields only, which no filter reveals.
          cases deprecated : child.isDeprecated with
          | true =>
              have hidden : ∀ filter : Filter, filter.reveals child = false := by
                intro filter
                rw [Filter.reveals_eq, deprecated]
                rfl
              simp [hidden]
          | false =>
              have kept : (Filter.advanced.reveals child &&
                  keeps ⟨.advanced, options⟩ child
                    (walk ⟨.advanced, options⟩ child.kind child value)) = true := by
                simp [Filter.reveals_advanced, keeps, Filter.selects_advanced, deprecated]
              rw [if_pos kept, Option.bind_some, shown?_of_declared declared, walked]
              cases second <;> rfl

/-- Walking a mapping's entries through one view and then another shows the entries of
the narrower view, if that holds of walking their values. -/
theorem shownEntries_shownEntries (parent : Field) (entries : List (String × Tree))
    (valuesWalk : ∀ entry ∈ entries, ∀ kind field,
      walk ⟨second, options⟩ kind field (walk ⟨first, options⟩ kind field entry.2) =
        walk ⟨first.narrower second, options⟩ kind field entry.2) :
    shownEntries ⟨second, options⟩ parent (shownEntries ⟨first, options⟩ parent entries) =
      shownEntries ⟨first.narrower second, options⟩ parent entries := by
  have keepsRank (entry shown : String × Tree)
      (shows : shown? ⟨second, options⟩ parent entry = some shown) :
      parent.rank shown.1 = parent.rank entry.1 := by
    rw [key_of_shown shows]
  have selected : (entries.filterMap (shown? ⟨first, options⟩ parent)).filterMap
      (shown? ⟨second, options⟩ parent) =
        entries.filterMap (shown? ⟨first.narrower second, options⟩ parent) := by
    rw [List.filterMap_filterMap]
    apply List.filterMap_congr
    intro entry member
    exact shown?_bind_shown? options first second parent entry (valuesWalk entry member)
  simp only [shownEntries]
  rw [filterMap_orderedBy keepsRank, selected, orderedBy_orderedBy]

/-- Walking a value through one view and then another is walking it through the
narrower one. -/
theorem walk_walk (kind : Kind) (field : Field) (tree : Tree) :
    walk ⟨second, options⟩ kind field (walk ⟨first, options⟩ kind field tree) =
      walk ⟨first.narrower second, options⟩ kind field tree := by
  induction tree generalizing kind field with
  | null | bool value | number value | text value => simp only [walk]
  | sequence items inductionHypothesis =>
      cases kind with
      | scalar | map => simp only [walk]
      | array =>
          simp only [walk_sequence_array, List.map_map]
          congr 1
          exact List.map_congr_left fun item member => inductionHypothesis item member .scalar field
      | grid =>
          simp only [walk_sequence_grid, List.map_map]
          congr 1
          exact List.map_congr_left fun row member => inductionHypothesis row member .array field
  | mapping entries inductionHypothesis =>
      cases kind with
      | scalar =>
          by_cases childless : field.children = []
          · simp only [walk_mapping_of_childless _ _ _ childless]
          · simp only [walk_mapping_scalar _ _ _ childless]
            rw [shownEntries_shownEntries options first second field entries inductionHypothesis]
      | map =>
          simp only [walk_mapping_map, List.map_map]
          congr 1
          apply List.map_congr_left
          intro entry member
          exact congrArg (Prod.mk entry.1) (inductionHypothesis entry member .scalar field)
      | array | grid => simp only [walk]

/-- Views compose as projections: looking at an example through one view and then
through another is looking at it through the narrower of the two. -/
theorem apply_apply (root : Field) (tree : Tree) :
    View.apply ⟨second, options⟩ root (View.apply ⟨first, options⟩ root tree) =
      View.apply ⟨first.narrower second, options⟩ root tree := by
  by_cases scalar : root.kind = .scalar
  · cases tree with
    | mapping entries =>
        simp only [apply_mapping_scalar _ _ _ scalar]
        rw [shownEntries_shownEntries]
        intro entry _ kind field
        exact walk_walk options first second kind field entry.2
    | null | bool value | number value | text value | sequence items =>
        simp only [apply, scalar, walk]
  · simp only [apply_of_not_scalar _ _ _ scalar]
    exact walk_walk options first second root.kind root tree

end View

end FieldGuide
