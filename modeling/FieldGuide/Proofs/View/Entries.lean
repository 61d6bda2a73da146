import FieldGuide.Proofs.Example.Tree
import FieldGuide.Proofs.View.Filter
import FieldGuide.Proofs.View.Order

/-!
# Entries of a walked mapping

A mapping is walked entry by entry, and what is shown of one entry does not depend
on the others. This module names that step, `View.shown?`, and describes the walk of
every shape of value by it: the shown entries of a mapping are what is shown of each,
in the order of the fields that their keys name.
-/

namespace FieldGuide.View

variable {view : View} {parent child : Field} {entry : String × Tree} {position : Nat}

/-- What a view shows of an entry of a mapping that is walked against `parent`. -/
def shown? (view : View) (parent : Field) (entry : String × Tree) : Option (String × Tree) :=
  match view.treatment parent entry.1 with
  | .removeType | .hide => none
  | .keepUndeclared => some entry
  | .place _ child =>
      let walked := view.walk child.kind child entry.2
      if view.keeps child walked then some (entry.1, walked) else none

/-- The entries that a view shows of a mapping that is walked against `parent`. -/
def shownEntries (view : View) (parent : Field) (entries : List (String × Tree)) :
    List (String × Tree) :=
  orderedBy (fun entry => parent.rank entry.1) (entries.filterMap (view.shown? parent))

/-- An entry that names a field is shown, with its value walked, when the field is
revealed and the view keeps the walked value. -/
theorem shown?_of_declared (declared : parent.lookup? entry.1 = some (position, child)) :
    view.shown? parent entry =
      if view.filter.reveals child && view.keeps child (view.walk child.kind child entry.2) then
        some (entry.1, view.walk child.kind child entry.2)
      else none := by
  rw [shown?, treatment_of_declared declared]
  cases view.filter.reveals child with
  | false => rfl
  | true => simp

/-- An entry that names no field is shown as it is unless its key is removed. -/
theorem shown?_of_undeclared (undeclared : parent.lookup? entry.1 = none) :
    view.shown? parent entry = if view.options.strips entry.1 then none else some entry := by
  rw [shown?, treatment_of_undeclared undeclared]
  cases view.options.strips entry.1 <;> rfl

/-- What is shown of an entry has the entry's key. -/
theorem key_of_shown {shown : String × Tree} (shows : view.shown? parent entry = some shown) :
    shown.1 = entry.1 := by
  cases declared : parent.lookup? entry.1 with
  | none =>
      rw [shown?_of_undeclared declared, Option.ite_none_left_eq_some] at shows
      rw [← Option.some.inj shows.2]
  | some found =>
      rw [shown?_of_declared declared, Option.ite_none_right_eq_some] at shows
      rw [← Option.some.inj shows.2]

/-- The entries the walk keeps stand at the ranks of their keys. -/
theorem walkEntries_eq_filterMap (view : View) (parent : Field) (entries : List (String × Tree)) :
    view.walkEntries parent entries =
      (entries.filterMap (view.shown? parent)).map fun entry => (parent.rank entry.1, entry) := by
  induction entries with
  | nil => rw [walkEntries]; rfl
  | cons entry rest inductionHypothesis =>
      obtain ⟨key, value⟩ := entry
      rw [walkEntries, inductionHypothesis, List.filterMap_cons]
      cases declared : parent.lookup? key with
      | none =>
          rw [treatment_of_undeclared declared, shown?_of_undeclared declared]
          cases view.options.strips key with
          | true => rfl
          | false => simp [Field.rank, declared]
      | some found =>
          obtain ⟨position, child⟩ := found
          rw [treatment_of_declared declared, shown?_of_declared declared]
          cases view.filter.reveals child with
          | false => rfl
          | true =>
              cases kept : view.keeps child (view.walk child.kind child value) <;>
                simp [kept, Field.rank, declared]

/-- The arranged entries of a walked mapping are its shown entries. -/
theorem arrange_walkEntries (view : View) (parent : Field) (entries : List (String × Tree)) :
    arrange (view.walkEntries parent entries) = view.shownEntries parent entries := by
  have placed : (view.shownEntries parent entries).map
      (fun entry => (parent.rank entry.1, entry)) =
        orderedBy Prod.fst (view.walkEntries parent entries) := by
    rw [walkEntries_eq_filterMap]
    apply map_orderedBy
    exact fun _ => rfl
  rw [arrange_eq_orderedBy, ← placed, List.map_map]
  exact List.map_id _

/-- The shown entries are those of which something is shown. -/
theorem mem_shownEntries {entries : List (String × Tree)} {shown : String × Tree} :
    shown ∈ view.shownEntries parent entries ↔
      ∃ entry ∈ entries, view.shown? parent entry = some shown := by
  rw [shownEntries, mem_orderedBy, List.mem_filterMap]

/-- The shown entries of one rank are what is shown of the entries of that rank. -/
theorem filter_filterMap_shown? (place : Nat) (entries : List (String × Tree)) :
    (entries.filterMap (view.shown? parent)).filter (fun entry => parent.rank entry.1 = place) =
      (entries.filter fun entry => parent.rank entry.1 = place).filterMap (view.shown? parent) := by
  rw [List.filter_filterMap, List.filterMap_filter]
  apply List.filterMap_congr
  intro entry _
  cases shows : view.shown? parent entry with
  | none => simp
  | some shown => rw [Option.filter_some, key_of_shown shows]

/-- Of entries whose keys name no field, those are shown whose keys are not removed. -/
theorem filterMap_shown?_of_undeclared {entries : List (String × Tree)}
    (undeclared : ∀ entry ∈ entries, parent.lookup? entry.1 = none) :
    entries.filterMap (view.shown? parent) =
      entries.filter fun entry => !view.options.strips entry.1 := by
  rw [← List.filterMap_eq_filter]
  apply List.filterMap_congr
  intro entry member
  rw [shown?_of_undeclared (undeclared entry member), Option.guard]
  cases view.options.strips entry.1 <;> rfl

section Shapes

variable (view : View) (kind : Kind) (field : Field)
  (entries : List (String × Tree)) (items : List Tree)

/-- A childless field's mapping stays as it is. -/
theorem walk_mapping_of_childless (childless : field.children = []) :
    view.walk .scalar field (.mapping entries) = .mapping entries := by
  simp [walk, childless]

/-- A mapping walked against children shows its shown entries. -/
theorem walk_mapping_scalar (declares : field.children ≠ []) :
    view.walk .scalar field (.mapping entries) = .mapping (view.shownEntries field entries) := by
  simp [walk, declares, arrange_walkEntries]

/-- The values of a map with free keys are walked one by one. -/
theorem walk_mapping_map :
    view.walk .map field (.mapping entries) =
      .mapping (entries.map fun entry => (entry.1, view.walk .scalar field entry.2)) := by
  rw [walk]
  congr 1
  induction entries with
  | nil => rw [walkValues]; rfl
  | cons entry rest inductionHypothesis =>
      rw [walkValues, inductionHypothesis, List.map_cons]

/-- The items of a list are each arranged in the same way. -/
theorem walkItems_eq_map :
    view.walkItems kind field items = items.map (view.walk kind field) := by
  induction items with
  | nil => rw [walkItems]; rfl
  | cons item rest inductionHypothesis => rw [walkItems, inductionHypothesis, List.map_cons]

/-- The items of an array are walked one by one. -/
theorem walk_sequence_array :
    view.walk .array field (.sequence items) =
      .sequence (items.map (view.walk .scalar field)) := by
  rw [walk]
  exact congrArg Tree.sequence (walkItems_eq_map view .scalar field items)

/-- The rows of a grid are walked as arrays. -/
theorem walk_sequence_grid :
    view.walk .grid field (.sequence items) = .sequence (items.map (view.walk .array field)) := by
  rw [walk]
  exact congrArg Tree.sequence (walkItems_eq_map view .array field items)

end Shapes

/-- A scalar root's mapping shows its shown entries even when the root declares no
field; every other example is walked as a value of the root. -/
theorem apply_mapping_scalar (view : View) (root : Field) (entries : List (String × Tree))
    (scalar : root.kind = .scalar) :
    view.apply root (.mapping entries) = .mapping (view.shownEntries root entries) := by
  rw [apply, scalar, arrange_walkEntries]

/-- An example is walked as a value of the root when the root has another kind. -/
theorem apply_of_not_scalar (view : View) (root : Field) (tree : Tree)
    (arranged : root.kind ≠ .scalar) : view.apply root tree = view.walk root.kind root tree := by
  cases tree <;> cases kind : root.kind <;> simp_all [apply]

/-- Every view shows the shown entries of an example, or every view walks it as a value of
the root. -/
theorem apply_cases (root : Field) (tree : Tree) :
    (∃ entries, tree = .mapping entries ∧
        ∀ view : View, view.apply root tree = .mapping (view.shownEntries root entries)) ∨
      ∀ view : View, view.apply root tree = view.walk root.kind root tree := by
  by_cases scalar : root.kind = .scalar
  · cases tree with
    | mapping entries =>
        exact .inl ⟨entries, rfl, fun view => apply_mapping_scalar view root entries scalar⟩
    | null | bool value | number value | text value | sequence items =>
        exact .inr fun view => by simp only [apply]
  · exact .inr fun view => apply_of_not_scalar view root tree scalar

/-- An example is walked as a value of a root that declares fields. -/
theorem apply_of_declares (view : View) (root : Field) (tree : Tree)
    (declares : root.children ≠ []) : view.apply root tree = view.walk root.kind root tree := by
  by_cases scalar : root.kind = .scalar
  · cases tree with
    | mapping entries =>
        rw [apply_mapping_scalar view root entries scalar, scalar,
          walk_mapping_scalar view root entries declares]
    | null | bool value | number value | text value | sequence items => simp only [apply]
  · exact apply_of_not_scalar view root tree scalar

/-- A childless field's values stay as they are. -/
theorem walk_of_childless (view : View) (kind : Kind) {field : Field} (tree : Tree)
    (childless : field.children = []) : view.walk kind field tree = tree := by
  induction tree generalizing kind with
  | null | bool value | number value | text value => simp only [walk]
  | sequence items inductionHypothesis =>
      cases kind with
      | scalar | map => simp only [walk]
      | array =>
          have unchanged : items.map (view.walk .scalar field) = items.map id :=
            List.map_congr_left fun item member => inductionHypothesis item member .scalar
          rw [walk_sequence_array, unchanged, List.map_id]
      | grid =>
          have unchanged : items.map (view.walk .array field) = items.map id :=
            List.map_congr_left fun item member => inductionHypothesis item member .array
          rw [walk_sequence_grid, unchanged, List.map_id]
  | mapping entries inductionHypothesis =>
      cases kind with
      | scalar => exact walk_mapping_of_childless view field entries childless
      | map =>
          have unchanged : entries.map (fun entry =>
              (entry.1, view.walk .scalar field entry.2)) = entries.map id :=
            List.map_congr_left fun entry member =>
              congrArg (Prod.mk entry.1) (inductionHypothesis entry member .scalar)
          rw [walk_mapping_map, unchanged, List.map_id]
      | array | grid => simp only [walk]

end FieldGuide.View
