import FieldGuide.Proofs.Field.Redaction
import FieldGuide.Proofs.View.Position

/-!
# Deprecated fields in views

Two things about deprecated fields could leak into a view: the entries of an example that
name them, and what the fields hold. This module names the part of an example that is left
without such entries, shows that a view depends on that part alone, and shows that it
looks at no more of its fields than what is left of them when they are redacted.
-/

namespace FieldGuide

namespace Field

mutual

/-- A value arranged as `kind` says without the entries that name deprecated fields. Only
entries at walked positions name fields. -/
def currentPart (kind : Kind) (field : Field) : Tree → Tree
  | .mapping entries =>
      match kind with
      | .scalar => .mapping (currentEntries field entries)
      | .map => .mapping (currentValues field entries)
      | .array | .grid => .mapping entries
  | .sequence items =>
      match kind with
      | .array => .sequence (currentItems .scalar field items)
      | .grid => .sequence (currentItems .array field items)
      | .scalar | .map => .sequence items
  | other => other

/-- The items of a sequence without the entries that name deprecated fields. -/
def currentItems (kind : Kind) (field : Field) : List Tree → List Tree
  | [] => []
  | item :: rest => currentPart kind field item :: currentItems kind field rest

/-- The entries of a map with free keys, without the entries that name deprecated fields
in their values. -/
def currentValues (field : Field) : List (String × Tree) → List (String × Tree)
  | [] => []
  | (key, value) :: rest =>
      (key, currentPart .scalar field value) :: currentValues field rest

/-- The entries of a mapping that name no deprecated child of `parent`, and their values
without such entries. -/
def currentEntries (parent : Field) : List (String × Tree) → List (String × Tree)
  | [] => []
  | (key, value) :: rest =>
      match parent.lookup? key with
      | none => (key, value) :: currentEntries parent rest
      | some (_, child) =>
          if child.isDeprecated then currentEntries parent rest
          else (key, currentPart child.kind child value) :: currentEntries parent rest

end

/-- What is left of one entry without the entries that name deprecated fields. -/
def current? (parent : Field) (entry : String × Tree) : Option (String × Tree) :=
  match parent.lookup? entry.1 with
  | none => some entry
  | some (_, child) =>
      if child.isDeprecated then none else some (entry.1, currentPart child.kind child entry.2)

variable (field : Field) (entries : List (String × Tree)) (items : List Tree)

/-- The current entries are what is left of each entry. -/
theorem currentPart_mapping_scalar :
    currentPart .scalar field (.mapping entries) =
      .mapping (entries.filterMap field.current?) := by
  rw [currentPart]
  congr 1
  induction entries with
  | nil => rw [currentEntries]; rfl
  | cons entry rest inductionHypothesis =>
      obtain ⟨key, value⟩ := entry
      rw [currentEntries, inductionHypothesis, List.filterMap_cons, current?]
      cases field.lookup? key with
      | none => rfl
      | some found => cases deprecated : found.2.isDeprecated <;> simp [deprecated]

/-- The values of a map with free keys are looked at one by one. -/
theorem currentPart_mapping_map :
    currentPart .map field (.mapping entries) =
      .mapping (entries.map fun entry => (entry.1, currentPart .scalar field entry.2)) := by
  rw [currentPart]
  congr 1
  induction entries with
  | nil => rw [currentValues]; rfl
  | cons entry rest inductionHypothesis =>
      rw [currentValues, inductionHypothesis, List.map_cons]

/-- The items of a list are each looked at in the same way. -/
theorem currentItems_eq_map (kind : Kind) :
    currentItems kind field items = items.map (currentPart kind field) := by
  induction items with
  | nil => rw [currentItems]; rfl
  | cons item rest inductionHypothesis =>
      rw [currentItems, inductionHypothesis, List.map_cons]

/-- The items of an array are looked at one by one. -/
theorem currentPart_sequence_array :
    currentPart .array field (.sequence items) =
      .sequence (items.map (currentPart .scalar field)) := by
  rw [currentPart]
  exact congrArg Tree.sequence (currentItems_eq_map field items .scalar)

/-- The rows of a grid are looked at as arrays. -/
theorem currentPart_sequence_grid :
    currentPart .grid field (.sequence items) =
      .sequence (items.map (currentPart .array field)) := by
  rw [currentPart]
  exact congrArg Tree.sequence (currentItems_eq_map field items .array)

/-- A childless field names nothing, so that every entry is left as it is. -/
theorem filterMap_current?_of_childless (childless : field.children = []) :
    entries.filterMap field.current? = entries := by
  have kept (entry : String × Tree) : field.current? entry = some entry := by
    simp [current?, lookup?, childless]
  rw [funext kept, List.filterMap_some]

end Field

namespace View

variable (view : View)

/-- A view shows of an entry what it shows of the current part of the entry, if that holds
of walking its value. -/
private theorem current?_bind_shown? (parent : Field) (entry : String × Tree)
    (valueWalks : ∀ kind field,
      view.walk kind field (field.currentPart kind entry.2) = view.walk kind field entry.2) :
    (parent.current? entry).bind (view.shown? parent) = view.shown? parent entry := by
  cases declared : parent.lookup? entry.1 with
  | none => rw [Field.current?, declared, Option.bind_some]
  | some found =>
      rw [Field.current?, declared, shown?_of_declared declared]
      cases deprecated : found.2.isDeprecated with
      | true =>
          have hidden : view.filter.reveals found.2 = false := by
            rw [Filter.reveals_eq, deprecated]
            rfl
          simp [hidden, deprecated]
      | false =>
          have remains : parent.lookup? (entry.1,
              found.2.currentPart found.2.kind entry.2).1 = some found := declared
          simp only [deprecated, Bool.false_eq_true, if_false, Option.bind_some]
          rw [shown?_of_declared remains, valueWalks]

/-- A view shows of a mapping what it shows of the current part of the mapping, if that
holds of walking its values. -/
private theorem shownEntries_currentEntries (parent : Field) (entries : List (String × Tree))
    (valuesWalk : ∀ entry ∈ entries, ∀ kind field,
      view.walk kind field (field.currentPart kind entry.2) = view.walk kind field entry.2) :
    view.shownEntries parent (entries.filterMap parent.current?) =
      view.shownEntries parent entries := by
  rw [shownEntries, shownEntries, List.filterMap_filterMap]
  congr 1
  apply List.filterMap_congr
  intro entry member
  exact current?_bind_shown? view parent entry (valuesWalk entry member)

/-- Walking the current part of a value is walking the value. -/
theorem walk_currentPart (kind : Kind) (field : Field) (tree : Tree) :
    view.walk kind field (field.currentPart kind tree) = view.walk kind field tree := by
  induction tree generalizing kind field with
  | null | bool value | number value | text value => simp only [Field.currentPart]
  | sequence items inductionHypothesis =>
      cases kind with
      | scalar | map => simp only [Field.currentPart]
      | array =>
          simp only [Field.currentPart_sequence_array, walk_sequence_array, List.map_map]
          congr 1
          exact List.map_congr_left fun item member => inductionHypothesis item member .scalar field
      | grid =>
          simp only [Field.currentPart_sequence_grid, walk_sequence_grid, List.map_map]
          congr 1
          exact List.map_congr_left fun row member => inductionHypothesis row member .array field
  | mapping entries inductionHypothesis =>
      cases kind with
      | scalar =>
          rw [Field.currentPart_mapping_scalar]
          by_cases childless : field.children = []
          · rw [Field.filterMap_current?_of_childless field entries childless]
          · rw [walk_mapping_scalar view field _ childless,
              walk_mapping_scalar view field _ childless,
              shownEntries_currentEntries view field entries inductionHypothesis]
      | map =>
          simp only [Field.currentPart_mapping_map, walk_mapping_map, List.map_map]
          congr 1
          apply List.map_congr_left
          intro entry member
          exact congrArg (Prod.mk entry.1) (inductionHypothesis entry member .scalar field)
      | array | grid => simp only [Field.currentPart]

/-- The view of an example is the view of its current part. -/
theorem apply_currentPart (root : Field) (tree : Tree) :
    view.apply root (root.currentPart root.kind tree) = view.apply root tree := by
  by_cases scalar : root.kind = .scalar
  · cases tree with
    | mapping entries =>
        rw [scalar, Field.currentPart_mapping_scalar, apply_mapping_scalar view root _ scalar,
          apply_mapping_scalar view root _ scalar, shownEntries_currentEntries]
        exact fun entry _ kind field => view.walk_currentPart kind field entry.2
    | null | bool value | number value | text value | sequence items =>
        simp only [scalar, Field.currentPart]
  · rw [apply_of_not_scalar view root _ scalar, apply_of_not_scalar view root _ scalar,
      walk_currentPart]

variable {left right : Field}

/-- Fields that agree below show the same of an entry, if they do so of its value. -/
private theorem shown?_eq_of_agree (agree : left.AgreeBelow right) (entry : String × Tree)
    (valueWalks : ∀ kind (child other : Field), child.AgreeBelow other →
      view.walk kind child entry.2 = view.walk kind other entry.2) :
    view.shown? left entry = view.shown? right entry := by
  cases declared : left.lookup? entry.1 with
  | none =>
      rw [shown?_of_undeclared declared,
        shown?_of_undeclared (agree.lookup?_eq_none declared)]
  | some found =>
      obtain ⟨position, child⟩ := found
      obtain ⟨other, otherDeclared, same⟩ := agree.lookup?_eq_some declared
      obtain ⟨flags, currentSame⟩ := Field.of_redact_eq same
      have reveals : view.filter.reveals child = view.filter.reveals other := by
        rw [← Field.reveals_redact, same, Field.reveals_redact]
      rw [shown?_of_declared declared, shown?_of_declared otherDeclared, reveals]
      cases deprecated : other.isDeprecated with
      | true =>
          have hidden : view.filter.reveals other = false := by
            rw [Filter.reveals_eq, deprecated]
            rfl
          simp [hidden]
      | false =>
          obtain ⟨info, below⟩ := currentSame deprecated
          have kinds : child.kind = other.kind := congrArg FieldInfo.kind info
          have advanced : child.isAdvanced = other.isAdvanced := congrArg FieldInfo.isAdvanced info
          have selects : view.filter.selects child = view.filter.selects other := by
            simp only [Filter.selects, advanced, flags]
          rw [keeps, keeps, selects, kinds, valueWalks other.kind child other below]

/-- Fields that agree below show the same of a mapping, if they do so of its values. -/
private theorem shownEntries_eq_of_agree (agree : left.AgreeBelow right)
    (entries : List (String × Tree))
    (valuesWalk : ∀ entry ∈ entries, ∀ kind (child other : Field), child.AgreeBelow other →
      view.walk kind child entry.2 = view.walk kind other entry.2) :
    view.shownEntries left entries = view.shownEntries right entries := by
  have ranks (entry : String × Tree) : left.rank entry.1 = right.rank entry.1 := by
    cases declared : left.lookup? entry.1 with
    | none =>
        simp only [Field.rank, declared, agree.lookup?_eq_none declared, agree.length_children]
    | some found =>
        obtain ⟨other, otherDeclared, -⟩ := agree.lookup?_eq_some declared
        simp only [Field.rank, declared, otherDeclared]
  have shown : entries.filterMap (view.shown? left) = entries.filterMap (view.shown? right) :=
    List.filterMap_congr fun entry member =>
      shown?_eq_of_agree view agree entry (valuesWalk entry member)
  rw [shownEntries, shownEntries, shown, funext ranks]

/-- Fields that agree below walk a value alike. -/
theorem walk_eq_of_agree (kind : Kind) (agree : left.AgreeBelow right) (tree : Tree) :
    view.walk kind left tree = view.walk kind right tree := by
  induction tree generalizing kind left right with
  | null | bool value | number value | text value => simp only [walk]
  | sequence items inductionHypothesis =>
      cases kind with
      | scalar | map => simp only [walk]
      | array =>
          rw [walk_sequence_array, walk_sequence_array]
          congr 1
          exact List.map_congr_left fun item member => inductionHypothesis item member .scalar agree
      | grid =>
          rw [walk_sequence_grid, walk_sequence_grid]
          congr 1
          exact List.map_congr_left fun row member => inductionHypothesis row member .array agree
  | mapping entries inductionHypothesis =>
      cases kind with
      | scalar =>
          by_cases childless : left.children = []
          · have otherChildless : right.children = [] := by
              rw [← List.length_eq_zero_iff, ← agree.length_children, childless, List.length_nil]
            rw [walk_mapping_of_childless view left entries childless,
              walk_mapping_of_childless view right entries otherChildless]
          · have otherDeclares : right.children ≠ [] := by
              rwa [← List.length_pos_iff, ← agree.length_children, List.length_pos_iff]
            rw [walk_mapping_scalar view left entries childless,
              walk_mapping_scalar view right entries otherDeclares,
              shownEntries_eq_of_agree view agree entries fun entry member kind child other =>
                inductionHypothesis entry member kind]
      | map =>
          rw [walk_mapping_map, walk_mapping_map]
          congr 1
          apply List.map_congr_left
          intro entry member
          exact congrArg (Prod.mk entry.1) (inductionHypothesis entry member .scalar agree)
      | array | grid => simp only [walk]

/-- Roots of one kind that agree below show the same of an example. -/
theorem apply_eq_of_agree (kinds : left.kind = right.kind) (agree : left.AgreeBelow right)
    (tree : Tree) : view.apply left tree = view.apply right tree := by
  by_cases scalar : left.kind = .scalar
  · have otherScalar : right.kind = .scalar := kinds.symm.trans scalar
    cases tree with
    | mapping entries =>
        rw [apply_mapping_scalar view left entries scalar,
          apply_mapping_scalar view right entries otherScalar,
          shownEntries_eq_of_agree view agree entries fun entry _ kind child other below =>
            view.walk_eq_of_agree kind below entry.2]
    | null | bool value | number value | text value | sequence items =>
        simp only [apply, kinds]
        exact view.walk_eq_of_agree right.kind agree _
  · rw [apply_of_not_scalar view left tree scalar,
      apply_of_not_scalar view right tree (kinds ▸ scalar), kinds,
      view.walk_eq_of_agree right.kind agree tree]

/-- Whether no entry at a walked position of the view of an example names a deprecated
field. -/
def HidesDeprecated (root : Field) (tree : Tree) : Prop :=
  ∀ path above parent entries,
    Field.Visits root.kind root (view.apply root tree) path above parent entries →
    ∀ entry ∈ entries, ∀ position child, parent.lookup? entry.1 = some (position, child) →
      child.isDeprecated = false

/-- No entry of a view names a deprecated field. -/
theorem hidesDeprecated (root : Field) (tree : Tree) : view.HidesDeprecated root tree := by
  intro path above parent shown visits entry member position child declared
  rw [apply_of_declares view root tree visits.field_declares] at visits
  obtain ⟨entries, -, -, rfl⟩ := visits.source_of_walk
  obtain ⟨-, -, -, revealed, -⟩ := Field.Visits.source_of_shown declared member
  exact Filter.not_deprecated_of_reveals revealed

end View

end FieldGuide
