import FieldGuide.Field.Edit
import FieldGuide.Proofs.View.Entries

/-!
# The type key

A view can remove the key that names the type of a component while it walks an example. This
module deletes the key from the example beforehand, in the mappings that are walked against
fields of which none has the key as its name and nowhere else, and shows that a view that leaves
the key alone then shows the same. Removal and filtering do not depend on each other, although
the walk does both at once and drops what is left without entries.
-/

namespace FieldGuide

namespace Field

mutual

/-- A value arranged as `kind` says, without a key in the mappings that are walked against the
children of a field and whose children do not have the key as a name. Other mappings, those of
free keys among them, keep the key. -/
def withoutKey (key : String) (kind : Kind) (field : Field) : Tree → Tree
  | .mapping entries =>
      match kind with
      | .scalar =>
          if field.children.isEmpty then .mapping entries
          else .mapping (entriesWithoutKey key field entries)
      | .map => .mapping (valuesWithoutKey key field entries)
      | .array | .grid => .mapping entries
  | .sequence items =>
      match kind with
      | .array => .sequence (itemsWithoutKey key .scalar field items)
      | .grid => .sequence (itemsWithoutKey key .array field items)
      | .scalar | .map => .sequence items
  | other => other

/-- The items of a sequence without a key, each arranged as `kind` says. -/
def itemsWithoutKey (key : String) (kind : Kind) (field : Field) : List Tree → List Tree
  | [] => []
  | item :: rest => withoutKey key kind field item :: itemsWithoutKey key kind field rest

/-- The entries of a map with free keys, with a key left out of their values alone. -/
def valuesWithoutKey (key : String) (field : Field) :
    List (String × Tree) → List (String × Tree)
  | [] => []
  | (name, value) :: rest =>
      (name, withoutKey key .scalar field value) :: valuesWithoutKey key field rest

/-- The entries of a mapping that is walked against the children of `parent`, without a key and
with the key left out of the values that the children describe. A key that is the name of a
child stays. -/
def entriesWithoutKey (key : String) (parent : Field) :
    List (String × Tree) → List (String × Tree)
  | [] => []
  | (name, value) :: rest =>
      match parent.lookup? name with
      | none =>
          if name == key then entriesWithoutKey key parent rest
          else (name, value) :: entriesWithoutKey key parent rest
      | some (_, child) =>
          (name, withoutKey key child.kind child value) :: entriesWithoutKey key parent rest

end

/-- A whole example without a key. The mapping of a scalar root is walked even when the root
declares nothing. -/
def exampleWithoutKey (key : String) (root : Field) : Tree → Tree
  | .mapping entries =>
      match root.kind with
      | .scalar => .mapping (root.entriesWithoutKey key entries)
      | kind => root.withoutKey key kind (.mapping entries)
  | other => root.withoutKey key root.kind other

/-- What is left of one entry of a mapping that is walked against the children of `parent`. -/
def entryWithoutKey? (key : String) (parent : Field) (entry : String × Tree) :
    Option (String × Tree) :=
  match parent.lookup? entry.1 with
  | none => if entry.1 == key then none else some entry
  | some (_, child) => some (entry.1, withoutKey key child.kind child entry.2)

variable (key : String) (kind : Kind) (field : Field) (entries : List (String × Tree))
  (items : List Tree)

/-- Each entry is looked at by itself. -/
theorem entriesWithoutKey_eq_filterMap :
    entriesWithoutKey key field entries = entries.filterMap (field.entryWithoutKey? key) := by
  induction entries with
  | nil => rw [entriesWithoutKey]; rfl
  | cons entry rest inductionHypothesis =>
      obtain ⟨name, value⟩ := entry
      rw [entriesWithoutKey, inductionHypothesis, List.filterMap_cons, entryWithoutKey?]
      cases field.lookup? name with
      | none => cases name == key <;> simp
      | some found => rfl

/-- The mapping of a childless field keeps the key. -/
theorem withoutKey_mapping_of_childless (childless : field.children = []) :
    withoutKey key .scalar field (.mapping entries) = .mapping entries := by
  simp [withoutKey, childless]

/-- A mapping that is walked against children is left with what is left of each entry. -/
theorem withoutKey_mapping_scalar (declares : field.children ≠ []) :
    withoutKey key .scalar field (.mapping entries) =
      .mapping (entries.filterMap (field.entryWithoutKey? key)) := by
  simp [withoutKey, declares, entriesWithoutKey_eq_filterMap]

/-- The values of a map with free keys are looked at one by one. -/
theorem withoutKey_mapping_map :
    withoutKey key .map field (.mapping entries) =
      .mapping (entries.map fun entry => (entry.1, withoutKey key .scalar field entry.2)) := by
  rw [withoutKey]
  congr 1
  induction entries with
  | nil => rw [valuesWithoutKey]; rfl
  | cons entry rest inductionHypothesis =>
      rw [valuesWithoutKey, inductionHypothesis, List.map_cons]

/-- The items of a list are each looked at in the same way. -/
theorem itemsWithoutKey_eq_map :
    itemsWithoutKey key kind field items = items.map (withoutKey key kind field) := by
  induction items with
  | nil => rw [itemsWithoutKey]; rfl
  | cons item rest inductionHypothesis =>
      rw [itemsWithoutKey, inductionHypothesis, List.map_cons]

/-- The items of an array are looked at one by one. -/
theorem withoutKey_sequence_array :
    withoutKey key .array field (.sequence items) =
      .sequence (items.map (withoutKey key .scalar field)) := by
  rw [withoutKey]
  exact congrArg Tree.sequence (itemsWithoutKey_eq_map key .scalar field items)

/-- The rows of a grid are looked at as arrays. -/
theorem withoutKey_sequence_grid :
    withoutKey key .grid field (.sequence items) =
      .sequence (items.map (withoutKey key .array field)) := by
  rw [withoutKey]
  exact congrArg Tree.sequence (itemsWithoutKey_eq_map key .array field items)

end Field

namespace View

variable (filter : Filter) (key : String)

/-- What is shown of an entry when the key is removed is what is shown of the entry without the
key, if that holds of walking its value. -/
private theorem shown?_removing (parent : Field) (entry : String × Tree)
    (valueWalks : ∀ kind field, walk ⟨filter, ⟨true, key⟩⟩ kind field entry.2 =
      walk ⟨filter, ⟨false, key⟩⟩ kind field (field.withoutKey key kind entry.2)) :
    shown? ⟨filter, ⟨true, key⟩⟩ parent entry =
      (parent.entryWithoutKey? key entry).bind (shown? ⟨filter, ⟨false, key⟩⟩ parent) := by
  cases declared : parent.lookup? entry.1 with
  | none =>
      rw [shown?_of_undeclared declared, Field.entryWithoutKey?, declared]
      cases same : entry.1 == key with
      | true => simp [ViewOptions.strips, same]
      | false =>
          simp only [ViewOptions.strips, same, Bool.and_false, Bool.false_eq_true, if_false,
            Option.bind_some]
          rw [shown?_of_undeclared declared]
          rfl
  | some found =>
      obtain ⟨position, child⟩ := found
      have remains : parent.lookup? (entry.1, child.withoutKey key child.kind entry.2).1 =
          some (position, child) := declared
      rw [Field.entryWithoutKey?, declared, Option.bind_some, shown?_of_declared declared,
        shown?_of_declared remains, valueWalks]
      rfl

/-- What a mapping shows when the key is removed is what it shows without the key, if that holds
of walking its values. -/
private theorem shownEntries_removing (parent : Field) (entries : List (String × Tree))
    (valuesWalk : ∀ entry ∈ entries, ∀ kind field, walk ⟨filter, ⟨true, key⟩⟩ kind field entry.2 =
      walk ⟨filter, ⟨false, key⟩⟩ kind field (field.withoutKey key kind entry.2)) :
    shownEntries ⟨filter, ⟨true, key⟩⟩ parent entries =
      shownEntries ⟨filter, ⟨false, key⟩⟩ parent
        (entries.filterMap (parent.entryWithoutKey? key)) := by
  rw [shownEntries, shownEntries, List.filterMap_filterMap]
  congr 1
  apply List.filterMap_congr
  intro entry member
  exact shown?_removing filter key parent entry (valuesWalk entry member)

/-- Walking a value with the key removed is walking the value without the key. -/
theorem walk_removing (kind : Kind) (field : Field) (tree : Tree) :
    walk ⟨filter, ⟨true, key⟩⟩ kind field tree =
      walk ⟨filter, ⟨false, key⟩⟩ kind field (field.withoutKey key kind tree) := by
  induction tree generalizing kind field with
  | null | bool value | number value | text value => simp only [Field.withoutKey, walk]
  | sequence items inductionHypothesis =>
      cases kind with
      | scalar | map => simp only [Field.withoutKey, walk]
      | array =>
          simp only [Field.withoutKey_sequence_array, walk_sequence_array, List.map_map]
          congr 1
          exact List.map_congr_left fun item member => inductionHypothesis item member .scalar field
      | grid =>
          simp only [Field.withoutKey_sequence_grid, walk_sequence_grid, List.map_map]
          congr 1
          exact List.map_congr_left fun row member => inductionHypothesis row member .array field
  | mapping entries inductionHypothesis =>
      cases kind with
      | scalar =>
          by_cases childless : field.children = []
          · simp only [Field.withoutKey_mapping_of_childless _ _ _ childless,
              walk_mapping_of_childless _ _ _ childless]
          · simp only [Field.withoutKey_mapping_scalar _ _ _ childless,
              walk_mapping_scalar _ _ _ childless]
            rw [shownEntries_removing filter key field entries inductionHypothesis]
      | map =>
          simp only [Field.withoutKey_mapping_map, walk_mapping_map, List.map_map]
          congr 1
          apply List.map_congr_left
          intro entry member
          exact congrArg (Prod.mk entry.1) (inductionHypothesis entry member .scalar field)
      | array | grid => simp only [Field.withoutKey, walk]

/-- Removing the type key is separable from filtering: the view of an example with the key
removed is the view of the example without the key, with no key removed. -/
theorem apply_removing (root : Field) (tree : Tree) :
    apply ⟨filter, { removeTypeField := true, typeField := key }⟩ root tree =
      apply ⟨filter, { removeTypeField := false, typeField := key }⟩ root
        (root.exampleWithoutKey key tree) := by
  by_cases scalar : root.kind = .scalar
  · cases tree with
    | mapping entries =>
        rw [Field.exampleWithoutKey, scalar, Field.entriesWithoutKey_eq_filterMap,
          apply_mapping_scalar _ root _ scalar, apply_mapping_scalar _ root _ scalar,
          shownEntries_removing]
        exact fun entry _ kind field => walk_removing filter key kind field entry.2
    | null | bool value | number value | text value | sequence items =>
        simp only [Field.exampleWithoutKey, scalar, Field.withoutKey, apply, walk]
  · have walked : root.exampleWithoutKey key tree = root.withoutKey key root.kind tree := by
      cases tree <;> cases kind : root.kind <;> simp_all [Field.exampleWithoutKey]
    rw [walked, apply_of_not_scalar _ root _ scalar, apply_of_not_scalar _ root _ scalar,
      walk_removing]

/-- A field with labels under free keys, a value of any shape, and an advanced flag. -/
def labelled : Field :=
  .root [(Field.ofChildren "labels" [.ofType "text" .string]).edit (.arrange .map),
    .ofType "raw" .unknown, (Field.ofType "debug" .bool).edit .markAdvanced]

/-- An example of the field with a type in each of its mappings. -/
def typed : Tree :=
  .mapping [("type", .text "a"), ("debug", .bool true), ("raw", .mapping [("type", .text "b")]),
    ("labels", .mapping [("type", .mapping [("type", .text "c"), ("text", .text "d")])]),
    ("other", .mapping [("type", .text "e")])]

/-- The key stays where it is a free key, below a field without children and below a key that is
not declared. -/
example :
    labelled.exampleWithoutKey "type" typed =
      .mapping [("debug", .bool true), ("raw", .mapping [("type", .text "b")]),
        ("labels", .mapping [("type", .mapping [("text", .text "d")])]),
        ("other", .mapping [("type", .text "e")])] :=
  rfl

/-- The common view leaves the key at the same places, and has what it shows in declared order. -/
example :
    apply ⟨.common, { removeTypeField := true, typeField := "type" }⟩ labelled typed =
      .mapping [("labels", .mapping [("type", .mapping [("text", .text "d")])]),
        ("raw", .mapping [("type", .text "b")]), ("other", .mapping [("type", .text "e")])] := by
  rfl

end View

end FieldGuide
