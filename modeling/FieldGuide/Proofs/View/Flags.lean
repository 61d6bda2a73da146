import FieldGuide.Field.Edit
import FieldGuide.Proofs.Field.Redaction
import FieldGuide.Proofs.View.Inclusion

/-!
# Raising flags

The flags of a field hide it, but they also act at a distance: a filter reveals a field for the
sake of one below it, and keeps a walked value for the sake of an entry that is left in it.
This module raises flags anywhere in a tree of fields and shows that a view only loses entries:
what it shows afterwards is part of what it showed before.
-/

namespace FieldGuide

namespace Field

/-- Whether a field becomes another one when flags that hide are raised, its own and those of
fields below it. Names, kinds and the shape of the tree stay; the rest may change. -/
inductive RaisedTo : Field → Field → Prop
  | intro {left right : Field} (name : left.name = right.name) (kind : left.kind = right.kind)
      (advanced : left.isAdvanced = true → right.isAdvanced = true)
      (deprecated : left.isDeprecated = true → right.isDeprecated = true)
      (children : List.Forall₂ RaisedTo left.children right.children) : RaisedTo left right

namespace RaisedTo

variable {left right : Field} {filter : Filter} {key : String}

/-- Raising flags leaves the kind. -/
theorem kind_eq (raised : left.RaisedTo right) : left.kind = right.kind := by
  obtain ⟨-, kind, -, -, -⟩ := raised
  exact kind

/-- A field with raised flags is selected only if the field is. -/
theorem selects (raised : left.RaisedTo right) (selected : filter.selects right = true) :
    filter.selects left = true := by
  obtain ⟨-, -, advanced, deprecated, -⟩ := raised
  cases filter with
  | common =>
      rw [Filter.selects_common, Bool.and_eq_true, Bool.not_eq_true', Bool.not_eq_true',
        ← Bool.not_eq_true, ← Bool.not_eq_true] at selected ⊢
      exact ⟨mt advanced selected.1, mt deprecated selected.2⟩
  | advanced =>
      rw [Filter.selects_advanced, Bool.not_eq_true', ← Bool.not_eq_true] at selected ⊢
      exact mt deprecated selected

/-- A field with raised flags is revealed only if the field is. -/
theorem reveals (raised : left.RaisedTo right) (revealed : filter.reveals right = true) :
    filter.reveals left = true := by
  induction right using Field.induction generalizing left with
  | step right inductionHypothesis =>
      have selects : filter.selects right = true → filter.selects left = true := raised.selects
      obtain ⟨-, -, -, deprecated, children⟩ := raised
      rw [Filter.reveals_eq, Bool.and_eq_true, Bool.or_eq_true, List.any_eq_true] at revealed
      obtain ⟨current, shown⟩ := revealed
      rcases shown with selected | ⟨child, member, childRevealed⟩
      · exact Filter.reveals_of_selects (selects selected)
      · obtain ⟨other, otherMember, childRaised⟩ := exists_mem_of_forall₂ children.flip member
        have otherRevealed := inductionHypothesis child member childRaised childRevealed
        refine Filter.reveals_of_child ?_ otherMember otherRevealed
        rw [Bool.not_eq_true', ← Bool.not_eq_true] at current
        exact Bool.not_eq_true _ ▸ mt deprecated current

/-- Raising flags leaves the names of the children. -/
theorem names (raised : left.RaisedTo right) :
    left.children.map (·.name) = right.children.map (·.name) := by
  obtain ⟨-, -, -, -, children⟩ := raised
  rw [← List.forall₂_eq_eq_eq, List.forall₂_map_left_iff, List.forall₂_map_right_iff]
  exact children.imp fun _ _ ⟨name, _, _, _, _⟩ => name

/-- Raising flags leaves what keys are declared. -/
theorem lookup?_eq_none_iff (raised : left.RaisedTo right) :
    left.lookup? key = none ↔ right.lookup? key = none := by
  have declares (field : Field) :
      field.declares key = (field.children.map (·.name)).any (· == key) := by
    rw [Field.declares, List.any_map]
    rfl
  rw [Field.lookup?_eq_none_iff, Field.lookup?_eq_none_iff, declares, declares, raised.names]

/-- Raising flags leaves the positions of declared keys, and raises flags of their fields. -/
theorem lookup?_eq_some (raised : left.RaisedTo right) {position : Nat} {other : Field}
    (declared : right.lookup? key = some (position, other)) :
    ∃ child, left.lookup? key = some (position, child) ∧ child.RaisedTo other := by
  have firstAt (field : Field) : field.firstAt position key =
      ((field.children.map (·.name)).take position).all (· != key) := by
    rw [Field.firstAt, ← List.map_take, List.all_map]
    rfl
  obtain ⟨listed, named, first⟩ := Field.lookup?_eq_some_iff.mp declared
  obtain ⟨inRange, rfl⟩ := List.getElem?_eq_some_iff.mp listed
  have names := raised.names
  obtain ⟨-, -, -, -, children⟩ := raised
  obtain ⟨lengths, related⟩ := List.forall₂_iff_get.mp children
  have inRangeLeft : position < left.children.length := lengths ▸ inRange
  have childRaised := related position inRangeLeft inRange
  refine ⟨left.children[position], Field.lookup?_eq_some_iff.mpr ⟨?_, ?_, ?_⟩, childRaised⟩
  · exact List.getElem?_eq_getElem inRangeLeft
  · obtain ⟨sameName, -, -, -, -⟩ := childRaised
    exact sameName.trans named
  · rw [firstAt, names, ← firstAt, first]

/-- Raising flags leaves the ranks of keys. -/
theorem rank_eq (raised : left.RaisedTo right) (key : String) : left.rank key = right.rank key := by
  have lengths : left.children.length = right.children.length := by
    simpa using congrArg List.length raised.names
  cases declared : right.lookup? key with
  | none => rw [Field.rank_eq_length_iff.mpr declared,
      Field.rank_eq_length_iff.mpr (raised.lookup?_eq_none_iff.mpr declared), lengths]
  | some found =>
      obtain ⟨child, leftDeclared, -⟩ := raised.lookup?_eq_some declared
      rw [Field.rank, Field.rank, declared, leftDeclared]

end RaisedTo

end Field

namespace View

variable {view : View} {left right : Field}

/-- What is shown of an entry after raising flags was shown before, with a value that the new
one is part of, if that holds of walking the value. -/
theorem shown?_of_raised (raised : left.RaisedTo right) {entry shown : String × Tree}
    (valueWithin : ∀ kind (child other : Field), child.RaisedTo other →
      Tree.Within (view.walk kind other entry.2) (view.walk kind child entry.2))
    (shows : view.shown? right entry = some shown) :
    ∃ before, view.shown? left entry = some before ∧ shown.1 = before.1 ∧
      Tree.Within shown.2 before.2 := by
  cases declared : right.lookup? entry.1 with
  | none =>
      rw [shown?_of_undeclared declared] at shows
      rw [shown?_of_undeclared (raised.lookup?_eq_none_iff.mpr declared)]
      exact ⟨shown, shows, rfl, Tree.Within.refl _⟩
  | some found =>
      obtain ⟨position, other⟩ := found
      obtain ⟨child, leftDeclared, childRaised⟩ := raised.lookup?_eq_some declared
      have within := valueWithin other.kind child other childRaised
      have kinds := childRaised.kind_eq
      rw [shown?_of_declared declared, Option.ite_none_right_eq_some, Bool.and_eq_true] at shows
      obtain ⟨⟨revealed, kept⟩, same⟩ := shows
      have keptBefore : view.keeps child (view.walk child.kind child entry.2) = true := by
        rw [keeps, Bool.or_eq_true] at kept ⊢
        rw [kinds]
        exact kept.imp childRaised.selects within.isPopulated
      obtain rfl := Option.some.inj same
      rw [shown?_of_declared leftDeclared, childRaised.reveals revealed, keptBefore]
      exact ⟨_, rfl, rfl, kinds ▸ within⟩

/-- What a mapping shows after raising flags is part of what it showed before, if that holds of
walking its values. -/
theorem shownEntries_within_of_raised (raised : left.RaisedTo right)
    {entries : List (String × Tree)}
    (valuesWithin : ∀ entry ∈ entries, ∀ kind (child other : Field), child.RaisedTo other →
      Tree.Within (view.walk kind other entry.2) (view.walk kind child entry.2)) :
    Tree.Within (.mapping (view.shownEntries right entries))
      (.mapping (view.shownEntries left entries)) := by
  -- Ranks stay, so that both views select from the same entries in order.
  have inOrder (field : Field) (ranks : field.rank = left.rank) :
      view.shownEntries field entries =
        (orderedBy (fun entry => left.rank entry.1) entries).filterMap (view.shown? field) := by
    have keepsRank (entry shown : String × Tree) (shows : view.shown? field entry = some shown) :
        left.rank shown.1 = left.rank entry.1 := by
      rw [key_of_shown shows]
    rw [filterMap_orderedBy keepsRank, shownEntries, ranks]
  rw [inOrder right (funext raised.rank_eq).symm, inOrder left rfl]
  apply Tree.Within.mapping_filterMap_filterMap
  intro entry member shown shows
  exact shown?_of_raised raised (valuesWithin entry (mem_orderedBy.mp member)) shows

/-- Walking a value after raising flags leaves part of walking it before. -/
theorem walk_within_of_raised (kind : Kind) (raised : left.RaisedTo right) (tree : Tree) :
    Tree.Within (view.walk kind right tree) (view.walk kind left tree) := by
  induction tree generalizing kind left right with
  | null | bool value | number value | text value =>
      simp only [walk]
      exact Tree.Within.refl _
  | sequence items inductionHypothesis =>
      cases kind with
      | scalar | map =>
          simp only [walk]
          exact Tree.Within.refl _
      | array =>
          rw [walk_sequence_array, walk_sequence_array]
          exact .sequence_map fun item member => inductionHypothesis item member .scalar raised
      | grid =>
          rw [walk_sequence_grid, walk_sequence_grid]
          exact .sequence_map fun row member => inductionHypothesis row member .array raised
  | mapping entries inductionHypothesis =>
      cases kind with
      | scalar =>
          have childless_iff : left.children = [] ↔ right.children = [] := by
            rw [← List.map_eq_nil_iff (f := (·.name)), raised.names, List.map_eq_nil_iff]
          by_cases childless : left.children = []
          · rw [walk_mapping_of_childless _ _ _ childless,
              walk_mapping_of_childless _ _ _ (childless_iff.mp childless)]
            exact Tree.Within.refl _
          · rw [walk_mapping_scalar _ _ _ childless,
              walk_mapping_scalar _ _ _ (mt childless_iff.mpr childless)]
            exact shownEntries_within_of_raised raised fun entry member kind child other =>
              inductionHypothesis entry member kind
      | map =>
          rw [walk_mapping_map, walk_mapping_map]
          exact .mapping_map fun entry member => inductionHypothesis entry member .scalar raised
      | array | grid =>
          simp only [walk]
          exact Tree.Within.refl _

/-- Raising flags of fields only hides: the view of an example is part of the view before, so
that nothing but entries of mappings is deleted. -/
theorem apply_within_of_raised (raised : left.RaisedTo right) (tree : Tree) :
    Tree.Within (view.apply right tree) (view.apply left tree) := by
  have kinds := raised.kind_eq
  by_cases scalar : left.kind = .scalar
  · cases tree with
    | mapping entries =>
        rw [apply_mapping_scalar view right entries (kinds ▸ scalar),
          apply_mapping_scalar view left entries scalar]
        exact shownEntries_within_of_raised raised fun entry _ kind child other childRaised =>
          walk_within_of_raised kind childRaised entry.2
    | null | bool value | number value | text value | sequence items =>
        simp only [apply, kinds]
        exact walk_within_of_raised right.kind raised _
  · rw [apply_of_not_scalar view right tree (kinds ▸ scalar),
      apply_of_not_scalar view left tree scalar, kinds]
    exact walk_within_of_raised right.kind raised tree

/-- A server with two settings, next to a token. -/
def proxy : Field :=
  .root [.ofChildren "server" [.ofType "host" .string, .ofType "port" .int],
    .ofType "token" .string]

/-- The server and its port for advanced readers only, and the token out of use. -/
def raisedProxy : Field :=
  .root [{ Field.ofChildren "server"
      [.ofType "host" .string, { Field.ofType "port" .int with isAdvanced := true }] with
      isAdvanced := true },
    { Field.ofType "token" .string with isDeprecated := true }]

/-- An example of the server. -/
def proxyExample : Tree :=
  .mapping [("token", .null), ("server", .mapping [("port", .bool true), ("host", .bool false)])]

/-- The common view of the server loses the token and the port, and keeps the server for its
host. -/
theorem apply_within_of_raised_proxy :
    proxy.RaisedTo raisedProxy ∧
      apply ⟨.common, {}⟩ proxy proxyExample =
        .mapping [("server", .mapping [("host", .bool false), ("port", .bool true)]),
          ("token", .null)] ∧
      apply ⟨.common, {}⟩ raisedProxy proxyExample =
        .mapping [("server", .mapping [("host", .bool false)])] ∧
      Tree.Within (apply ⟨.common, {}⟩ raisedProxy proxyExample)
        (apply ⟨.common, {}⟩ proxy proxyExample) := by
  have raised : proxy.RaisedTo raisedProxy := by
    refine .intro rfl rfl id id (.cons ?_ (.cons ?_ .nil))
    · refine .intro rfl rfl (fun _ => rfl) id (.cons ?_ (.cons ?_ .nil))
      · exact .intro rfl rfl id id .nil
      · exact .intro rfl rfl (fun _ => rfl) id .nil
    · exact .intro rfl rfl id (fun _ => rfl) .nil
  exact ⟨raised, rfl, rfl, apply_within_of_raised raised proxyExample⟩

end View

end FieldGuide
