import FieldGuide.Proofs.Inspect
import FieldGuide.Proofs.Snippets
import FieldGuide.Proofs.Yaml.Block

/-!
# Nested and bare snippets

A nested snippet shows the same rows as the bare one, moved under the name of the
component's role. Peeling the name from the nested snippet takes two spaces from each line
and returns the bare snippet exactly when each row is a line with text. Literal blocks can
have rows that are not: an empty row in the middle of a text stays empty under the name.
-/

namespace FieldGuide

namespace Tree

/-- A mapping under a simple key has the rows of the mapping moved under a row for the
key. -/
theorem documentRows_under {tree : Tree} {key : String} (simple : Yaml.isSimpleKey key = true)
    (block : tree.isBlockMapping = true) :
    (tree.under key).documentRows =
      ⟨Yaml.keyText key ++ [':'], '\n'⟩ :: tree.documentRows.map Yaml.Row.indent := by
  have bare : tree.documentRows = tree.rows := by
    rw [documentRows, if_neg (by simp [isInline, block])]
  rw [bare, under, documentRows_mapping (List.cons_ne_nil _ _), List.flatMap_singleton,
    Yaml.entryRows, if_pos simple, if_pos block]

end Tree

namespace Snippets

/-- The name of a role is a key that stands on one row without quotes. -/
theorem keyText_roleName (role : Role) :
    Yaml.isSimpleKey role.name = true ∧ Yaml.keyText role.name = role.name.toList := by
  cases role <;> decide

/-- The nested text of a mapping peels to its bare text exactly when the rows of the bare
text are its lines. -/
theorem peel?_yaml_under_iff (role : Role) {tree : Tree} (block : tree.isBlockMapping = true) :
    Inspect.peel? (tree.under role.name).yaml role.name = some tree.yaml ↔
      Inspect.keepsLines '\n' tree.yaml.toList = true := by
  obtain ⟨simple, sameText⟩ := keyText_roleName role
  have noFeed : '\n' ∉ role.name.toList := by cases role <;> decide
  have noReturn : '\r' ∉ role.name.toList := by cases role <;> decide
  have peeled := Inspect.peel?_wrapped_iff noFeed noReturn tree.isWhole_of_mem_documentRows
  have wrapped : (tree.under role.name).yaml = .ofList (role.name.toList ++
      ':' :: '\n' :: (tree.documentRows.map Yaml.Row.indent).flatMap Yaml.Row.chars) := by
    rw [Tree.yaml, Tree.documentRows_under simple block, List.flatMap_cons, sameText]
    simp [Yaml.Row.chars]
  rw [wrapped, Tree.yaml, String.toList_ofList]
  exact peeled

/-- For each view that shows a mapping with entries, the nested snippet peels to the bare
one exactly when the rows of the bare snippet are its lines. -/
theorem peel?_nested_iff {datum : Datum} {tree : Tree} (encoded : datum.toTree = .ok tree)
    (role : Role) (config : Field) (options : ViewOptions) :
    ∃ nested bare, ofExample role config true datum options = .ok nested ∧
      ofExample role config false datum options = .ok bare ∧
      ∀ filter, (View.apply ⟨filter, options⟩ config tree).isBlockMapping = true →
        (Inspect.peel? (nested.shown filter) role.name = some (bare.shown filter) ↔
          Inspect.keepsLines '\n' (bare.shown filter).toList = true) := by
  obtain ⟨nested, nestedShows, nestedText⟩ :=
    exists_shown_ofExample encoded role config true options
  obtain ⟨bare, bareShows, bareText⟩ :=
    exists_shown_ofExample encoded role config false options
  refine ⟨nested, bare, nestedShows, bareShows, fun filter block => ?_⟩
  rw [nestedText, bareText]
  exact peel?_yaml_under_iff role block

/-- A text of two lines is a literal block of two lines, and its nested snippet peels to
the bare one. -/
theorem peel?_nested_twoLines :
    ∃ nested bare, ofExample .input (.root []) true (note "x\ny") {} = .ok nested ∧
      ofExample .input (.root []) false (note "x\ny") {} = .ok bare ∧
      Inspect.peel? nested.common "input" = some bare.common := by
  have encoded : (note "x\ny").toTree = .ok (.mapping [("note", .text "x\ny")]) := rfl
  obtain ⟨nested, bare, nestedShows, bareShows, peeled⟩ :=
    peel?_nested_iff encoded .input (.root []) {}
  refine ⟨nested, bare, nestedShows, bareShows, (peeled .common (by decide)).mpr ?_⟩
  obtain rfl := Except.ok.inj bareShows
  decide

/-- An empty line in the middle of a text stays empty under the name, so that nothing can
be peeled from the nested snippet. -/
theorem peel?_nested_blankLine :
    ∃ tree nested bare, (note "x\n\ny").toTree = .ok tree ∧
      (View.apply ⟨.common, {}⟩ (.root []) tree).isBlockMapping = true ∧
      ofExample .input (.root []) true (note "x\n\ny") {} = .ok nested ∧
      ofExample .input (.root []) false (note "x\n\ny") {} = .ok bare ∧
      nested.common = "input:\n  note: |-\n    x\n\n    y\n" ∧
      bare.common = "note: |-\n  x\n\n  y\n" ∧
      Inspect.peel? nested.common "input" = none := by
  have encoded : (note "x\n\ny").toTree = .ok (.mapping [("note", .text "x\n\ny")]) := rfl
  refine ⟨_, _, _, encoded, by decide, ofExample_of_toTree encoded _ _ _ _,
    ofExample_of_toTree encoded _ _ _ _, ?_, ?_, ?_⟩
  all_goals decide

end Snippets

end FieldGuide
