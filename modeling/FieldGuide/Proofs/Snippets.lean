import FieldGuide.Field.Edit
import FieldGuide.Proofs.Example.Datum
import FieldGuide.Proofs.View.DistinctKeys
import FieldGuide.Snippets

/-!
# Keys of configuration snippets

The keys of an example become text when it is encoded. Distinct keys stay distinct unless
one is the text of another that is a number or a boolean: exactly then the encoded tree
repeats a key and does not encode to itself. Where no key is repeated, no view repeats one
either, under the name of the component's role or not.
-/

namespace FieldGuide.Snippets

/-- The snippet of a view. -/
def shown (snippets : Snippets) : Filter → String
  | .common => snippets.common
  | .advanced => snippets.advanced

/-- The snippets of an example that encodes are the texts of the trees behind them. -/
theorem ofExample_of_toTree {shown : Datum} {tree : Tree} (encoded : shown.toTree = .ok tree)
    (role : Role) (config : Field) (nested : Bool) (options : ViewOptions) :
    ofExample role config nested shown options =
      .ok ⟨(shownTree role config nested ⟨.common, options⟩ tree).yaml,
        (shownTree role config nested ⟨.advanced, options⟩ tree).yaml⟩ := by
  rw [ofExample, encoded]
  rfl

/-- An example that encodes has a snippet for each view, the text of the tree behind it. -/
theorem exists_shown_ofExample {datum : Datum} {tree : Tree} (encoded : datum.toTree = .ok tree)
    (role : Role) (config : Field) (nested : Bool) (options : ViewOptions) :
    ∃ snippets, ofExample role config nested datum options = .ok snippets ∧
      ∀ filter, snippets.shown filter =
        (shownTree role config nested ⟨filter, options⟩ tree).yaml := by
  refine ⟨_, ofExample_of_toTree encoded role config nested options, fun filter => ?_⟩
  cases filter <;> rfl

/-- An example with one text. -/
def note (text : String) : Datum := .record [("note", .text text)]

/-- The tree behind a snippet has distinct keys when the tree of the example has. -/
theorem hasDistinctKeys_shownTree {tree : Tree} (distinct : tree.hasDistinctKeys = true)
    (role : Role) (config : Field) (nested : Bool) (view : View) :
    (shownTree role config nested view tree).hasDistinctKeys = true := by
  have ordered := View.hasDistinctKeys_apply view config distinct
  rw [shownTree]
  cases nested with
  | true => exact (Tree.hasDistinctKeys_under _ _).trans ordered
  | false => exact ordered

/-- An encoded example repeats no key, and encodes to itself, exactly when no text among
the keys of a mapping is the text of a number or a boolean among them. The trees behind
its snippets then repeat no key either. -/
theorem distinctKeys_iff_readApart {datum : Datum} {tree : Tree}
    (encoded : datum.toTree = .ok tree) :
    ∃ draft, datum.toDraft = .ok draft ∧
      (tree.hasDistinctKeys = true ↔ draft.everyMapping Draft.readApart = true) ∧
      ((Datum.ofTree tree).toTree = .ok tree ↔ draft.everyMapping Draft.readApart = true) ∧
      (draft.everyMapping Draft.readApart = true →
        ∀ (role : Role) (config : Field) (nested : Bool) (options : ViewOptions),
          let shown (filter : Filter) := shownTree role config nested ⟨filter, options⟩ tree
          ofExample role config nested datum options =
              .ok ⟨(shown .common).yaml, (shown .advanced).yaml⟩ ∧
            ∀ filter, (shown filter).hasDistinctKeys = true) := by
  obtain ⟨draft, described, -⟩ := bind_eq_ok.mp encoded
  have distinct := Datum.hasDistinctKeys_toTree described encoded
  refine ⟨draft, described, distinct, Datum.toTree_ofTree_iff.trans distinct, ?_⟩
  intro apart role config nested options
  refine ⟨?_, fun filter => hasDistinctKeys_shownTree (distinct.mpr apart) role config nested _⟩
  rw [ofExample, encoded]
  rfl

/-- A map whose keys are the number one and its text. -/
def clashingKeys : Datum := .mapping [(.integer 1, .text "a"), (.text "1", .text "b")]

/-- The encoded map repeats a key, encodes to another tree, and repeats the key in its
snippets. -/
theorem repeatsKey_clashingKeys :
    ∃ tree, clashingKeys.toTree = .ok tree ∧ tree.hasDistinctKeys = false ∧
      (Datum.ofTree tree).toTree ≠ .ok tree ∧
      (shownTree .input (.root []) false ⟨.common, {}⟩ tree).hasDistinctKeys = false := by
  have encoded : clashingKeys.toTree = .ok (.mapping [("1", .text "a"), ("1", .text "b")]) := rfl
  have repeated :
      (Tree.mapping [("1", .text "a"), ("1", .text "b")]).hasDistinctKeys = false := by decide
  refine ⟨_, encoded, repeated, ?_, ?_⟩
  · intro same
    rw [Datum.toTree_ofTree_iff.mp same] at repeated
    cases repeated
  · decide

/-- A map whose keys are a number, a boolean and other texts. -/
def mixedKeys : Datum :=
  .mapping [(.integer 1, .text "a"), (.text "one", .absent), (.bool true, .text "b")]

/-- The encoded map with other texts encodes to itself and repeats no key in its
snippets. -/
theorem distinctKeys_mixedKeys :
    ∃ tree, mixedKeys.toTree = .ok tree ∧ (Datum.ofTree tree).toTree = .ok tree ∧
      ∀ filter,
        (shownTree .input (.root []) true ⟨filter, {}⟩ tree).hasDistinctKeys = true := by
  have encoded : mixedKeys.toTree =
      .ok (.mapping [("1", .text "a"), ("one", .null), ("true", .text "b")]) := rfl
  obtain ⟨draft, described, -, idempotent, snippets⟩ := distinctKeys_iff_readApart encoded
  have apart : draft.everyMapping Draft.readApart = true := by
    obtain rfl := Except.ok.inj described
    decide
  exact ⟨_, encoded, idempotent.mpr apart, (snippets apart .input (.root []) true {}).2⟩

end FieldGuide.Snippets
