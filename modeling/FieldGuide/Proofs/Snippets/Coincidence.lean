import FieldGuide.Page.Tabs
import FieldGuide.Proofs.Snippets
import FieldGuide.Proofs.Yaml.Extent

/-!
# Snippets that coincide

A page compares the texts of the two snippets, not the trees behind them. The common view is
part of the advanced one, so that the texts are the same only when the trees are: a page shows
one block exactly when hiding advanced fields removes nothing, nested or not.
-/

namespace FieldGuide

namespace Tree

/-- Parts that are the same as their trees are these trees if each of them is. -/
theorem eq_of_same {smaller larger : List Tree}
    (parts : List.Forall₂ Within smaller larger)
    (same : List.Forall₂ (fun part tree => part.same tree = true) smaller larger)
    (each : ∀ part ∈ smaller, ∀ {tree}, Within part tree → part.same tree = true → part = tree) :
    smaller = larger := by
  have related := (List.forall₂_and_left _ _).mpr ⟨each, parts⟩
  rw [← List.forall₂_eq_eq_eq]
  exact related.mp (fun part tree hypotheses equal => hypotheses.1 hypotheses.2 equal) same

/-- A part of a tree that reads the same as the tree lacks nothing: its numbers are those of
the tree and not others that compare as equal. -/
theorem Within.same_iff {smaller larger : Tree} (within : Within smaller larger) :
    smaller.same larger = true ↔ smaller = larger := by
  refine ⟨fun equal => ?_, fun equal => equal ▸ smaller.same_refl⟩
  induction smaller generalizing larger with
  | null | bool value | number value | text value =>
      cases within
      rfl
  | sequence items inductionHypothesis =>
      cases within with
      | sequence parts =>
          exact congrArg Tree.sequence
            (eq_of_same parts (same_sequence.mp equal) inductionHypothesis)
  | mapping entries inductionHypothesis =>
      cases within with
      | @mapping _ others kept selected keys values =>
          obtain ⟨sameKeys, sameValues⟩ := same_mapping.mp equal
          -- With as many keys as the tree has, no entry is left out.
          have keptKeys := congrArg List.length (keys.symm.trans sameKeys)
          rw [List.length_map, List.length_map] at keptKeys
          obtain rfl := selected.eq_of_length keptKeys
          have equalValues := eq_of_same values sameValues (List.forall_mem_map.mpr
            inductionHypothesis)
          exact congrArg Tree.mapping
            ((List.zip_of_prod sameKeys equalValues).trans (List.zip_of_prod rfl rfl).symm)

/-- A part of a tree is part of it under a key as well. -/
theorem Within.under {smaller larger : Tree} (within : Within smaller larger) (key : String) :
    Within (smaller.under key) (larger.under key) :=
  .mapping (List.Sublist.refl _) rfl (.cons within .nil)

end Tree

namespace Page

/-- Only snippets that coincide are shown as one block. -/
theorem snippetTabs_eq_block_iff (snippets : Snippets) :
    snippetTabs snippets =
        fencedYaml "yml" "# Config fields, showing default values" snippets.common ++ "\n" ↔
      snippets.coincide = true := by
  rw [snippetTabs]
  split
  · simp [*]
  · rename_i apart
    refine ⟨fun equal => ?_, fun coincide => absurd coincide apart⟩
    -- Tabs start with a tag and a block with a fence.
    have start := congrArg (fun text : String => text.toList.head?) equal
    simp only [fencedYaml, String.toList_append, List.head?_append] at start
    exact absurd (Option.some.inj start) (by decide)

end Page

namespace Snippets

/-- The tree behind the common snippet is part of the tree behind the advanced one. -/
theorem shownTree_within (role : Role) (config : Field) (nested : Bool) (options : ViewOptions)
    (tree : Tree) :
    Tree.Within (shownTree role config nested ⟨.common, options⟩ tree)
      (shownTree role config nested ⟨.advanced, options⟩ tree) := by
  have applied : Tree.Within (View.apply ⟨.common, options⟩ config tree)
      (View.apply ⟨.advanced, options⟩ config tree) := by
    rcases View.apply_cases config tree with ⟨entries, rfl, shows⟩ | walks
    · rw [shows, shows]
      exact View.shownEntries_within options config
        fun entry _ kind field => View.walk_within options kind field entry.2
    · rw [walks, walks]
      exact View.walk_within options config.kind config tree
  cases nested with
  | true => exact applied.under role.name
  | false => exact applied

/-- Two trees behind snippets are equal exactly when the views are, nested or not. -/
theorem shownTree_inj (role : Role) (config : Field) (nested : Bool) (view other : View)
    (tree : Tree) :
    shownTree role config nested view tree = shownTree role config nested other tree ↔
      view.apply config tree = other.apply config tree := by
  cases nested <;> simp [shownTree, Tree.under]

/-- The snippets of an example coincide exactly when both views show equal trees, nested or
not. The page then shows one block, and tabs otherwise. -/
theorem coincide_iff_same {datum : Datum} {tree : Tree} (encoded : datum.toTree = .ok tree)
    (role : Role) (config : Field) (options : ViewOptions) (nested : Bool) :
    let common := View.apply ⟨.common, options⟩ config tree
    let advanced := View.apply ⟨.advanced, options⟩ config tree
    ∃ snippets, ofExample role config nested datum options = .ok snippets ∧
      (snippets.coincide = true ↔ common.same advanced = true) ∧
      (common.same advanced = true ↔ common = advanced) ∧
      (Page.snippetTabs snippets =
          Page.fencedYaml "yml" "# Config fields, showing default values" snippets.common ++
            "\n" ↔
        common.same advanced = true) := by
  intro common advanced
  have bare : Tree.Within common advanced := shownTree_within role config false options tree
  have sameTexts := Tree.yaml_inj_of_within (shownTree_within role config nested options tree)
  rw [shownTree_inj] at sameTexts
  refine ⟨_, ofExample_of_toTree encoded role config nested options, ?_, bare.same_iff, ?_⟩
  · rw [coincide, beq_iff_eq, sameTexts, bare.same_iff]
  · rw [Page.snippetTabs_eq_block_iff, coincide, beq_iff_eq, sameTexts, bare.same_iff]

/-- Limits of which all but one are advanced. -/
def limits : Field := .root
  [.ofChildren "limits" [(Field.ofType "depth" .int).edit .markAdvanced], .ofType "url" .string]

/-- An example of limits. -/
def limited (depth : List (String × Tree)) : Tree :=
  .mapping [("url", .text "u"), ("limits", .mapping depth)]

/-- Where the only limit is advanced, the common snippet has braces in the place of an entry
and the snippets differ. They coincide where no limit is given. -/
theorem coincide_limited :
    (∃ snippets, ofExample .input limits true (.ofTree (limited [("depth", .null)])) {} =
        .ok snippets ∧ snippets.common = "input:\n  limits: \x7b\x7d\n  url: u\n" ∧
      snippets.coincide = false) ∧
    ∃ snippets, ofExample .input limits true (.ofTree (limited [])) {} = .ok snippets ∧
      snippets.coincide = true := by
  have encodes (tree : Tree) (distinct : tree.hasDistinctKeys = true) :
      (Datum.ofTree tree).toTree = .ok tree := Datum.toTree_ofTree_iff.mpr distinct
  constructor
  · have encoded := encodes (limited [("depth", .null)]) (by decide)
    obtain ⟨snippets, shows, coincides, -⟩ := coincide_iff_same encoded .input limits {} true
    refine ⟨snippets, shows, ?_, ?_⟩
    · rw [ofExample_of_toTree encoded] at shows
      obtain rfl := Except.ok.inj shows
      decide
    · rw [Bool.eq_false_iff, ne_eq, coincides]
      decide
  · have encoded := encodes (limited []) (by decide)
    obtain ⟨snippets, shows, coincides, -⟩ := coincide_iff_same encoded .input limits {} true
    exact ⟨snippets, shows, coincides.mpr (by decide)⟩

end Snippets

end FieldGuide
