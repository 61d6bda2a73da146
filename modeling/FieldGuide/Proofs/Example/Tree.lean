import FieldGuide.Example.Tree
import Mathlib.Data.List.Forall2

/-!
# Induction over example trees

The constructors of a tree hold lists of trees. This module states the induction
that such a tree allows, with the hypothesis on the members of those lists, and
describes the tests of a tree, equality among them, by its members.
-/

namespace FieldGuide

/-- A number is the same as itself, not-a-number included. -/
theorem Number.same_refl (number : Number) : number.same number = true := by
  cases number with
  | integer value fits => simp [Number.same]
  | float value => cases value <;> simp [Number.same, Binary64.same]

namespace Tree

/-- A property of all trees, from the property of the items and values below each. -/
@[elab_as_elim, induction_eliminator]
theorem induction {motive : Tree → Prop} (null : motive .null)
    (bool : ∀ value, motive (.bool value)) (number : ∀ value, motive (.number value))
    (text : ∀ value, motive (.text value))
    (sequence : ∀ items, (∀ item ∈ items, motive item) → motive (.sequence items))
    (mapping : ∀ entries, (∀ entry ∈ entries, motive entry.2) → motive (.mapping entries)) :
    ∀ tree, motive tree
  | .null => null
  | .bool value => bool value
  | .number value => number value
  | .text value => text value
  | .sequence items => sequence items fun item _ =>
      induction null bool number text sequence mapping item
  | .mapping entries => mapping entries fun entry _ =>
      induction null bool number text sequence mapping entry.2
termination_by tree => sizeOf tree
decreasing_by
  · rename_i member
    have smaller := List.sizeOf_lt_of_mem member
    simp only [Tree.sequence.sizeOf_spec]
    omega
  · rename_i member
    have smaller := List.sizeOf_lt_of_mem member
    have part : sizeOf entry.2 ≤ sizeOf entry := by
      cases entry
      simp only [Prod.mk.sizeOf_spec]
      omega
    simp only [Tree.mapping.sizeOf_spec]
    omega

/-- A mapping is populated when it has an entry. -/
@[simp]
theorem isPopulated_mapping (entries : List (String × Tree)) :
    (mapping entries).isPopulated = !entries.isEmpty := by
  rw [isPopulated]

/-- A sequence is populated when one of its items is. -/
@[simp]
theorem isPopulated_sequence (items : List Tree) :
    (sequence items).isPopulated = items.any isPopulated := by
  rw [isPopulated]
  induction items with
  | nil => rfl
  | cons item rest inductionHypothesis => rw [anyPopulated, inductionHypothesis, List.any_cons]

/-- Sequences are the same when their items are. -/
theorem same_sequence {left right : List Tree} :
    (sequence left).same (sequence right) = true ↔
      List.Forall₂ (fun item other => item.same other = true) left right := by
  rw [same]
  induction left generalizing right with
  | nil => cases right <;> simp [sameItems]
  | cons item rest inductionHypothesis =>
      cases right with
      | nil => simp [sameItems]
      | cons other others => simp [sameItems, inductionHypothesis]

/-- Mappings are the same when their keys and values are, entry by entry. -/
theorem same_mapping {left right : List (String × Tree)} :
    (mapping left).same (mapping right) = true ↔ left.map Prod.fst = right.map Prod.fst ∧
      List.Forall₂ (fun value other => value.same other = true) (left.map Prod.snd)
        (right.map Prod.snd) := by
  rw [same]
  induction left generalizing right with
  | nil => cases right <;> simp [sameEntries]
  | cons entry rest inductionHypothesis =>
      cases right with
      | nil => simp [sameEntries]
      | cons other others =>
          simp only [sameEntries, Bool.and_eq_true, beq_iff_eq, inductionHypothesis,
            List.map_cons, List.cons.injEq, List.forall₂_cons]
          tauto

/-- A tree is the same as itself, also where it holds not-a-number. -/
theorem same_refl (tree : Tree) : tree.same tree = true := by
  induction tree with
  | null => rw [same]
  | bool value => simp [same]
  | number value => rw [same, value.same_refl]
  | text value => simp [same]
  | sequence items inductionHypothesis =>
      exact same_sequence.mpr (List.forall₂_same.mpr inductionHypothesis)
  | mapping entries inductionHypothesis =>
      exact same_mapping.mpr
        ⟨rfl, List.forall₂_same.mpr (List.forall_mem_map.mpr inductionHypothesis)⟩

end Tree

end FieldGuide
