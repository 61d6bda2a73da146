import FieldGuide.Field.Edit
import FieldGuide.Proofs.Field.Redaction
import Mathlib.Data.List.Chain

/-!
# Chains of fields that a filter reveals

A filter reveals a field for its own sake or for the sake of one below it, and it stops at
deprecated fields. Followed down the tree, this is a chain of children that leads from the field
to a selected one and passes no deprecated field. The relation says which fields are revealed
without the recursion of the test, so that what two filters reveal is compared by what they
select.
-/

namespace FieldGuide

namespace Field

/-- Whether fields lead down a tree, each a child of the one before it, and none of them is
deprecated. -/
structure IsCurrentChain (chain : List Field) : Prop where
  /-- Each field is a child of the one before it. -/
  descends : chain.IsChain fun parent child => child ∈ parent.children
  /-- No field on the way is deprecated. -/
  current : ∀ field ∈ chain, field.isDeprecated = false

/-- A field that is not deprecated is a chain of its own. -/
theorem isCurrentChain_singleton {field : Field} (current : field.isDeprecated = false) :
    IsCurrentChain [field] :=
  ⟨.singleton field, List.forall_mem_singleton.mpr current⟩

/-- A chain goes on from a field that is not deprecated to a child and down from there. -/
theorem isCurrentChain_cons_cons {field child : Field} {below : List Field} :
    IsCurrentChain (field :: child :: below) ↔
      field.isDeprecated = false ∧ child ∈ field.children ∧ IsCurrentChain (child :: below) := by
  constructor
  · rintro ⟨descends, current⟩
    obtain ⟨member, descendsBelow⟩ := List.isChain_cons_cons.mp descends
    obtain ⟨first, others⟩ := List.forall_mem_cons.mp current
    exact ⟨first, member, descendsBelow, others⟩
  · rintro ⟨first, member, descendsBelow, others⟩
    exact ⟨.cons_cons member descendsBelow, List.forall_mem_cons.mpr ⟨first, others⟩⟩

end Field

namespace Filter

open FieldGuide.Field (IsCurrentChain)

/-- Whether a chain from a field leads to one that a filter selects. -/
def Reaches (filter : Filter) (field : Field) : Prop :=
  ∃ below, IsCurrentChain (field :: below) ∧
    filter.selects ((field :: below).getLast (List.cons_ne_nil field below)) = true

/-- A chain starts with a selected field that it ends at, or goes on from a child. -/
theorem reaches_iff {filter : Filter} {field : Field} :
    filter.Reaches field ↔ field.isDeprecated = false ∧
      (filter.selects field = true ∨ ∃ child ∈ field.children, filter.Reaches child) := by
  constructor
  · rintro ⟨below, chain, selected⟩
    refine ⟨chain.current field List.mem_cons_self, ?_⟩
    cases below with
    | nil => exact .inl selected
    | cons child below =>
        obtain ⟨-, member, chainBelow⟩ := Field.isCurrentChain_cons_cons.mp chain
        rw [List.getLast_cons_cons] at selected
        exact .inr ⟨child, member, below, chainBelow, selected⟩
  · rintro ⟨current, selected | ⟨child, member, below, chain, selected⟩⟩
    · exact ⟨[], Field.isCurrentChain_singleton current, selected⟩
    · refine ⟨child :: below, Field.isCurrentChain_cons_cons.mpr ⟨current, member, chain⟩, ?_⟩
      rwa [List.getLast_cons_cons]

/-- A filter reveals the fields from which it reaches a selected one. -/
theorem reveals_eq_true_iff_reaches {filter : Filter} {field : Field} :
    filter.reveals field = true ↔ filter.Reaches field := by
  induction field using Field.induction with
  | step field inductionHypothesis =>
      have below : field.children.any filter.reveals = true ↔
          ∃ child ∈ field.children, filter.Reaches child := by
        rw [List.any_eq_true]
        exact exists_congr fun child => and_congr_right fun member =>
          inductionHypothesis child member
      rw [reveals_eq, reaches_iff, Bool.and_eq_true, Bool.or_eq_true, below, Bool.not_eq_true']

/-- What one filter selects wherever another does, it reaches wherever the other does. -/
theorem Reaches.imp {filter other : Filter} {field : Field}
    (selects : ∀ field, filter.selects field = true → other.selects field = true)
    (reached : filter.Reaches field) : other.Reaches field := by
  obtain ⟨below, chain, selected⟩ := reached
  exact ⟨below, chain, selects _ selected⟩

/-- The advanced filter selects what the common one does. -/
theorem selects_advanced_of_common {field : Field} (selected : common.selects field = true) :
    advanced.selects field = true := by
  rw [selects_advanced, not_deprecated_of_selects selected]
  rfl

/-- A filter reveals a field exactly when a chain of children leads from the field to a selected
one, with no deprecated field on it. What the common filter reveals, the advanced one does too,
and this reveals exactly what it selects. -/
theorem reveals_iff_exists_chain (filter : Filter) (field : Field) :
    (filter.reveals field = true ↔ ∃ below : List Field,
        (field :: below).IsChain (fun parent child => child ∈ parent.children) ∧
        (∀ passed ∈ field :: below, passed.isDeprecated = false) ∧
        filter.selects ((field :: below).getLast (List.cons_ne_nil field below)) = true) ∧
      (common.reveals field = true → advanced.reveals field = true) ∧
      advanced.reveals field = advanced.selects field := by
  refine ⟨reveals_eq_true_iff_reaches.trans ?_, fun revealed => ?_, ?_⟩
  · exact exists_congr fun below =>
      ⟨fun ⟨⟨descends, current⟩, selected⟩ => ⟨descends, current, selected⟩,
        fun ⟨descends, current, selected⟩ => ⟨⟨descends, current⟩, selected⟩⟩
  · rw [reveals_eq_true_iff_reaches] at revealed ⊢
    exact revealed.imp fun _ => selects_advanced_of_common
  · rw [reveals_advanced, selects_advanced]

/-- Limits for advanced readers: one of their own and one that a retired group hides. -/
def batchingLimits : Field :=
  { Field.ofChildren "batching"
      [{ Field.ofChildren "legacy" [.ofType "count" .int] with isDeprecated := true },
        { Field.ofChildren "size" [.ofType "bytes" .int] with isAdvanced := true }] with
    isAdvanced := true }

/-- The chain to the common limit passes two advanced fields; the other one is cut off. -/
theorem reveals_batchingLimits :
    common.reveals batchingLimits = true ∧ common.selects batchingLimits = false ∧
      advanced.reveals batchingLimits = true ∧
      ¬ common.Reaches (batchingLimits.children.head (List.cons_ne_nil _ _)) := by
  obtain ⟨exactly, within, -⟩ := reveals_iff_exists_chain common batchingLimits
  let size : Field := { Field.ofChildren "size" [.ofType "bytes" .int] with isAdvanced := true }
  have revealed : common.reveals batchingLimits = true := by
    refine exactly.mpr ⟨[size, .ofType "bytes" .int], ?_, ?_, rfl⟩
    · refine .cons_cons ?_ (.cons_cons List.mem_cons_self (.singleton _))
      exact List.mem_cons_of_mem _ List.mem_cons_self
    · simp [batchingLimits, size, Field.ofType, Field.ofChildren]
  refine ⟨revealed, rfl, within revealed, fun reached => ?_⟩
  exact absurd (reaches_iff.mp reached).1 (by decide)

end Filter

end FieldGuide
