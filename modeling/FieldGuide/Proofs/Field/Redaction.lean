import FieldGuide.Proofs.View.Filter
import FieldGuide.Reference

/-!
# Redacted fields

A deprecated field keeps its place among its siblings, and its name still takes the keys
that name it; nothing else about it should matter. This module reduces every deprecated
field to its name and its flag. Two fields agree outside of what is deprecated in them
when they are the same once reduced, and the tests and listings that look at the rest are
shown to agree on them.
-/

namespace FieldGuide

namespace Field

/-- A property of all fields, from the property of the children of each. -/
@[elab_as_elim]
theorem induction {motive : Field → Prop}
    (step : ∀ field, (∀ child ∈ field.children, motive child) → motive field) :
    ∀ field, motive field
  | ⟨info, children⟩ => step ⟨info, children⟩ fun child _ => induction step child
termination_by field => sizeOf field
decreasing_by
  rename_i member
  have smaller := List.sizeOf_lt_of_mem member
  simp only [Field.mk.sizeOf_spec] at smaller ⊢
  omega

mutual

/-- A field whose deprecated parts, itself included, keep only their names and flags. -/
def redact : Field → Field
  | ⟨info, children⟩ =>
      if info.isDeprecated then { name := info.name, isDeprecated := true }
      else ⟨info, redactAll children⟩

/-- Fields whose deprecated parts keep only their names and flags. -/
def redactAll : List Field → List Field
  | [] => []
  | field :: rest => redact field :: redactAll rest

end

/-- Fields are redacted one by one. -/
theorem redactAll_eq_map (fields : List Field) : redactAll fields = fields.map redact := by
  induction fields with
  | nil => rfl
  | cons field rest inductionHypothesis => rw [redactAll, inductionHypothesis, List.map_cons]

/-- A deprecated field keeps its name and its flag. -/
theorem redact_of_deprecated {field : Field} (deprecated : field.isDeprecated = true) :
    field.redact = { name := field.name, isDeprecated := true } := by
  obtain ⟨info, children⟩ := field
  exact if_pos deprecated

/-- A field that is not deprecated is redacted in its children. -/
theorem redact_of_current {field : Field} (current : field.isDeprecated = false) :
    field.redact = { field with children := field.children.map redact } := by
  obtain ⟨info, children⟩ := field
  rw [redact, if_neg (Bool.eq_false_iff.mp current), redactAll_eq_map]

/-- Redaction keeps the name. -/
@[simp]
theorem name_redact (field : Field) : field.redact.name = field.name := by
  cases deprecated : field.isDeprecated with
  | true => rw [redact_of_deprecated deprecated]
  | false => rw [redact_of_current deprecated]

/-- Redaction keeps the flag. -/
@[simp]
theorem isDeprecated_redact (field : Field) : field.redact.isDeprecated = field.isDeprecated := by
  cases deprecated : field.isDeprecated with
  | true => rw [redact_of_deprecated deprecated]
  | false => rw [redact_of_current deprecated, deprecated]

/-- Fields that are the same once redacted have the same name. When they are not
deprecated, they also say the same about themselves and have children that are the same
once redacted. -/
theorem of_redact_eq {left right : Field} (same : left.redact = right.redact) :
    left.isDeprecated = right.isDeprecated ∧
      (right.isDeprecated = false → left.toFieldInfo = right.toFieldInfo ∧
        left.children.map redact = right.children.map redact) := by
  have flags : left.isDeprecated = right.isDeprecated := by
    rw [← isDeprecated_redact left, same, isDeprecated_redact]
  refine ⟨flags, fun current => ?_⟩
  rw [redact_of_current current, redact_of_current (flags.trans current)] at same
  exact Field.mk.inj same

/-- Looking a name up among redacted children finds the redacted child at the same
position. -/
theorem lookup?_redact (field : Field) (name : String) :
    (field.lookup? name).map (Prod.map id redact) =
      ((field.children.map redact).zipIdx.find? fun (child, _) => child.name == name).map
        Prod.swap := by
  have sameNames : ((fun (child, _) => child.name == name) : Field × Nat → Bool) ∘
      Prod.map redact id = fun (child, _) => child.name == name := by
    funext ⟨child, position⟩
    exact congrArg (· == name) (name_redact child)
  rw [lookup?, List.zipIdx_map, List.find?_map, sameNames, Option.map_map, Option.map_map]
  rfl

/-- Whether the children of two fields are the same once redacted. -/
def AgreeBelow (left right : Field) : Prop :=
  left.children.map redact = right.children.map redact

namespace AgreeBelow

variable {left right : Field} {name : String}

/-- Fields that agree below find no child of a name together. -/
theorem lookup?_eq_none (agree : AgreeBelow left right) (absent : left.lookup? name = none) :
    right.lookup? name = none := by
  have found := lookup?_redact right name
  rw [← show left.children.map redact = right.children.map redact from agree,
    ← lookup?_redact left name, absent] at found
  exact Option.map_eq_none_iff.mp found

/-- Fields that agree below find children of a name at the same position, and these are
the same once redacted. -/
theorem lookup?_eq_some (agree : AgreeBelow left right) {position : Nat} {child : Field}
    (declared : left.lookup? name = some (position, child)) :
    ∃ other, right.lookup? name = some (position, other) ∧ child.redact = other.redact := by
  have found := lookup?_redact right name
  rw [← show left.children.map redact = right.children.map redact from agree,
    ← lookup?_redact left name, declared, Option.map_some, Option.map_eq_some_iff] at found
  obtain ⟨⟨otherPosition, other⟩, otherDeclared, same⟩ := found
  obtain ⟨rfl, redacted⟩ := Prod.mk.inj same
  exact ⟨other, otherDeclared, redacted.symm⟩

/-- Fields that agree below have equally many children. -/
theorem length_children (agree : AgreeBelow left right) :
    left.children.length = right.children.length := by
  have lengths := congrArg List.length agree
  simpa using lengths

end AgreeBelow

/-- A filter reveals a redacted field when it reveals the field: what deprecated fields
hold is never asked for. -/
theorem reveals_redact (filter : Filter) (field : Field) :
    filter.reveals field.redact = filter.reveals field := by
  induction field using Field.induction with
  | step field inductionHypothesis =>
      rw [Filter.reveals_eq, Filter.reveals_eq filter field, isDeprecated_redact]
      cases deprecated : field.isDeprecated with
      | true => rfl
      | false =>
          have below : (field.children.map redact).any filter.reveals =
              field.children.any filter.reveals := by
            rw [List.any_map, Bool.eq_iff_iff, List.any_eq_true, List.any_eq_true]
            refine exists_congr fun child => and_congr_right fun member => ?_
            rw [Function.comp_apply, inductionHypothesis child member]
          have sameFlags : filter.selects { field with children := field.children.map redact } =
              filter.selects field := by
            cases filter <;> rfl
          rw [redact_of_current deprecated, below, sameFlags]

mutual

/-- A redacted field has the entries of the field in a reference. -/
theorem referenceEntries_redact (path : String) :
    ∀ field : Field, referenceEntries path field.redact = referenceEntries path field
  | ⟨info, children⟩ => by
      rw [redact]
      split
      · next deprecated => simp [referenceEntries, deprecated]
      · rw [referenceEntries, referenceEntries, referenceList_redactAll]

/-- Redacted siblings have the entries of the fields in a reference. -/
theorem referenceList_redactAll (path : String) :
    ∀ fields : List Field, referenceList path (redactAll fields) = referenceList path fields
  | [] => rfl
  | field :: rest => by
      rw [redactAll, referenceList, referenceList, referenceEntries_redact,
        referenceList_redactAll]

end

/-- Fields that agree below have the same reference. -/
theorem AgreeBelow.reference_eq {left right : Field} (agree : AgreeBelow left right) :
    left.reference = right.reference := by
  rw [reference, reference, ← referenceList_redactAll, ← referenceList_redactAll "" right.children,
    redactAll_eq_map, redactAll_eq_map, agree]

end Field

end FieldGuide
