import FieldGuide.Component.Document
import FieldGuide.Field.Edit
import FieldGuide.Proofs.Field.Document
import FieldGuide.Reference

/-!
# Components that are read back

A component is written as an object and read from it. What is read is the component with the
field that is read back as its configuration: only defaults of null are lost.
-/

namespace FieldGuide

/-- The names of roles tell them apart. -/
theorem Role.isFaithful_choice : Role.choice.IsFaithful where
  complete := by intro value; cases value <;> decide
  apart := by intro left right; cases left <;> cases right <;> decide

/-- The names of statuses tell them apart. -/
theorem Status.isFaithful_choice : Status.choice.IsFaithful where
  complete := by intro value; cases value <;> decide
  apart := by intro left right; cases left <;> cases right <;> decide

/-- A showcase is read back from its document. -/
theorem Showcase.ofJson_toJson (shown : Showcase) : ofJson shown.toJson = .ok shown := by
  apply Json.Record.decode_object
  · refine .cons rfl ?_
    refine .cons rfl ?_
    refine .cons rfl ?_
    exact .nil
  · simp [record]

namespace Component

/-- What the first members of a component say, which are never left out. -/
def plain (component : Component) : Component :=
  { component with
    categories := [], footnotes := "", showcases := [], version := "", config := { name := "" } }

/-- The first members of a component are assigned, and nothing else is said yet. -/
theorem assigns_plain (component : Component) :
    record.Assigns
      [("name", .string component.name), ("type", .string component.role.name),
        ("status", .string component.status.name), ("summary", .string component.summary),
        ("description", .string component.description)] record.blank component.plain := by
  refine .cons rfl ?_
  refine .cons (bind_pure_eq_ok.mpr
    ⟨_, Json.decodeChoice_name Role.isFaithful_choice component.role, rfl⟩) ?_
  refine .cons (bind_pure_eq_ok.mpr
    ⟨_, Json.decodeChoice_name Status.isFaithful_choice component.status, rfl⟩) ?_
  refine .cons rfl ?_
  refine .cons rfl ?_
  exact .nil

/-- A component is read back from its members with the configuration that is read back. -/
theorem assigns_members (component : Component) :
    record.Assigns
      ([("name", .string component.name), ("type", .string component.role.name),
        ("status", .string component.status.name), ("summary", .string component.summary),
        ("description", .string component.description)] ++
        Json.listMember "categories" (component.categories.map .string) ++
        [("footnotes", .string component.footnotes)] ++
        Json.listMember "examples" (component.showcases.map Showcase.toJson) ++
        [("version", .string component.version), ("config", component.config.toJson)])
      record.blank { component with config := component.config.readBack } := by
  have texts := component.assigns_plain
  -- Each member is assigned to a component that still lacks what the later members say.
  have categories : record.Assigns
      (Json.listMember "categories" (component.categories.map .string)) component.plain
      { component with
        footnotes := "", showcases := [], version := "", config := { name := "" } } :=
    .listMember (bind_pure_eq_ok.mpr ⟨_, Json.decodeList_strings _, rfl⟩)
      fun empty => by rw [plain, List.map_eq_nil_iff.mp empty]
  have footnotes : record.Assigns [("footnotes", .string component.footnotes)]
      { component with
        footnotes := "", showcases := [], version := "", config := { name := "" } }
      { component with showcases := [], version := "", config := { name := "" } } :=
    .cons rfl .nil
  have showcases : record.Assigns
      (Json.listMember "examples" (component.showcases.map Showcase.toJson))
      { component with showcases := [], version := "", config := { name := "" } }
      { component with version := "", config := { name := "" } } := by
    refine .listMember (bind_pure_eq_ok.mpr ⟨component.showcases, ?_, rfl⟩)
      fun empty => by rw [List.map_eq_nil_iff.mp empty]
    simpa using @Json.decodeList_map _ _ Showcase.ofJson Showcase.toJson id component.showcases
      fun shown _ => shown.ofJson_toJson
  have config : record.Assigns
      [("version", .string component.version), ("config", component.config.toJson)]
      { component with version := "", config := { name := "" } }
      { component with config := component.config.readBack } := by
    refine .cons rfl ?_
    refine .cons (bind_pure_eq_ok.mpr ⟨_, component.config.ofJson_toJson, rfl⟩) ?_
    exact .nil
  exact (((texts.append categories).append footnotes).append showcases).append config

/-- A component is read back from its document with the configuration that is read back. -/
theorem ofJson_toJson (component : Component) :
    ofJson component.toJson = .ok { component with config := component.config.readBack } := by
  apply Json.Record.decode_object component.assigns_members
  simp [record]

/-- A component survives exactly when no default of its configuration is null. -/
theorem survivesDocument_eq (component : Component) :
    component.survivesDocument = component.config.hasNoNullDefault := by
  have sameConfig : { component with config := component.config.readBack } = component ↔
      component.config.readBack = component.config := by
    rw [Component.mk.injEq]
    simp
  rw [survivesDocument, ofJson_toJson]
  simp only [sameConfig, Field.readBack_eq_iff, Bool.decide_eq_true]

/-- Every field is read back from its document, and so is every component around it, without
the defaults of null. Both survive exactly when no default in the field or below it is
null. -/
theorem survivesDocument_iff (component : Component) (field : Field) :
    let around := { component with config := field }
    Field.ofJson field.toJson = .ok field.readBack ∧
      ofJson around.toJson = .ok { component with config := field.readBack } ∧
      (field.survivesDocument = true ↔ field.hasNoNullDefault = true) ∧
      (around.survivesDocument = true ↔ field.hasNoNullDefault = true) := by
  intro around
  refine ⟨field.ofJson_toJson, around.ofJson_toJson, ?_, ?_⟩
  · rw [field.survivesDocument_eq]
  · rw [around.survivesDocument_eq]

/-- A field that may be null by default. -/
def nullable : Field := (Field.ofType "a" .string).edit (.setDefault .null)

/-- The default of null is on the page and in the document, but it is not read from there: the
field that is read has no default, and neither it nor a component around it survives. -/
theorem not_survivesDocument_nullable :
    (ReferenceEntry.ofInfo "" nullable.toFieldInfo).defaultText = some "null" ∧
      ("default", Json.null) ∈ nullable.members ∧
      Field.ofJson nullable.toJson = .ok (.ofType "a" .string) ∧
      nullable.survivesDocument = false ∧
      ({ name := "c", role := .cache, config := nullable } : Component).survivesDocument =
        false := by
  refine ⟨by decide, by decide, nullable.ofJson_toJson, ?_, ?_⟩
  · rw [nullable.survivesDocument_eq]
    decide
  · rw [survivesDocument_eq]
    decide

end Component

end FieldGuide
