import FieldGuide.Field.Basic

/-!
# Declaring fields

This module builds fields: the shorthands that declare a field of one type, and
the edits that refine a declaration. Edits of a list add to its end; the others
replace what was there.
-/

namespace FieldGuide

namespace Field

/-- A scalar field of a type. -/
def ofType (name : String) (valueType : ValueType) : Field :=
  { name, valueType }

/-- An object field with its children. -/
def ofChildren (name : String) (children : List Field) : Field :=
  { ofType name .object with children }

/-- The nameless object at the top of a configuration. -/
def root (children : List Field) : Field := ofChildren "" children

/-- A refinement of a field's declaration. -/
inductive Edit
  | describe (text : String)
  | markAdvanced
  | markDeprecated
  | markSecret
  | arrange (kind : Kind)
  | setDefault (value : Json)
  | addExamples (values : List Json)
  | addOptions (values : List String)
  | addAnnotatedOptions (values : List (String × String))
  | setVersion (version : String)
  | addChildren (children : List Field)
  deriving Repr

/-- The field after one edit. -/
def edit (field : Field) : Edit → Field
  | .describe text => { field with description := text }
  | .markAdvanced => { field with isAdvanced := true }
  | .markDeprecated => { field with isDeprecated := true }
  | .markSecret => { field with isSecret := true }
  | .arrange kind => { field with kind }
  | .setDefault value => { field with defaultValue := some value }
  | .addExamples values => { field with examples := field.examples ++ values }
  | .addOptions values => { field with options := field.options ++ values }
  | .addAnnotatedOptions values =>
      { field with annotatedOptions := field.annotatedOptions ++ values }
  | .setVersion version => { field with version }
  | .addChildren children => { field with children := field.children ++ children }

end Field

end FieldGuide
