import FieldGuide.Field.Basic
import FieldGuide.Json.Writer
import FieldGuide.Yaml.Block

/-!
# Field references

This module flattens a tree of fields into the entries of a field reference: each
field that is not deprecated, nor below a deprecated one, before the fields below
it, siblings in declared order.
-/

namespace FieldGuide

/-- What readers are told about the type of a field. -/
def FieldInfo.shownType (info : FieldInfo) : String :=
  match info.kind with
  | .map => "object"
  | .array => "array"
  | .grid => "two-dimensional array"
  | .scalar => info.valueType.name

/-- An entry of a field reference. The field is shown as a scalar without
children, which have entries of their own. -/
structure ReferenceEntry where
  fullName : String
  shownType : String
  field : Field
  defaultText : Option String
  exampleTexts : List String
  deriving DecidableEq, Repr

namespace ReferenceEntry

/-- The entry of a field below a dotted path. -/
def ofInfo (path : String) (info : FieldInfo) : ReferenceEntry where
  fullName := path ++ info.name
  shownType := info.shownType
  field := { info with kind := .scalar, children := [] }
  defaultText := info.defaultValue.map Json.compact
  exampleTexts := info.examples.map fun shown =>
    ((Tree.ofJson shown).under info.name).yaml

end ReferenceEntry

namespace Field

/-- The path that the children of a field stand below. -/
def childPath (path : String) (info : FieldInfo) : String :=
  path ++ info.name ++ info.kind.marker ++ "."

mutual

/-- The entries of a field and of the fields below it. -/
def referenceEntries (path : String) : Field → List ReferenceEntry
  | ⟨info, children⟩ =>
      if info.isDeprecated then []
      else .ofInfo path info :: referenceList (childPath path info) children

/-- The entries of sibling fields and of the fields below them. -/
def referenceList (path : String) : List Field → List ReferenceEntry
  | [] => []
  | field :: rest => referenceEntries path field ++ referenceList path rest

end

/-- The field reference of a configuration. The root itself has no entry. -/
def reference (root : Field) : List ReferenceEntry := referenceList "" root.children

end Field

end FieldGuide
