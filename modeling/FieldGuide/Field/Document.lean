import FieldGuide.Field.Basic
import FieldGuide.Json.Decode

/-!
# Fields as JSON documents

This module writes a field as a JSON object and reads it back. Members with
nothing to say are left out of the written form; on reading, only the name is
required, and unknown members are ignored.
-/

namespace FieldGuide

/-- The names of value types in documents. -/
def ValueType.choice : Json.Choice ValueType := ⟨ValueType.all, ValueType.name⟩

/-- The names of kinds in documents. -/
def Kind.choice : Json.Choice Kind := ⟨Kind.all, Kind.name⟩

/-- The members of a field's object that do not concern its children. -/
def FieldInfo.members (info : FieldInfo) : List (String × Json) :=
  [("name", .string info.name),
   ("description", .string info.description),
   ("type", .string info.valueType.name),
   ("kind", .string info.kind.name),
   ("is_advanced", .bool info.isAdvanced),
   ("is_deprecated", .bool info.isDeprecated),
   ("is_secret", .bool info.isSecret)] ++
  info.defaultValue.toList.map (fun value => ("default", value)) ++
  Json.listMember "examples" info.examples ++
  Json.listMember "options" (info.options.map .string) ++
  Json.listMember "annotated_options"
    (info.annotatedOptions.map fun (value, summary) => .array [.string value, .string summary]) ++
  Json.textMember "version" info.version

namespace Field

mutual

/-- The document of a field. -/
def toJson : Field → Json
  | ⟨info, children⟩ =>
      .object (info.members ++ Json.listMember "children" (toJsonList children))

/-- The documents of a list of fields. -/
def toJsonList : List Field → List Json
  | [] => []
  | field :: rest => toJson field :: toJsonList rest

end

/-- The slots of a field's document, in declared order. -/
def slots : List String :=
  ["name", "description", "type", "kind", "is_advanced", "is_deprecated", "is_secret",
   "default", "examples", "options", "annotated_options", "version", "children"]

/-- Puts the document of one slot into a field; `decodeChild` reads a child. -/
def assign (decodeChild : Json → Decoded Field) (field : Field) (slot : String)
    (document : Json) : Decoded Field :=
  match slot with
  | "name" => return { field with name := ← document.decodeString }
  | "description" => return { field with description := ← document.decodeString }
  | "type" => return { field with valueType := ← document.decodeChoice ValueType.choice }
  | "kind" => return { field with kind := ← document.decodeChoice Kind.choice }
  | "is_advanced" => return { field with isAdvanced := ← document.decodeBool }
  | "is_deprecated" => return { field with isDeprecated := ← document.decodeBool }
  | "is_secret" => return { field with isSecret := ← document.decodeBool }
  | "default" => return { field with defaultValue := document.decodeOptional }
  | "examples" => return { field with examples := ← document.decodeList .ok }
  | "options" => return { field with options := ← document.decodeList Json.decodeString }
  | "annotated_options" =>
      return { field with
        annotatedOptions := ← document.decodeList Json.decodeStringPair }
  | "version" => return { field with version := ← document.decodeString }
  | "children" => return { field with children := ← document.decodeList decodeChild }
  | _ => return field

/-- The outline of a field's document, given a reader for its children. -/
def record (decodeChild : Json → Decoded Field) : Json.Record Field where
  title := "FieldSpec"
  slots
  required := ["name"]
  blank := { name := "" }
  assign := assign decodeChild

end Field

namespace Field

/-- Reads a field from a document of at most the given depth. -/
def decodeWithin : Nat → Json → Decoded Field
  | 0, document => .error (.wrongType document "struct FieldSpec")
  | depth + 1, document => (record (decodeWithin depth)).decode document

/-- Reads a field. A field below another one lies deeper in the document, so the
document's depth bounds the nesting of fields. -/
def ofJson (document : Json) : Decoded Field :=
  decodeWithin document.depth document

/-- Whether a field is read back from its own document. -/
def survivesDocument (field : Field) : Bool :=
  match ofJson field.toJson with
  | .ok read => read = field
  | .error _ => false

end Field

end FieldGuide
