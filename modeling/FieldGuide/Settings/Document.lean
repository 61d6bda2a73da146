import FieldGuide.Json.Decode
import FieldGuide.Settings.Basic

/-!
# Settings as JSON documents

This module writes settings and view options as JSON objects and reads them back.
Nothing is required on reading: what is missing keeps its default.
-/

namespace FieldGuide

namespace ViewOptions

/-- The document of view options. -/
def toJson (options : ViewOptions) : Json :=
  .object [("remove_type_field", .bool options.removeTypeField),
    ("type_field", .string options.typeField)]

/-- Puts the document of one slot into view options. -/
def assign (options : ViewOptions) (slot : String) (document : Json) : Decoded ViewOptions :=
  match slot with
  | "remove_type_field" => return { options with removeTypeField := ← document.decodeBool }
  | "type_field" => return { options with typeField := ← document.decodeString }
  | _ => return options

/-- The outline of the document of view options. -/
def record : Json.Record ViewOptions where
  title := "ExampleOptions"
  slots := ["remove_type_field", "type_field"]
  required := []
  blank := {}
  assign

/-- Reads view options. -/
def ofJson (document : Json) : Decoded ViewOptions := record.decode document

end ViewOptions

namespace Settings

/-- The document of settings. -/
def toJson (settings : Settings) : Json :=
  .object [("nest", .bool settings.nest),
    ("inline_field_limit", .number (.integer _ (fitsNumber_word settings.inlineFieldLimit))),
    ("examples", settings.examples.toJson)]

/-- Puts the document of one slot into settings. -/
def assign (settings : Settings) (slot : String) (document : Json) : Decoded Settings :=
  match slot with
  | "nest" => return { settings with nest := ← document.decodeBool }
  | "inline_field_limit" => return { settings with inlineFieldLimit := ← document.decodeSize }
  | "examples" => return { settings with examples := ← ViewOptions.ofJson document }
  | _ => return settings

/-- The outline of the document of settings. -/
def record : Json.Record Settings where
  title := "RenderConfig"
  slots := ["nest", "inline_field_limit", "examples"]
  required := []
  blank := {}
  assign

/-- Reads settings. -/
def ofJson (document : Json) : Decoded Settings := record.decode document

end Settings

end FieldGuide
