import FieldGuide.Component.Basic
import FieldGuide.Field.Document
import FieldGuide.Json.Reader

/-!
# Components as JSON documents

This module writes components and their showcases as JSON objects and reads them
back, from documents and from text.
-/

namespace FieldGuide

/-- The names of roles in documents. -/
def Role.choice : Json.Choice Role := ⟨Role.all, Role.name⟩

/-- The names of statuses in documents. -/
def Status.choice : Json.Choice Status := ⟨Status.all, Status.name⟩

namespace Showcase

/-- The document of a showcase. -/
def toJson (shown : Showcase) : Json :=
  .object [("title", .string shown.title), ("summary", .string shown.summary),
    ("config", .string shown.config)]

/-- Puts the document of one slot into a showcase. -/
def assign (shown : Showcase) (slot : String) (document : Json) :
    Decoded Showcase :=
  match slot with
  | "title" => return { shown with title := ← document.decodeString }
  | "summary" => return { shown with summary := ← document.decodeString }
  | "config" => return { shown with config := ← document.decodeString }
  | _ => return shown

/-- The outline of a showcase's document. -/
def record : Json.Record Showcase where
  title := "AnnotatedExample"
  slots := ["title", "summary", "config"]
  required := ["title"]
  blank := { title := "" }
  assign

/-- Reads a showcase. -/
def ofJson (document : Json) : Decoded Showcase := record.decode document

end Showcase

namespace Component

/-- The document of a component. -/
def toJson (component : Component) : Json :=
  .object <|
    [("name", .string component.name),
     ("type", .string component.role.name),
     ("status", .string component.status.name),
     ("summary", .string component.summary),
     ("description", .string component.description)] ++
    Json.listMember "categories" (component.categories.map .string) ++
    [("footnotes", .string component.footnotes)] ++
    Json.listMember "examples" (component.showcases.map Showcase.toJson) ++
    [("version", .string component.version), ("config", component.config.toJson)]

/-- Puts the document of one slot into a component. -/
def assign (component : Component) (slot : String) (document : Json) : Decoded Component :=
  match slot with
  | "name" => return { component with name := ← document.decodeString }
  | "type" => return { component with role := ← document.decodeChoice Role.choice }
  | "status" => return { component with status := ← document.decodeChoice Status.choice }
  | "summary" => return { component with summary := ← document.decodeString }
  | "description" => return { component with description := ← document.decodeString }
  | "categories" =>
      return { component with categories := ← document.decodeList Json.decodeString }
  | "footnotes" => return { component with footnotes := ← document.decodeString }
  | "examples" =>
      return { component with showcases := ← document.decodeList Showcase.ofJson }
  | "version" => return { component with version := ← document.decodeString }
  | "config" => return { component with config := ← Field.ofJson document }
  | _ => return component

/-- The outline of a component's document. -/
def record : Json.Record Component where
  title := "ComponentSpec"
  slots := ["name", "type", "status", "summary", "description", "categories", "footnotes",
    "examples", "version", "config"]
  required := ["name", "type", "config"]
  blank := { name := "", role := .buffer, config := { name := "" } }
  assign

/-- Reads a component. -/
def ofJson (document : Json) : Decoded Component := record.decode document

/-- The text a component is saved as. -/
def save (component : Component) : String := component.toJson.compact

/-- The component that is loaded from a text, by way of the document the text holds. -/
def load? (text : String) : Option Component :=
  (Json.read? text).bind fun document => (ofJson document).toOption

/-- The text that a text is saved as once a component is loaded from it. -/
def resave? (text : String) : Option String := (load? text).map save

/-- Whether a component is read back from its own document. -/
def survivesDocument (component : Component) : Bool :=
  match ofJson component.toJson with
  | .ok read => read = component
  | .error _ => false

end Component

end FieldGuide
