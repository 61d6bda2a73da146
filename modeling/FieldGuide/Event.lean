import FieldGuide.Component.Basic
import FieldGuide.View.Basic
import FieldGuide.Json.Writer

/-!
# Journal events

This module holds what is worth telling about a run: which entries a view left
out or could not place, which texts were rendered, and where settings came from.
An event has a level, a fixed message, and named values.
-/

namespace FieldGuide

/-- How important an event is. -/
inductive Level
  | trace
  | debug
  deriving DecidableEq, Repr

/-- The name of a level. -/
def Level.name : Level → String
  | .trace => "TRACE"
  | .debug => "DEBUG"

/-- Something that happened during a run. -/
inductive Event
  | removedType (key : String)
  | keptUndeclared (key : String)
  | hidField (key : String) (filter : Filter)
  | droppedEmpty (key : String) (filter : Filter)
  | renderedSnippet (role : Role) (filter : Filter) (nested : Bool)
  | renderedPage (component : String) (role : Role) (fields : Nat) (isInline : Bool)
  | loadedSettings (path : String)
  deriving DecidableEq, Repr

namespace Event

/-- The level of an event. -/
def level : Event → Level
  | .removedType _ | .hidField _ _ | .droppedEmpty _ _ => .trace
  | .keptUndeclared _ | .renderedSnippet _ _ _ | .renderedPage _ _ _ _
  | .loadedSettings _ => .debug

/-- The message of an event. -/
def message : Event → String
  | .removedType _ => "removing type field from example"
  | .keptUndeclared _ => "keeping example key absent from field specification"
  | .hidField _ _ => "filtering field from example"
  | .droppedEmpty _ _ => "dropping field with no admitted entries"
  | .renderedSnippet _ _ _ => "rendering example config"
  | .renderedPage _ _ _ _ => "rendering component markdown"
  | .loadedSettings _ => "loading render configuration"

/-- The named values of an event. -/
def values : Event → List (String × String)
  | .removedType key | .keptUndeclared key => [("key", key)]
  | .hidField key filter | .droppedEmpty key filter =>
      [("key", key), ("filter", filter.name)]
  | .renderedSnippet role filter nested =>
      [("component_type", role.name), ("filter", filter.name),
        ("nest", .ofList (Json.boolText nested))]
  | .renderedPage component role fields isInline =>
      [("component", component), ("component_type", role.name),
        ("fields", .ofList (naturalDigits fields)),
        ("inline_fields", .ofList (Json.boolText isInline))]
  | .loadedSettings path => [("path", path)]

end Event

end FieldGuide
