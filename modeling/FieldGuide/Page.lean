import FieldGuide.Page.Prose
import FieldGuide.Page.Reference
import FieldGuide.Page.Tabs
import FieldGuide.Settings.Basic

/-!
# Component pages

This module assembles the page of a component. The field reference stands before
the showcases when it is short and after them otherwise.
-/

namespace FieldGuide

/-- The reasons why a component has no page. -/
inductive PageError
  | invalid (cause : Invalid)
  | encoding (cause : EncodeError)
  deriving Repr

/-- The wording of an error. -/
def PageError.message : PageError → String
  | .invalid cause => cause.message
  | .encoding cause => cause.message

namespace Page

/-- Whether a field reference stands before the showcases. -/
def isInline (entries : List ReferenceEntry) (settings : Settings) : Bool :=
  !entries.isEmpty && entries.length ≤ settings.inlineFieldLimit.toNat

/-- The page of a component whose description and snippets are in order. -/
def assemble (component : Component) (snippets : Snippets) (settings : Settings) : String :=
  let entries := component.config.reference
  metadataBlock component ++
    preamble ++
    stabilityNote component.status ++
    opening component.summary component.version ++
    snippetTabs snippets ++
    longDescription component.description ++
    (if isInline entries settings then referenceSection entries else "") ++
    showcaseTabs component.showcases ++
    (if settings.inlineFieldLimit.toNat < entries.length then referenceSection entries else "") ++
    closing component.footnotes

/-- The page of a component, with an example of its whole configuration. -/
def render (component : Component) (shown : Datum) (settings : Settings) :
    Except PageError String := do
  component.check.mapError .invalid
  let snippets ← (Snippets.ofExample component.role component.config settings.nest shown
    settings.examples).mapError .encoding
  return assemble component snippets settings

/-- The events of rendering a page. A page that fails has none. -/
def events (component : Component) (shown : Datum) (settings : Settings) : List Event :=
  match render component shown settings with
  | .error _ => []
  | .ok _ =>
      let entries := component.config.reference
      Snippets.events component.role component.config settings.nest shown settings.examples ++
        [.renderedPage component.name component.role entries.length (isInline entries settings)]

end Page

end FieldGuide
