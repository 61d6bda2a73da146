import FieldGuide.Example.Datum
import FieldGuide.View.Journal
import FieldGuide.Yaml.Block

/-!
# Configuration snippets

This module renders the common and the advanced view of an example as YAML.
-/

namespace FieldGuide

/-- The YAML texts of an example configuration in both views. -/
structure Snippets where
  common : String
  advanced : String
  deriving DecidableEq, Repr

namespace Snippets

/-- Whether hiding advanced fields changes nothing. -/
def coincide (snippets : Snippets) : Bool := snippets.common == snippets.advanced

/-- The tree behind a snippet, under a key named for the component's role when
`nested` is set. -/
def shownTree (role : Role) (config : Field) (nested : Bool) (view : View) (tree : Tree) :
    Tree :=
  let ordered := view.apply config tree
  if nested then ordered.under role.name else ordered

/-- The snippets of an example. -/
def ofExample (role : Role) (config : Field) (nested : Bool) (shown : Datum)
    (options : ViewOptions) : Except EncodeError Snippets := do
  let tree ← shown.toTree
  let text (filter : Filter) := (shownTree role config nested ⟨filter, options⟩ tree).yaml
  return { common := text .common, advanced := text .advanced }

/-- The events of rendering the snippets of an example. The advanced view comes
first; an example that cannot be encoded has no events. -/
def events (role : Role) (config : Field) (nested : Bool) (shown : Datum)
    (options : ViewOptions) : List Event :=
  match shown.toTree with
  | .error _ => []
  | .ok tree =>
      [Filter.advanced, Filter.common].flatMap fun filter =>
        View.applyEvents ⟨filter, options⟩ config tree ++
          [.renderedSnippet role filter nested]

end Snippets

end FieldGuide
