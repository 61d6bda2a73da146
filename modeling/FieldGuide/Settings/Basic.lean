import FieldGuide.View.Basic

/-!
# Render settings

This module holds the settings of a page: whether example configurations are
nested under the component's role, how long a field reference may be to stand
before the examples, and the options of views.
-/

namespace FieldGuide

/-- The settings a page is rendered under. -/
structure Settings where
  nest : Bool := true
  inlineFieldLimit : UInt64 := 4
  examples : ViewOptions := {}
  deriving DecidableEq, Repr

end FieldGuide
