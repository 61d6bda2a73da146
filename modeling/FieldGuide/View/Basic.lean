import FieldGuide.Field.Basic

/-!
# Views

This module holds what decides about the entries of an example: the filter that
selects fields, and the options about the key that names a component's type.
-/

namespace FieldGuide

/-- Selects the fields a view is about. -/
inductive Filter
  | common
  | advanced
  deriving DecidableEq, Repr

namespace Filter

/-- The name of a filter in the journal. -/
def name : Filter → String
  | .common => "common"
  | .advanced => "advanced"

/-- Whether a field's own flags put it in the view. Deprecated fields are in no
view, advanced fields only in the advanced one. -/
def selects (filter : Filter) (field : Field) : Bool :=
  match filter with
  | .common => !field.isAdvanced && !field.isDeprecated
  | .advanced => !field.isDeprecated

mutual

/-- Whether a field can appear in the view: it is selected, or a field below it
appears. Nothing below a deprecated field appears. -/
def reveals (filter : Filter) : Field → Bool
  | ⟨info, children⟩ =>
      !info.isDeprecated && (filter.selects ⟨info, children⟩ || revealsAny filter children)

/-- Whether one of the fields can appear in the view. -/
def revealsAny (filter : Filter) : List Field → Bool
  | [] => false
  | field :: rest => reveals filter field || revealsAny filter rest

end

end Filter

/-- What happens to the key that names the type of a component. -/
structure ViewOptions where
  removeTypeField : Bool := true
  typeField : String := "type"
  deriving DecidableEq, Repr

/-- A filter with the options it is used under. -/
structure View where
  filter : Filter
  options : ViewOptions := {}
  deriving DecidableEq, Repr

/-- What a view does with an entry of a mapping, as far as its key tells. -/
inductive Treatment
  | removeType
  | keepUndeclared
  | hide
  | place (position : Nat) (child : Field)
  deriving Repr

namespace View

/-- Whether the type key is removed from mappings of a field. A field that
declares the key keeps it. -/
def removesType (view : View) (parent : Field) : Bool :=
  view.options.removeTypeField && (parent.child? view.options.typeField).isNone

/-- What a view does with an entry of a mapping of `parent`. -/
def treatment (view : View) (parent : Field) (key : String) : Treatment :=
  if view.removesType parent && key == view.options.typeField then .removeType
  else
    match parent.lookup? key with
    | none => .keepUndeclared
    | some (position, child) =>
        if view.filter.reveals child then .place position child else .hide

end View

end FieldGuide
