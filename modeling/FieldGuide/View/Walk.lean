import FieldGuide.Example.Tree
import FieldGuide.View.Basic

/-!
# Example trees through a view

This module walks an example along the field that describes it. Entries of a
mapping that is walked against a field's children are hidden or kept by the view
and put in declared order, with undeclared entries after them. Values that do not
have the shape their field calls for stay as they are.
-/

namespace FieldGuide

/-- Puts an entry before the first one with the same or a later position. -/
def placeEntry {α : Type} (entry : Nat × α) : List (Nat × α) → List (Nat × α)
  | [] => [entry]
  | other :: rest =>
      if entry.1 ≤ other.1 then entry :: other :: rest else other :: placeEntry entry rest

/-- The entries in the order of their positions. Entries of one position keep
their order. -/
def arrange {α : Type} (placed : List (Nat × α)) : List α :=
  (placed.foldr placeEntry []).map Prod.snd

namespace View

/-- Whether a walked value is kept: its field is selected, or it still has
entries. -/
def keeps (view : View) (child : Field) (walked : Tree) : Bool :=
  view.filter.selects child || walked.isPopulated

mutual

/-- A value arranged as `kind` says, with elements that `field` describes. -/
def walk (view : View) (kind : Kind) (field : Field) : Tree → Tree
  | .mapping entries =>
      match kind with
      | .scalar =>
          if field.children.isEmpty then .mapping entries
          else .mapping (arrange (walkEntries view field entries))
      | .map => .mapping (walkValues view field entries)
      | .array | .grid => .mapping entries
  | .sequence items =>
      match kind with
      | .array => .sequence (walkItems view .scalar field items)
      | .grid => .sequence (walkItems view .array field items)
      | .scalar | .map => .sequence items
  | other => other

/-- The items of a sequence, each arranged as `kind` says. -/
def walkItems (view : View) (kind : Kind) (field : Field) : List Tree → List Tree
  | [] => []
  | item :: rest => walk view kind field item :: walkItems view kind field rest

/-- The entries of a map with free keys. -/
def walkValues (view : View) (field : Field) : List (String × Tree) → List (String × Tree)
  | [] => []
  | (key, value) :: rest =>
      (key, walk view .scalar field value) :: walkValues view field rest

/-- The entries of a mapping that are kept, each with its declared position.
Undeclared entries stand after all declared ones. -/
def walkEntries (view : View) (parent : Field) :
    List (String × Tree) → List (Nat × String × Tree)
  | [] => []
  | (key, value) :: rest =>
      match view.treatment parent key with
      | .removeType | .hide => walkEntries view parent rest
      | .keepUndeclared =>
          (parent.children.length, key, value) :: walkEntries view parent rest
      | .place position child =>
          let walked := walk view child.kind child value
          if view.keeps child walked then
            (position, key, walked) :: walkEntries view parent rest
          else walkEntries view parent rest

end

/-- A whole example through a view. A mapping described by a scalar root is walked
even when the root declares nothing. -/
def apply (view : View) (root : Field) : Tree → Tree
  | .mapping entries =>
      match root.kind with
      | .scalar => .mapping (arrange (walkEntries view root entries))
      | kind => walk view kind root (.mapping entries)
  | other => walk view root.kind root other

end View

end FieldGuide
