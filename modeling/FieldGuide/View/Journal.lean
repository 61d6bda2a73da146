import FieldGuide.Event
import FieldGuide.View.Walk

/-!
# The journal of a walk

This module lists the events of walking an example through a view, in the order
of the entries they are about. An entry that is walked tells of the entries below
it first.
-/

namespace FieldGuide.View

mutual

/-- The events of walking a value arranged as `kind` says. -/
def walkEvents (view : View) (kind : Kind) (field : Field) : Tree → List Event
  | .mapping entries =>
      match kind with
      | .scalar => if field.children.isEmpty then [] else entryEvents view field entries
      | .map => valueEvents view field entries
      | .array | .grid => []
  | .sequence items =>
      match kind with
      | .array => itemEvents view .scalar field items
      | .grid => itemEvents view .array field items
      | .scalar | .map => []
  | _ => []

/-- The events of walking the items of a sequence. -/
def itemEvents (view : View) (kind : Kind) (field : Field) : List Tree → List Event
  | [] => []
  | item :: rest => walkEvents view kind field item ++ itemEvents view kind field rest

/-- The events of walking the entries of a map with free keys. -/
def valueEvents (view : View) (field : Field) : List (String × Tree) → List Event
  | [] => []
  | (_, value) :: rest => walkEvents view .scalar field value ++ valueEvents view field rest

/-- The events of walking a mapping against a field's children. -/
def entryEvents (view : View) (parent : Field) : List (String × Tree) → List Event
  | [] => []
  | (key, value) :: rest =>
      let own :=
        match view.treatment parent key with
        | .removeType => [.removedType key]
        | .hide => [.hidField key view.filter]
        | .keepUndeclared => [.keptUndeclared key]
        | .place _ child =>
            let below := walkEvents view child.kind child value
            if view.keeps child (walk view child.kind child value) then below
            else below ++ [.droppedEmpty key view.filter]
      own ++ entryEvents view parent rest

end

/-- The events of looking at a whole example through a view. -/
def applyEvents (view : View) (root : Field) : Tree → List Event
  | .mapping entries =>
      match root.kind with
      | .scalar => entryEvents view root entries
      | kind => walkEvents view kind root (.mapping entries)
  | other => walkEvents view root.kind root other

end FieldGuide.View
