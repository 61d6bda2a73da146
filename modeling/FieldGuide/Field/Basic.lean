import FieldGuide.Json.Basic

/-!
# Configuration fields

This module holds the tree of fields that describes a component's configuration,
the lookup of a child by name, and the search for a name declared twice among
siblings.
-/

namespace FieldGuide

/-- The type of a field's values. -/
inductive ValueType
  | string
  | int
  | float
  | bool
  | object
  | unknown
  deriving DecidableEq, Repr

namespace ValueType

/-- The name of a value type in documents and on pages. -/
def name : ValueType → String
  | .string => "string"
  | .int => "int"
  | .float => "float"
  | .bool => "bool"
  | .object => "object"
  | .unknown => "unknown"

/-- All value types, in declared order. -/
def all : List ValueType := [.string, .int, .float, .bool, .object, .unknown]

/-- The value type of a field that names none. -/
def assumed : ValueType := .string

end ValueType

/-- How a field arranges values of its type: one of them, a map from free keys to
them, a list of them, or a list of lists of them. -/
inductive Kind
  | scalar
  | map
  | array
  | grid
  deriving DecidableEq, Repr

namespace Kind

/-- The name of a kind in documents. -/
def name : Kind → String
  | .scalar => "scalar"
  | .map => "map"
  | .array => "array"
  | .grid => "2darray"

/-- All kinds, in declared order. -/
def all : List Kind := [.scalar, .map, .array, .grid]

/-- The kind of a field that names none. -/
def assumed : Kind := .scalar

/-- What a dotted path shows after the name of a field with children. -/
def marker : Kind → String
  | .scalar | .map => ""
  | .array => "[]"
  | .grid => "[][]"

end Kind

/-- What a field says about itself, apart from its children. -/
structure FieldInfo where
  name : String
  description : String := ""
  valueType : ValueType := .assumed
  kind : Kind := .assumed
  isAdvanced : Bool := false
  isDeprecated : Bool := false
  isSecret : Bool := false
  defaultValue : Option Json := none
  examples : List Json := []
  options : List String := []
  annotatedOptions : List (String × String) := []
  version : String := ""
  deriving DecidableEq, Repr

/-- A field of a configuration, with the fields below it in declared order. -/
structure Field extends FieldInfo where
  children : List Field := []
  deriving Repr

namespace Field

mutual

/-- Decides whether two fields are the same. -/
def decEq : (left right : Field) → Decidable (left = right)
  | ⟨leftInfo, left⟩, ⟨rightInfo, right⟩ =>
      if sameInfo : leftInfo = rightInfo then
        match decEqList left right with
        | isTrue same => isTrue (by simp [sameInfo, same])
        | isFalse differ => isFalse (by simp [differ])
      else isFalse (by simp [sameInfo])

/-- Decides whether two lists of fields are the same. -/
def decEqList : (left right : List Field) → Decidable (left = right)
  | [], [] => isTrue rfl
  | [], _ :: _ | _ :: _, [] => isFalse (by simp)
  | left :: leftRest, right :: rightRest =>
      match decEq left right, decEqList leftRest rightRest with
      | isTrue same, isTrue sameRest => isTrue (by simp [same, sameRest])
      | isFalse differ, _ => isFalse (by simp [differ])
      | _, isFalse differ => isFalse (by simp [differ])

end

instance : DecidableEq Field := decEq

/-- The position of the first child of a name, with the child. -/
def lookup? (field : Field) (name : String) : Option (Nat × Field) :=
  (field.children.zipIdx.find? fun (child, _) => child.name == name).map Prod.swap

/-- The first child of a name. -/
def child? (field : Field) (name : String) : Option Field :=
  (field.lookup? name).map Prod.snd

mutual

/-- The path to the first field whose name is declared again by a later sibling,
as the chain of names below the given field. -/
def duplicatePath? : Field → Option (List String)
  | ⟨_, children⟩ => duplicatePathAmong? children

/-- The path to the first repeated name among siblings or below one of them.
A sibling's own name comes before the names below it. -/
def duplicatePathAmong? : List Field → Option (List String)
  | [] => none
  | child :: siblings =>
      if siblings.any fun sibling => sibling.name == child.name then some [child.name]
      else
        match duplicatePath? child with
        | some path => some (child.name :: path)
        | none => duplicatePathAmong? siblings

end

/-- The path to the first repeated name, with dots between its names. -/
def duplicate? (field : Field) : Option String :=
  field.duplicatePath?.map (".".intercalate ·)

end Field

end FieldGuide
