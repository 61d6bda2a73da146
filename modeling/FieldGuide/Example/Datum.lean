import FieldGuide.Example.Draft

/-!
# Example data

This module holds the values an example configuration can be made of, and encodes
them as trees. The data model has structures, variants with and without content,
and maps with keys of any kind; it also has the value that fails to describe
itself.
-/

namespace FieldGuide

/-- A value an example is made of. -/
inductive Datum
  | absent
  | bool (value : Bool)
  | integer (value : Int)
  | float (value : Binary64)
  | text (value : String)
  | sequence (items : List Datum)
  | mapping (entries : List (Datum × Datum))
  | record (fields : List (String × Datum))
  | unitVariant (name : String)
  | variant (name : String) (content : Datum)
  | tupleVariant (name : String) (items : List Datum)
  | recordVariant (name : String) (fields : List (String × Datum))
  | failure (reason : String)
  deriving Repr, Inhabited

namespace Datum

/-- A value that may be missing is described like the value itself. -/
def ofOption (value : Option Datum) : Datum := value.getD .absent

/-- A sequence of bytes is a sequence of their numbers. -/
def bytes (values : List Nat) : Datum := .sequence (values.map fun (value : Nat) => .integer value)

/-- A number is described by its own kind. -/
def ofNumber : Number → Datum
  | .integer value _ => .integer value
  | .float value => .float value

mutual

/-- A JSON document as data. -/
def ofJson : Json → Datum
  | .null => .absent
  | .bool value => .bool value
  | .number value => ofNumber value
  | .string value => .text value
  | .array items => .sequence (ofJsonItems items)
  | .object members => .mapping (ofJsonMembers members)

/-- The items of a JSON array as data. -/
def ofJsonItems : List Json → List Datum
  | [] => []
  | item :: rest => ofJson item :: ofJsonItems rest

/-- The members of a JSON object as data. -/
def ofJsonMembers : List (String × Json) → List (Datum × Datum)
  | [] => []
  | (key, value) :: rest => (.text key, ofJson value) :: ofJsonMembers rest

end

mutual

/-- A tree as data. -/
def ofTree : Tree → Datum
  | .null => .absent
  | .bool value => .bool value
  | .number value => ofNumber value
  | .text value => .text value
  | .sequence items => .sequence (ofTrees items)
  | .mapping entries => .mapping (ofTreeEntries entries)

/-- The items of a sequence as data. -/
def ofTrees : List Tree → List Datum
  | [] => []
  | item :: rest => ofTree item :: ofTrees rest

/-- The entries of a mapping as data. -/
def ofTreeEntries : List (String × Tree) → List (Datum × Datum)
  | [] => []
  | (key, value) :: rest => (.text key, ofTree value) :: ofTreeEntries rest

end

/-- The draft of an integer; one outside the range of numbers becomes the text
of its digits. -/
def integerDraft (value : Int) : Draft :=
  match Number.ofInt? value with
  | some number => .number number
  | none => .text (.ofList (integerText value))

/-- The name of a variant with content must not be empty. -/
def checkTag (name : String) : Except EncodeError Unit :=
  if name.isEmpty then .error .emptyTag else .ok ()

mutual

/-- The draft of a value. An entry added under a key that is already there
replaces its value. A variant is refused for an empty name before its content is
looked at. -/
def toDraft : Datum → Except EncodeError Draft
  | .absent => .ok .null
  | .bool value => .ok (.bool value)
  | .integer value => .ok (integerDraft value)
  | .float value => .ok (.number (.float value))
  | .text value => .ok (.text value)
  | .sequence items => do return .sequence (← toDrafts items)
  | .mapping entries => do return .mapping (Keyed.collect (← toDraftEntries entries))
  | .record fields => do return .mapping (Keyed.collect (← toDraftFields fields))
  | .unitVariant name => .ok (.text name)
  | .variant name content => do
      checkTag name
      return .tagged name (← toDraft content)
  | .tupleVariant name items => do
      checkTag name
      return .tagged name (.sequence (← toDrafts items))
  | .recordVariant name fields => do
      checkTag name
      return .tagged name (.mapping (Keyed.collect (← toDraftFields fields)))
  | .failure reason => .error (.failure reason)

/-- The drafts of the items of a sequence. -/
def toDrafts : List Datum → Except EncodeError (List Draft)
  | [] => .ok []
  | item :: rest => do
      let item ← toDraft item
      return item :: (← toDrafts rest)

/-- The drafts of the entries of a map, each key before its value. -/
def toDraftEntries : List (Datum × Datum) → Except EncodeError (List (Draft × Draft))
  | [] => .ok []
  | (key, value) :: rest => do
      let key ← toDraft key
      let value ← toDraft value
      return (key, value) :: (← toDraftEntries rest)

/-- The drafts of the fields of a record. -/
def toDraftFields : List (String × Datum) → Except EncodeError (List (Draft × Draft))
  | [] => .ok []
  | (name, value) :: rest => do
      let value ← toDraft value
      return (.text name, value) :: (← toDraftFields rest)

end

/-- The tree of a value. Keys are settled only after the whole value has been
described. -/
def toTree (datum : Datum) : Except EncodeError Tree :=
  datum.toDraft >>= Draft.toTree

end Datum

end FieldGuide
