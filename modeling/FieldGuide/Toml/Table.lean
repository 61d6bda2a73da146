import FieldGuide.Settings.Setting

/-!
# Tables under construction

This module builds the tables of a TOML document and holds the rules on defining
them: a table has one header, dotted keys extend only tables that dotted keys
made, and values cannot be extended at all.
-/

namespace FieldGuide.Toml

/-- What stands under a key while a document is read. An implicit table has no
header of its own; a dotted one was made by a dotted key. An array of tables
grows by its headers. -/
inductive Node
  | value (setting : Setting)
  | table (isImplicit isDotted : Bool) (entries : List (String × Node))
  | tables (elements : List Node)

/-- The entries of a table under construction. -/
abbrev Entries := List (String × Node)

namespace Entries

/-- Changes the table that a path leads to and that `change` may refuse; it is told
whether the table was made by a dotted key. Missing tables on the way are made. A
dotted path does not pass through tables with headers. -/
def within (dotted : Bool) (change : Bool → Entries → Option Entries) :
    List String → Bool → Entries → Option Entries
  | [], isDotted, entries => change isDotted entries
  | key :: path, _, entries =>
      match entries.lookup key with
      | none => do
          let below ← within dotted change path dotted []
          return Keyed.put key (.table true dotted below) entries
      | some (.value _) => none
      | some (.table isImplicit isDotted below) => do
          guard (!dotted || isImplicit)
          let below ← within dotted change path isDotted below
          return Keyed.put key (.table isImplicit isDotted below) entries
      | some (.tables elements) =>
          match elements.getLast? with
          | some (.table isImplicit isDotted below) => do
              let below ← within dotted change path isDotted below
              return Keyed.put key
                (.tables (elements.dropLast ++ [.table isImplicit isDotted below])) entries
          | _ => none

/-- Opens the table of a header. -/
def openTable (path : List String) (key : String) (entries : Entries) : Option Entries :=
  let add (_ : Bool) (entries : Entries) : Option Entries :=
    match entries.lookup key with
    | none => some (Keyed.put key (.table false false []) entries)
    | some (.table true false below) => some (Keyed.put key (.table false false below) entries)
    | _ => none
  within false add path false entries

/-- Opens a new element of the array of tables of a header. -/
def openElement (path : List String) (key : String) (entries : Entries) : Option Entries :=
  let add (_ : Bool) (entries : Entries) : Option Entries :=
    match entries.lookup key with
    | none => some (Keyed.put key (.tables [.table false false []]) entries)
    | some (.tables elements) =>
        some (Keyed.put key (.tables (elements ++ [.table false false []])) entries)
    | _ => none
  within false add path false entries

/-- Sets a key below a dotted path to a value. The key must be new, and the path
must lead to a table made by dotted keys, or nowhere. -/
def assign (path : List String) (key : String) (value : Setting) (entries : Entries) :
    Option Entries :=
  let add (isDotted : Bool) (entries : Entries) : Option Entries := do
    guard (isDotted != path.isEmpty)
    guard (entries.lookup key).isNone
    return Keyed.put key (.value value) entries
  within true add path false entries

/-- Sets a key in the table that the last header opened. -/
def assignIn (header path : List String) (key : String) (value : Setting) (entries : Entries) :
    Option Entries :=
  within false (fun _ table => table.assign path key value) header false entries

end Entries

namespace Node

mutual

/-- The finished value of a node. -/
def setting : Node → Setting
  | .value setting => setting
  | .table _ _ entries => .table (entrySettings entries)
  | .tables elements => .list (settings elements)

/-- The finished elements of an array of tables. -/
def settings : List Node → List Setting
  | [] => []
  | element :: rest => setting element :: settings rest

/-- The finished entries of a table. -/
def entrySettings : List (String × Node) → List (String × Setting)
  | [] => []
  | (key, node) :: rest => (key, setting node) :: entrySettings rest

end

end Node

end FieldGuide.Toml
