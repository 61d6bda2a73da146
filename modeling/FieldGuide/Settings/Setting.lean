import FieldGuide.Number.Style
import FieldGuide.Json.Writer
import FieldGuide.Keyed

/-!
# Raw settings

This module holds values as a layer of settings gives them, before anybody asks
for a type, and the merging of one layer over another.
-/

namespace FieldGuide

/-- A value in a layer of settings. -/
inductive Setting
  | bool (value : Bool)
  | unsigned (value : Nat)
  | signed (value : Int)
  | float (value : Binary64)
  | text (value : String)
  | list (items : List Setting)
  | table (entries : List (String × Setting))
  deriving Repr, Inhabited

namespace Setting

/-- How an error message names a value that it found. -/
def describe : Setting → List Char
  | .bool value => "bool ".toList ++ Json.boolText value
  | .unsigned value => "unsigned int \x60".toList ++ naturalDigits value ++ ['\x60']
  | .signed value => "signed int \x60".toList ++ integerText value ++ ['\x60']
  | .float value => "float \x60".toList ++ FloatStyle.plain.text value ++ ['\x60']
  | .text value => "string ".toList ++ Text.quoted value.toList
  | .list _ => "sequence".toList
  | .table _ => "map".toList

mutual

/-- A value with another one laid over it. Tables are merged key by key; any other
value replaces what was there. -/
def overlaid (base : Setting) : Setting → Setting
  | .table entries =>
      match base with
      | .table below => .table (entriesOverlaid below entries)
      | _ => .table entries
  | value => value

/-- The entries of a table with those of another one laid over them. -/
def entriesOverlaid (below : List (String × Setting)) :
    List (String × Setting) → List (String × Setting)
  | [] => below
  | (key, value) :: rest =>
      let merged :=
        match below.lookup key with
        | some base => overlaid base value
        | none => value
      entriesOverlaid (Keyed.put key merged below) rest

end

/-- A value under a path of keys. -/
def under (value : Setting) : List String → Setting
  | [] => value
  | key :: path => .table [(key, under value path)]

end Setting

end FieldGuide
