import FieldGuide.Json.Basic
import FieldGuide.Text.Quoted

/-!
# Compact JSON text

This module writes a JSON document without any white space. Only quotes,
backslashes and control characters are escaped.
-/

namespace FieldGuide.Json

/-- One character of a JSON string. -/
def stringChar (c : Char) : List Char :=
  match c with
  | '"' => ['\\', '"']
  | '\\' => ['\\', '\\']
  | '\x08' => ['\\', 'b']
  | '\x0c' => ['\\', 'f']
  | '\n' => ['\\', 'n']
  | '\r' => ['\\', 'r']
  | '\t' => ['\\', 't']
  | _ => if c.toNat < 0x20 then ['\\', 'u'] ++ Text.paddedHex 4 c.toNat else [c]

/-- A JSON string. -/
def stringText (text : String) : List Char :=
  '"' :: text.toList.flatMap stringChar ++ ['"']

/-- The text of a truth value. -/
def boolText (value : Bool) : List Char :=
  (if value then "true" else "false").toList

/-- The pieces with commas between them. -/
def commaSeparated : List (List Char) → List Char
  | [] => []
  | [piece] => piece
  | piece :: rest => piece ++ ',' :: commaSeparated rest

mutual

/-- The compact text of a document. -/
def chars : Json → List Char
  | .null => "null".toList
  | .bool value => boolText value
  | .number value => value.jsonText
  | .string value => stringText value
  | .array items => '[' :: commaSeparated (itemTexts items) ++ [']']
  | .object members => '\x7b' :: commaSeparated (memberTexts members) ++ ['\x7d']

/-- The texts of the items of an array. -/
def itemTexts : List Json → List (List Char)
  | [] => []
  | item :: rest => chars item :: itemTexts rest

/-- The texts of the members of an object. -/
def memberTexts : List (String × Json) → List (List Char)
  | [] => []
  | (key, value) :: rest => (stringText key ++ ':' :: chars value) :: memberTexts rest

end

/-- The compact text of a document as a string. -/
def compact (document : Json) : String := .ofList document.chars

end FieldGuide.Json
