import FieldGuide.Json.Basic
import FieldGuide.Keyed
import FieldGuide.Text.Hex
import FieldGuide.Text.Scan

/-!
# Reading JSON text

This module reads a JSON document from text. The order of object members and the
kind of each number are kept; a key that is repeated keeps its first place and its
last value. Nested values are read with fuel; the entry point provides more of it
than a text of the given length can use. How deep they nest is limited by the level
alone.
-/

namespace FieldGuide.Json.Reader

open FieldGuide.Text

/-- Skips the blanks JSON allows between tokens. -/
def skipBlanks : Scan Unit :=
  Scan.skipWhile fun c => c = ' ' || c = '\n' || c = '\r' || c = '\t'

/-- The number that the four digits of a code unit write. -/
def codeUnit : Scan Nat := do
  valueIn? 16 (← Scan.takeN 4)

/-- The character of an escape that starts with a code unit. A surrogate needs its
counterpart in a second escape. -/
def unicodeEscape : Scan Char := do
  let unit ← codeUnit
  if 0xd800 ≤ unit ∧ unit < 0xdc00 then
    Scan.eatAll ['\\', 'u']
    let low ← codeUnit
    guard (0xdc00 ≤ low ∧ low < 0xe000)
    return Char.ofNat (0x10000 + (unit - 0xd800) * 0x400 + (low - 0xdc00))
  else
    guard (unit < 0xdc00 ∨ 0xe000 ≤ unit)
    return Char.ofNat unit

/-- The character an escape stands for, after the backslash. -/
def escape : Scan Char := do
  match ← Scan.next with
  | '"' => return '"'
  | '\\' => return '\\'
  | '/' => return '/'
  | 'b' => return '\x08'
  | 'f' => return '\x0c'
  | 'n' => return '\n'
  | 'r' => return '\r'
  | 't' => return '\t'
  | 'u' => unicodeEscape
  | _ => failure

/-- The rest of a string after its opening quote; one unit of fuel for each
character. -/
def stringRest : Nat → Scan (List Char)
  | 0 => failure
  | fuel + 1 => do
      match ← Scan.next with
      | '"' => return []
      | '\\' =>
          let c ← escape
          return c :: (← stringRest fuel)
      | c =>
          guard (0x20 ≤ c.toNat)
          return c :: (← stringRest fuel)

/-- A string with its quotes. -/
def string : Scan String := do
  Scan.eat '"'
  return .ofList (← stringRest ((← get).length + 1))

/-- The characters a JSON numeral can hold. -/
def isNumeralChar (c : Char) : Bool :=
  c.isDigit || c = '-' || c = '+' || c = '.' || c = 'e' || c = 'E'

/-- A number. -/
def number : Scan Number := do
  Number.ofJsonNumeral? (← Scan.takeWhile isNumeralChar)

/-- The number of levels that a text may not reach: arrays and objects inside each
other. -/
def levelLimit : Nat := 128

mutual

/-- A value inside as many arrays and objects as `level` says, and the blanks around
it. -/
def value : Nat → (level : Nat) → Scan Json
  | 0, _ => failure
  | fuel + 1, level => do
      skipBlanks
      let document ←
        match ← Scan.peek? with
        | some '\x7b' =>
            Scan.eat '\x7b'
            let level ← Scan.deeper levelLimit level
            skipBlanks
            if ← Scan.tryAll ['\x7d'] then pure (.object [])
            else pure (.object (Keyed.collect (← members fuel level)))
        | some '[' =>
            Scan.eat '['
            let level ← Scan.deeper levelLimit level
            skipBlanks
            if ← Scan.tryAll [']'] then pure (.array [])
            else pure (.array (← items fuel level))
        | some '"' => pure (.string (← string))
        | some 't' => do Scan.eatAll "true".toList; pure (.bool true)
        | some 'f' => do Scan.eatAll "false".toList; pure (.bool false)
        | some 'n' => do Scan.eatAll "null".toList; pure .null
        | _ => pure (.number (← number))
      skipBlanks
      return document

/-- The items of an array up to its closing bracket. -/
def items : Nat → (level : Nat) → Scan (List Json)
  | 0, _ => failure
  | fuel + 1, level => do
      let item ← value fuel level
      if ← Scan.tryAll [','] then return item :: (← items fuel level)
      else
        Scan.eat ']'
        return [item]

/-- The members of an object up to its closing brace. -/
def members : Nat → (level : Nat) → Scan (List (String × Json))
  | 0, _ => failure
  | fuel + 1, level => do
      skipBlanks
      let key ← string
      skipBlanks
      Scan.eat ':'
      let item ← value fuel level
      if ← Scan.tryAll [','] then return (key, item) :: (← members fuel level)
      else
        Scan.eat '\x7d'
        return [(key, item)]

end

end FieldGuide.Json.Reader

namespace FieldGuide.Json

/-- Reads a document that spans the whole text. -/
def read? (text : String) : Option Json :=
  (Reader.value (2 * text.length + 2) 0).whole? text.toList

end FieldGuide.Json
