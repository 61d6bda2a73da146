import FieldGuide.Settings.Setting
import FieldGuide.Text.Blank
import FieldGuide.Text.Hex
import FieldGuide.Text.Scan

/-!
# Settings from environment variables

This module reads settings from the environment. A variable belongs to the
settings when its name starts with the prefix of the application, in any case; two
underscores in the rest of the name separate the keys of a path. A value has a small
syntax of its own, and what does not follow it is plain text.
-/

namespace FieldGuide.Variable

open FieldGuide.Text

/-! ## Values -/

/-- The blanks that may stand between the parts of a value. -/
def isGap (c : Char) : Bool := c = ' ' || c = '\t' || c = '\n' || c = '\x0c' || c = '\r'

/-- The characters that end a bare word. -/
def isSeparator (c : Char) : Bool :=
  c = ',' || c = '\x7b' || c = '\x7d' || c = '[' || c = ']'

/-- The characters of a key without quotes. -/
def isKeyChar (c : Char) : Bool := c.isAlphanum || c = '_' || c = '-'

/-- The natural number of a word: digits, perhaps after a plus sign. -/
def unsigned? (word : List Char) : Option Nat := do
  let digits := match word with
    | '+' :: rest => rest
    | _ => word
  let value ← valueIn? 10 digits
  guard (value < twoTo 64)
  return value

/-- The negative number of a word. -/
def negative? : List Char → Option Int
  | '-' :: digits => do
      let value ← valueIn? 10 digits
      guard (value ≤ twoTo 63)
      return -(value : Int)
  | _ => none

/-- The value of a bare word: a float when it has a point, an integer, or text. -/
def ofWord (word : List Char) : Setting :=
  let float? := if word.contains '.' then Decimal.read? word else none
  match float?, unsigned? word, negative? word with
  | some decimal, _, _ => .float decimal.toBinary64
  | none, some value, _ => .unsigned value
  | none, none, some value => .signed value
  | none, none, none => .text (.ofList word)

/-- The character that an escape stands for, after the backslash. -/
def escape : Scan Char := do
  let codePoint (width : Nat) : Scan Char := do
    let code ← valueIn? 16 (← Scan.takeN width)
    guard (code < 0xd800 ∨ (0xe000 ≤ code ∧ code < 0x110000))
    return Char.ofNat code
  match ← Scan.next with
  | '"' => return '"'
  | '\\' => return '\\'
  | 'b' => return '\x08'
  | 'f' => return '\x0c'
  | 'n' => return '\n'
  | 'r' => return '\r'
  | 't' => return '\t'
  | 'u' => codePoint 4
  | 'U' => codePoint 8
  | _ => failure

/-- The characters that may stand in a quoted string: no controls but the tab. -/
def isStringChar (c : Char) : Bool :=
  c = '\t' || (0x20 ≤ c.toNat && c.toNat ≠ 0x7f)

/-- The rest of a quoted string from its first escape. -/
def stringRest : Nat → Scan (List Char)
  | 0 => failure
  | fuel + 1 => do
      match ← Scan.next with
      | '"' => return []
      | '\\' =>
          let c ← escape
          return c :: (← stringRest fuel)
      | c =>
          guard (isStringChar c)
          return c :: (← stringRest fuel)

/-- The characters at the start of a text that fill a number of bytes, if those bytes
end where a character does. -/
def fillBytes? : Nat → List Char → Option (List Char)
  | 0, _ => some []
  | _ + 1, [] => none
  | bytes + 1, c :: rest =>
      if c.utf8Size ≤ bytes + 1 then
        (fillBytes? (bytes + 1 - c.utf8Size) rest).map (c :: ·)
      else none

/-- A quoted string. In a string with escapes, the text before the first of them
keeps as many bytes as it has characters. -/
def string : Scan String := do
  Scan.eat '"'
  let start ← Scan.takeWhile fun c => c ≠ '"' && c ≠ '\\' && isStringChar c
  if ← Scan.tryAll ['"'] then return .ofList start
  else
    let start ← fillBytes? start.length start
    return .ofList (start ++ (← stringRest ((← get).length + 1)))

/-- A key, bare or quoted. -/
def key : Scan String := do
  if (← Scan.peek?) = some '"' then string
  else
    let key ← Scan.takeWhile isKeyChar
    guard !key.isEmpty
    return .ofList key

/-- A truth value, if one comes next. -/
def bool? : Scan (Option Bool) := do
  if ← Scan.tryAll "true".toList then return some true
  if ← Scan.tryAll "false".toList then return some false
  return none

mutual

/-- A value with the blanks around it. -/
def value : Nat → Scan Setting
  | 0 => failure
  | fuel + 1 => do
      Scan.skipWhile isGap
      let setting ←
        match ← bool? with
        | some value => pure (.bool value)
        | none =>
          match ← Scan.peek? with
          | some '\x7b' => do Scan.eat '\x7b'; pure (.table (← entries fuel []))
          | some '[' => do Scan.eat '['; pure (.list (← items fuel))
          | some '"' => pure (.text (← string))
          | some '\x27' => do
              Scan.eat '\x27'
              let c ← Scan.next
              Scan.eat '\x27'
              pure (.text (.ofList [c]))
          | _ => pure (ofWord (trim (← Scan.takeWhile fun c => !isSeparator c)))
      Scan.skipWhile isGap
      return setting

/-- The items of a list up to its closing bracket. A comma may stand after the last
one. -/
def items : Nat → Scan (List Setting)
  | 0 => failure
  | fuel + 1 => do
      if ← Scan.tryAll [']'] then return []
      else
        let item ← value fuel
        if ← Scan.tryAll [','] then return item :: (← items fuel)
        else
          Scan.eat ']'
          return [item]

/-- The entries of a table up to its closing brace. A later entry replaces an
earlier one with the same key. -/
def entries : Nat → List (String × Setting) → Scan (List (String × Setting))
  | 0, _ => failure
  | fuel + 1, read => do
      if ← Scan.tryAll ['\x7d'] then return read
      else
        Scan.skipWhile isGap
        let name ← key
        Scan.skipWhile isGap
        Scan.eat '='
        let setting ← value fuel
        let read := Keyed.put name setting read
        if ← Scan.tryAll [','] then entries fuel read
        else
          Scan.eat '\x7d'
          return read

end

/-- The value of a variable's text. A text that does not follow the syntax to its
end stands for itself. -/
def ofText (text : List Char) : Setting :=
  ((value (2 * text.length + 2)).whole? text).getD (.text (.ofList text))

/-! ## Names -/

/-- The prefix of the names of variables that hold settings. -/
def namePrefix : List Char := "COMPONENT_DOCS_".toList

/-- Removes the prefix from a name in any case. -/
def dropNamePrefix? (name : List Char) : Option (List Char) :=
  if (name.take namePrefix.length).map Char.toUpper = namePrefix then
    some (name.drop namePrefix.length)
  else none

/-- Writes two underscores as the dot between the keys of a path. -/
def dotted : List Char → List Char
  | '_' :: '_' :: rest => '.' :: dotted rest
  | c :: rest => c :: dotted rest
  | [] => []

/-- The parts of a text between dots. -/
def splitDots : List Char → List (List Char)
  | [] => [[]]
  | c :: rest =>
      match splitDots rest with
      | [] => [[c]]
      | part :: others => if c = '.' then [] :: part :: others else (c :: part) :: others

/-- The path of keys that a variable's name stands for. Blanks around the name and
around what follows the prefix do not count. Names without the prefix and paths with
an empty key stand for none. -/
def path? (name : String) : Option (List String) := do
  let rest ← dropNamePrefix? (trim name.toList)
  let keys := splitDots (trim (dotted (rest.map Char.toLower)))
  guard (keys.all fun key => !key.isEmpty)
  return keys.map .ofList

/-- The table that one variable stands for. -/
def layer? (name value : String) : Option Setting :=
  (path? name).map fun keys => (ofText value.toList).under keys

/-- The table that an environment stands for, later variables over earlier ones. A
variable that is set again keeps its place and has its last value only. -/
def layer (environment : List (String × String)) : Setting :=
  ((Keyed.collect environment).filterMap fun (name, value) => layer? name value).foldl
    Setting.overlaid (.table [])

end FieldGuide.Variable
