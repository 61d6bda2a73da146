import FieldGuide.Yaml.Resolve

/-!
# YAML scalars

This module chooses the style in which a text is written as a YAML scalar and
writes it in that style, as rows. A text with a line feed is written as a literal
block where that keeps it intact; one that would read as something else is put
between single quotes; double quotes take whatever no other style can hold.
-/

namespace FieldGuide.Yaml

/-- A row of YAML text with the character that ends it. -/
structure Row where
  text : List Char
  ending : Char := '\n'
  deriving DecidableEq, Repr

namespace Row

/-- Moves a row two columns to the right. Empty rows stay empty. -/
def indent (row : Row) : Row :=
  if row.text.isEmpty then row else { row with text := ' ' :: ' ' :: row.text }

/-- The row with its ending. -/
def chars (row : Row) : List Char := row.text ++ [row.ending]

end Row

/-- Puts a lead before the first of some rows and indents the others under it. -/
def hang (lead : List Char) : List Row → List Row
  | [] => []
  | first :: rest => { first with text := lead ++ first.text } :: rest.map Row.indent

/-- The characters that a scalar can hold without escapes. -/
def isPrintable (c : Char) : Bool :=
  let code := c.toNat
  code = 0x0a || (0x20 ≤ code && code ≤ 0x7e) || (0xa0 ≤ code && code ≤ 0xd7ff) ||
    (0xe000 ≤ code && code ≤ 0xfffd && code ≠ 0xfeff) || 0x10000 ≤ code

/-- The characters that break a line inside a scalar. -/
def isBreak (c : Char) : Bool :=
  c = '\n' || c = '\r' || c = '\x85' || c = '\u2028' || c = '\u2029'

/-- Whether a character satisfying the first test stands directly before one
satisfying the second. -/
def adjacent (first second : Char → Bool) : List Char → Bool
  | a :: b :: rest => (first a && second b) || adjacent first second (b :: rest)
  | _ => false

/-- A space. -/
def isSpace (c : Char) : Bool := c = ' '

/-- Whether nothing follows, or a space. -/
def endsOrSpace : List Char → Bool
  | [] => true
  | c :: _ => isSpace c

/-- Whether a text starts like an item, a collection, a comment, a tag or another
construct of the format. -/
def startsConstruct : List Char → Bool
  | [] => false
  | c :: rest =>
      ['#', ',', '[', ']', '\x7b', '\x7d', '&', '*', '!', '|', '>', '\x27', '"', '%', '@',
        '\x60'].contains c ||
      ((c = '-' || c = '?') && endsOrSpace rest) ||
      ['-', '-', '-'].isPrefixOf (c :: rest) || ['.', '.', '.'].isPrefixOf (c :: rest)

/-- Whether a colon in a text would end a key. -/
def hasKeyColon : List Char → Bool
  | [] => false
  | c :: rest => (c = ':' && endsOrSpace rest) || hasKeyColon rest

/-- Whether a text survives without quotes. -/
def allowsPlain (text : List Char) : Bool :=
  text.all isPrintable && !text.any isBreak && !text.head?.any isSpace &&
    !text.getLast?.any isSpace && !startsConstruct text && !hasKeyColon text &&
    !adjacent isSpace (· == '#') text

/-- Whether a text survives between single quotes. -/
def allowsSingle (text : List Char) : Bool :=
  text.all isPrintable && !adjacent isSpace isBreak text && !adjacent isBreak isSpace text

/-- Whether a text survives as a literal block. -/
def allowsLiteral (text : List Char) : Bool :=
  text.all isPrintable && !adjacent isSpace isBreak text && !text.getLast?.any isSpace

/-- The styles a scalar can be written in. -/
inductive Style
  | plain
  | single
  | double
  | literal
  deriving DecidableEq, Repr

/-- The style in which a text is written. -/
def Style.ofText (text : List Char) : Style :=
  if text.contains '\n' then if allowsLiteral text then .literal else .double
  else if !needsQuotes text && allowsPlain text then .plain
  else if allowsSingle text then .single
  else .double

/-- Upper-case hexadecimal digits with zeros up to a width. -/
def upperHex (width value : Nat) : List Char :=
  (Text.paddedHex width value).map Char.toUpper

/-- One character between double quotes. -/
def doubleQuotedChar (c : Char) : List Char :=
  match c with
  | '\x00' => ['\\', '0']
  | '\x07' => ['\\', 'a']
  | '\x08' => ['\\', 'b']
  | '\t' => ['\\', 't']
  | '\n' => ['\\', 'n']
  | '\x0b' => ['\\', 'v']
  | '\x0c' => ['\\', 'f']
  | '\r' => ['\\', 'r']
  | '\x1b' => ['\\', 'e']
  | '"' => ['\\', '"']
  | '\\' => ['\\', '\\']
  | '\x85' => ['\\', 'N']
  | '\u2028' => ['\\', 'L']
  | '\u2029' => ['\\', 'P']
  | _ =>
      if isPrintable c then [c]
      else if c.toNat ≤ 0xff then ['\\', 'x'] ++ upperHex 2 c.toNat
      else if c.toNat ≤ 0xffff then ['\\', 'u'] ++ upperHex 4 c.toNat
      else ['\\', 'U'] ++ upperHex 8 c.toNat

/-- A text between double quotes. -/
def doubleQuoted (text : List Char) : List Char :=
  '"' :: text.flatMap doubleQuotedChar ++ ['"']

/-- A text between single quotes. -/
def singleQuoted (text : List Char) : List Char :=
  '\x27' :: text.flatMap (fun c => if c = '\x27' then [c, c] else [c]) ++ ['\x27']

/-- The rows of a text that is split after each break. A row without a break ends
with a line feed. -/
def breakRows : List Char → List Row
  | [] => []
  | c :: rest =>
      if isBreak c then ⟨[], c⟩ :: breakRows rest
      else
        match breakRows rest with
        | [] => [⟨[c], '\n'⟩]
        | row :: others => ⟨c :: row.text, row.ending⟩ :: others

/-- The header of a literal block. It tells the indentation when the text does
not start with a visible character, and what to do with the breaks at its end. -/
def literalHeader (text : List Char) : List Char :=
  let blankStart := text.head?.any fun c => isSpace c || isBreak c
  let ending :=
    match text.reverse with
    | [] => ['-']
    | last :: before =>
        if !isBreak last then ['-']
        else if before.head?.all isBreak then ['+']
        else []
  '|' :: (if blankStart then ['2'] else []) ++ ending

/-- The rows of a scalar. Rows after the first still lack the indentation of what
they hang from. -/
def scalarRows (text : List Char) : List Row :=
  match Style.ofText text with
  | .plain => [⟨text, '\n'⟩]
  | .single => breakRows (singleQuoted text)
  | .double => [⟨doubleQuoted text, '\n'⟩]
  | .literal => ⟨literalHeader text, '\n'⟩ :: breakRows text

end FieldGuide.Yaml
