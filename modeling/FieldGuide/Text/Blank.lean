/-!
# White space

This module holds the characters with the Unicode property White_Space and the
trimming of text by them.
-/

namespace FieldGuide.Text

/-- The characters with the property White_Space. -/
def isBlank (c : Char) : Bool :=
  let code := c.toNat
  (0x09 ≤ code && code ≤ 0x0d) || code = 0x20 || code = 0x85 || code = 0xa0 ||
    code = 0x1680 || (0x2000 ≤ code && code ≤ 0x200a) || code = 0x2028 ||
    code = 0x2029 || code = 0x202f || code = 0x205f || code = 0x3000

/-- Removes white space from the start of a text. -/
def trimStart (text : List Char) : List Char := text.dropWhile isBlank

/-- Removes white space from the end of a text. -/
def trimEnd (text : List Char) : List Char := (text.reverse.dropWhile isBlank).reverse

/-- Removes white space from both ends of a text. -/
def trim (text : List Char) : List Char := trimEnd (trimStart text)

end FieldGuide.Text
