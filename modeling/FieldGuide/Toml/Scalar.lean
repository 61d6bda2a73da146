import FieldGuide.Settings.Setting
import FieldGuide.Text.Hex
import FieldGuide.Text.Scan

/-!
# TOML scalars

This module reads the scalars of a TOML document: strings of four kinds, keys, and
the words that stand for numbers, truth values, dates and times.
-/

namespace FieldGuide.Toml

open FieldGuide.Text

/-- Skips spaces and tabs. -/
def skipBlanks : Scan Unit := Scan.skipWhile fun c => c = ' ' || c = '\t'

/-- Takes the end of a line. -/
def lineEnd : Scan Unit := Scan.eat '\n' <|> Scan.eatAll ['\r', '\n']

/-- The characters that may stand in comments and strings: no controls but the
tab. -/
def isTextChar (c : Char) : Bool :=
  c = '\t' || (0x20 ≤ c.toNat && c.toNat ≠ 0x7f)

/-! ## Strings -/

/-- The character that the digits of an escape name. -/
def codePoint (width : Nat) : Scan Char := do
  let code ← valueIn? 16 (← Scan.takeN width)
  guard (code < 0xd800 ∨ (0xe000 ≤ code ∧ code < 0x110000))
  return Char.ofNat code

/-- The character that an escape stands for, after the backslash. -/
def escape : Scan Char := do
  match ← Scan.next with
  | 'b' => return '\x08'
  | 't' => return '\t'
  | 'n' => return '\n'
  | 'f' => return '\x0c'
  | 'r' => return '\r'
  | '"' => return '"'
  | '\\' => return '\\'
  | 'u' => codePoint 4
  | 'U' => codePoint 8
  | _ => failure

/-- The rest of a string on one line after its opening quote. Escapes are read
between double quotes only. -/
def lineString (quote : Char) : Nat → Scan (List Char)
  | 0 => failure
  | fuel + 1 => do
      let c ← Scan.next
      if c = quote then return []
      else if c = '\\' ∧ quote = '"' then
        let c ← escape
        return c :: (← lineString quote fuel)
      else
        guard (isTextChar c)
        return c :: (← lineString quote fuel)

/-- Drops blank lines and the indentation after them. -/
def dropBlankLines : List Char → List Char
  | ' ' :: rest | '\t' :: rest | '\n' :: rest => dropBlankLines rest
  | '\r' :: '\n' :: rest => dropBlankLines rest
  | text => text

/-- Takes a backslash at the end of a line, with the blanks up to the next visible
character. -/
def lineContinuation : Scan Unit := do
  Scan.eat '\\'
  skipBlanks
  lineEnd
  modify dropBlankLines

/-- The rest of a string of several lines after its opening quotes. Up to two
quotes may stand before the closing ones, and every line ends with a line feed. -/
def blockString (quote : Char) : Nat → Scan (List Char)
  | 0 => failure
  | fuel + 1 => do
      let quotes ← Scan.takeWhile (· = quote)
      if 6 ≤ quotes.length then failure
      else if 3 ≤ quotes.length then return quotes.drop 3
      else
        let piece ←
          (do lineEnd; return ['\n']) <|>
          (do guard (quote = '"'); lineContinuation; return []) <|>
          (do guard (quote = '"'); Scan.eat '\\'; return [← escape]) <|>
          (do
            let c ← Scan.next
            guard (isTextChar c ∧ (c ≠ '\\' ∨ quote ≠ '"'))
            return [c])
        return quotes ++ piece ++ (← blockString quote fuel)

/-- A string in quotes of one kind. Three quotes open a string of several lines,
which may start on the next line. -/
def stringIn (quote : Char) : Scan String := do
  let fuel := (← get).length + 1
  if ← Scan.tryAll [quote, quote, quote] then
    lineEnd <|> pure ()
    return .ofList (← blockString quote fuel)
  else
    Scan.eat quote
    return .ofList (← lineString quote fuel)

/-! ## Keys -/

/-- The characters of a key without quotes. -/
def isKeyChar (c : Char) : Bool := c.isAlphanum || c = '_' || c = '-'

/-- A key without dots. -/
def simpleKey : Scan String := do
  let fuel := (← get).length + 1
  match ← Scan.peek? with
  | some '"' => do Scan.eat '"'; return .ofList (← lineString '"' fuel)
  | some '\x27' => do Scan.eat '\x27'; return .ofList (← lineString '\x27' fuel)
  | _ =>
      let key ← Scan.takeWhile isKeyChar
      guard !key.isEmpty
      return .ofList key

/-- The keys after the first of a dotted key; one unit of fuel for each. -/
def moreKeys : Nat → Scan (List String)
  | 0 => failure
  | fuel + 1 => do
      skipBlanks
      if ← Scan.tryAll ['.'] then
        skipBlanks
        let key ← simpleKey
        return key :: (← moreKeys fuel)
      else return []

/-- The number of levels that a document may not reach: neither arrays and inline
tables inside each other nor the parts of a dotted key. -/
def levelLimit : Nat := 80

/-- A dotted key, as the path before its last part and the last part, with the
blanks around it. -/
def dottedKey : Scan (List String × String) := do
  skipBlanks
  let first ← simpleKey
  let more ← moreKeys ((← get).length + 1)
  guard (more.length + 1 < levelLimit)
  match more.getLast? with
  | none => return ([], first)
  | some last => return (first :: more.dropLast, last)

/-! ## Words -/

/-- Digits without the single underscores that stand between them. -/
def spacedDigits? (isDigit : Char → Bool) : List Char → Option (List Char)
  | [] => none
  | [c] => if isDigit c then some [c] else none
  | c :: '_' :: rest => if isDigit c then (spacedDigits? isDigit rest).map (c :: ·) else none
  | c :: rest => if isDigit c then (spacedDigits? isDigit rest).map (c :: ·) else none

/-- Decimal digits without a needless zero before them. -/
def wholeDigits? (text : List Char) : Option (List Char) :=
  (spacedDigits? Char.isDigit text).filter fun digits =>
    digits.head? != some '0' || digits.length = 1

/-- The integer of a word. It fits 64 bits with a sign. -/
def integer? (word : List Char) : Option Setting := do
  let marked (base : Nat) (digits : List Char) : Option Int :=
    (spacedDigits? (fun c => (digitIn? base c).isSome) digits).bind fun digits =>
      (valueIn? base digits).map Int.ofNat
  let value ←
    match word with
    | '0' :: 'x' :: digits => marked 16 digits
    | '0' :: 'o' :: digits => marked 8 digits
    | '0' :: 'b' :: digits => marked 2 digits
    | _ =>
        let (negative, digits) := Decimal.splitSign word
        (wholeDigits? digits).map fun digits =>
          if negative then -(digitsValue digits : Int) else digitsValue digits
  guard (-(twoTo 63 : Int) ≤ value ∧ value < twoTo 63)
  return .signed value

/-- The exponent that stands after the digits of a float. -/
def exponent? : List Char → Option Int
  | [] => some 0
  | mark :: text => do
      guard (mark = 'e' ∨ mark = 'E')
      let (negative, digits) := Decimal.splitSign text
      let value : Int := digitsValue (← spacedDigits? Char.isDigit digits)
      return if negative then -value else value

/-- The float of a word: digits with a fraction or an exponent, or the name of an
infinity or of not-a-number. Numerals above every double are refused. -/
def float? (word : List Char) : Option Setting := do
  let (negative, unsigned) := Decimal.splitSign word
  if unsigned = "inf".toList then return .float (.infinite negative)
  else if unsigned = "nan".toList then return .float .nan
  else
    let isDigitChar (c : Char) : Bool := c.isDigit || c = '_'
    let whole ← wholeDigits? (unsigned.takeWhile isDigitChar)
    let rest := unsigned.dropWhile isDigitChar
    guard !rest.isEmpty
    let (fraction, rest) ←
      match rest with
      | '.' :: rest => do
          let digits ← spacedDigits? Char.isDigit (rest.takeWhile isDigitChar)
          pure (digits, rest.dropWhile isDigitChar)
      | _ => pure ([], rest)
    let exponent ← exponent? rest
    let decimal : Decimal :=
      ⟨negative, digitsValue (whole ++ fraction), exponent - fraction.length⟩
    guard (decimal.toBinary64 ≠ .infinite false)
    return .float decimal.toBinary64

/-- The number that two digits write, if it is in a range. -/
def twoDigits? (least greatest : Nat) (tens ones : Char) : Option Nat := do
  guard (tens.isDigit && ones.isDigit)
  let value := digitsValue [tens, ones]
  guard (least ≤ value ∧ value ≤ greatest)
  return value

/-- The number of days of a month. -/
def daysInMonth (year month : Nat) : Nat :=
  if month = 2 then
    if year % 4 = 0 ∧ (year % 100 ≠ 0 ∨ year % 400 = 0) then 29 else 28
  else if [4, 6, 9, 11].contains month then 30
  else 31

/-- Takes a date from the start of a word. -/
def dropDate? : List Char → Option (List Char)
  | a :: b :: c :: d :: '-' :: e :: f :: '-' :: g :: h :: rest => do
      guard ([a, b, c, d].all Char.isDigit)
      let month ← twoDigits? 1 12 e f
      let _ ← twoDigits? 1 (daysInMonth (digitsValue [a, b, c, d]) month) g h
      return rest
  | _ => none

/-- Takes a time of day from the start of a word. -/
def dropTime? : List Char → Option (List Char)
  | a :: b :: ':' :: c :: d :: ':' :: e :: f :: rest => do
      let _ ← twoDigits? 0 23 a b
      let _ ← twoDigits? 0 59 c d
      let _ ← twoDigits? 0 60 e f
      match rest with
      | '.' :: rest =>
          guard (rest.head?.any Char.isDigit)
          return rest.dropWhile Char.isDigit
      | _ => return rest
  | _ => none

/-- Whether a text is an offset from universal time. -/
def isOffset : List Char → Bool
  | ['Z'] | ['z'] => true
  | sign :: a :: b :: ':' :: c :: d :: [] =>
      (sign = '+' || sign = '-') && (twoDigits? 0 23 a b).isSome &&
        (twoDigits? 0 59 c d).isSome
  | _ => false

/-- Whether a text is a time of day, with or without an offset. -/
def isOffsetTime (text : List Char) : Bool :=
  (dropTime? text).any fun rest => rest.isEmpty || isOffset rest

/-- Whether a word is a date, a time, or both. -/
def isMoment (word : List Char) : Bool :=
  match dropDate? word with
  | some [] => true
  | some (mark :: time) => (mark = 'T' || mark = 't') && isOffsetTime time
  | none => (dropTime? word).any List.isEmpty

/-- The characters of words. -/
def isWordChar (c : Char) : Bool :=
  c.isAlphanum || c = '+' || c = '-' || c = '.' || c = '_' || c = ':'

/-- A date or time is a table with its text. -/
def moment (text : List Char) : Setting := .table [("datetime", .text (.ofList text))]

/-- A value that is a single word. The time of a date may stand after a space. -/
def word : Scan Setting := do
  let word ← Scan.takeWhile isWordChar
  if word = "true".toList then return .bool true
  else if word = "false".toList then return .bool false
  else if isMoment word then
    let rest ← get
    match rest with
    | ' ' :: time =>
        let clock := time.takeWhile isWordChar
        if dropDate? word = some [] && isOffsetTime clock then
          set (time.drop clock.length)
          return moment (word ++ ' ' :: clock)
        else return moment word
    | _ => return moment word
  else
    match float? word with
    | some setting => return setting
    | none => integer? word

end FieldGuide.Toml
