import FieldGuide.Json.Writer
import FieldGuide.Proofs.Json.Readable
import FieldGuide.Proofs.Text.Escapes

/-!
# JSON text read back

The compact text of a document is read as the document, whatever texts it holds, exactly when the
document is readable: it is nested below the limit of the reader, its numbers are finite, and it
repeats no key. So what is read from any text is also read from its own compact text.
-/

namespace FieldGuide

namespace Json

namespace Reader

open FieldGuide.Text

/-- The blanks between tokens. -/
def isBlank (c : Char) : Bool := c = ' ' || c = '\n' || c = '\r' || c = '\t'

/-- Nothing is skipped before a character that is no blank. -/
theorem skipBlanks_cons {first : Char} (notBlank : isBlank first = false) (rest : List Char) :
    skipBlanks (first :: rest) = some ((), first :: rest) := by
  refine Scan.skipWhile_eq_some fun c member => ?_
  obtain rfl := Option.some.inj member
  exact notBlank

/-- Whether a text ends every token before it: it starts neither with a blank nor with a
character of a numeral. -/
def Ends (rest : List Char) : Prop :=
  ∀ c ∈ rest.head?, isBlank c = false ∧ isNumeralChar c = false

/-- A character that is neither a blank nor of a numeral ends a token. -/
theorem ends_cons {first : Char} (notBlank : isBlank first = false)
    (notNumeral : isNumeralChar first = false) (rest : List Char) : Ends (first :: rest) := by
  intro c member
  obtain rfl := Option.some.inj member
  exact ⟨notBlank, notNumeral⟩

section Strings

variable {fuel : Nat} {text middle rest : List Char} {c : Char} {cs : List Char}

/-- An escape stands for one character of a string. -/
theorem stringRest_escape (escaped : escape text = some (c, middle))
    (read : stringRest fuel middle = some (cs, rest)) :
    stringRest (fuel + 1) ('\\' :: text) = some (c :: cs, rest) := by
  rw [stringRest]
  exact Scan.bind_eq_some rfl (Scan.bind_eq_some escaped (Scan.bind_eq_some read rfl))

/-- A character that need not be escaped stands for itself. -/
theorem stringRest_plain (notQuote : c ≠ '"') (notBackslash : c ≠ '\\')
    (printable : 0x20 ≤ c.toNat) (read : stringRest fuel text = some (cs, rest)) :
    stringRest (fuel + 1) (c :: text) = some (c :: cs, rest) := by
  rw [stringRest]
  refine Scan.bind_eq_some rfl ?_
  split
  · exact absurd rfl notQuote
  · exact absurd rfl notBackslash
  · exact Scan.bind_eq_some (Scan.guard_eq_some printable text) (Scan.bind_eq_some read rfl)

/-- The four digits of a control character are read as its code. -/
theorem valueIn?_paddedHex {code : Nat} (control : code < 0x20) :
    valueIn? 16 (paddedHex 4 code) = some code ∧ (paddedHex 4 code).length = 4 := by
  revert code
  decide

/-- The escape of a control character is read as the character. -/
theorem escape_control (control : c.toNat < 0x20) (rest : List Char) :
    escape ('u' :: (paddedHex 4 c.toNat ++ rest)) = some (c, rest) := by
  obtain ⟨value, length⟩ := valueIn?_paddedHex control
  have taken := Scan.takeN_append (paddedHex 4 c.toNat) rest
  rw [length] at taken
  have unit : codeUnit (paddedHex 4 c.toNat ++ rest) = some (c.toNat, rest) := by
    refine Scan.bind_eq_some taken ?_
    rw [value]
    rfl
  refine Scan.bind_eq_some rfl (Scan.bind_eq_some unit ?_)
  rw [if_neg (by omega)]
  refine Scan.bind_eq_some (Scan.guard_eq_some (.inl (by omega)) rest) ?_
  rw [Char.ofNat_toNat]
  rfl

/-- Each character of a string is read from what it is written as. -/
theorem stringRest_stringChar (c : Char) (read : stringRest fuel text = some (cs, rest)) :
    stringRest (fuel + 1) (stringChar c ++ text) = some (c :: cs, rest) := by
  unfold stringChar
  split
  case h_8 notQuote notBackslash _ _ _ _ _ =>
    split
    · next control => exact stringRest_escape (escape_control control text) read
    · next printable => exact stringRest_plain notQuote notBackslash (Nat.not_lt.mp printable) read
  all_goals exact stringRest_escape rfl read

/-- The characters of a string are read up to its closing quote. -/
theorem stringRest_flatMap (cs : List Char) (rest : List Char) (long : cs.length < fuel) :
    stringRest fuel (cs.flatMap stringChar ++ '"' :: rest) = some (cs, rest) := by
  induction cs generalizing fuel with
  | nil =>
      obtain ⟨fuel, rfl⟩ := Nat.exists_eq_succ_of_ne_zero (Nat.ne_of_gt long)
      rfl
  | cons c cs inductionHypothesis =>
      obtain ⟨fuel, rfl⟩ := Nat.exists_eq_succ_of_ne_zero (Nat.ne_zero_of_lt long)
      rw [List.flatMap_cons, List.append_assoc]
      exact stringRest_stringChar c (inductionHypothesis (Nat.lt_of_succ_lt_succ long))

/-- No character is written as nothing. -/
theorem stringChar_ne_nil (c : Char) : stringChar c ≠ [] := by
  unfold stringChar
  split
  case h_8 => split <;> exact List.cons_ne_nil _ _
  all_goals exact List.cons_ne_nil _ _

/-- A string is read from its text. -/
theorem string_stringText (text : String) (rest : List Char) :
    string (stringText text ++ rest) = some (text, rest) := by
  have written : stringText text ++ rest =
      '"' :: (text.toList.flatMap stringChar ++ '"' :: rest) := by
    simp [stringText]
  have long : text.toList.length <
      (text.toList.flatMap stringChar ++ '"' :: rest).length + 1 := by
    have shorter := Text.length_le_length_flatMap stringChar_ne_nil text.toList
    rw [List.length_append]
    omega
  rw [written, string]
  refine Scan.bind_eq_some (Scan.eat_cons _ _) (Scan.bind_eq_some rfl
    (Scan.bind_eq_some (stringRest_flatMap text.toList rest long) ?_))
  rw [String.ofList_toList]
  rfl

end Strings

/-- No character of a numeral is a blank. -/
theorem isBlank_eq_false {c : Char} (numeral : isNumeralChar c = true) : isBlank c = false := by
  by_contra blank
  simp only [isBlank, Bool.not_eq_false, Bool.or_eq_true, decide_eq_true_iff] at blank
  rcases blank with ((rfl | rfl) | rfl) | rfl <;> exact absurd numeral (by decide)

/-- A number is written with at least one character. -/
theorem jsonText_ne_nil {value : Number} (finite : value.isFinite = true) :
    value.jsonText ≠ [] := by
  intro empty
  have read := Number.ofJsonNumeral?_jsonText finite
  rw [empty] at read
  cases read

/-- A number is read from its text. -/
theorem number_jsonText {value : Number} (finite : value.isFinite = true) {rest : List Char}
    (ends : Ends rest) : number (value.jsonText ++ rest) = some (value, rest) := by
  refine Scan.bind_eq_some (Scan.takeWhile_append (Number.jsonText_spelled finite)
    fun c member => (ends c member).2) ?_
  rw [Number.ofJsonNumeral?_jsonText finite]
  rfl

section Values

variable {fuel level : Nat} {rest : List Char}

/-- After a value nothing is skipped where the rest ends it. -/
theorem close_eq_some (document : Json) (ends : Ends rest) :
    (do let read ← (pure document : Scan Json); skipBlanks; return read) rest =
      some (document, rest) :=
  Scan.bind_eq_some rfl
    (Scan.bind_eq_some (Scan.skipWhile_eq_some fun c member => (ends c member).1) rfl)

/-- Null is read from its text. -/
theorem value_null (ends : Ends rest) :
    value (fuel + 1) level (Json.null.chars ++ rest) = some (.null, rest) := by
  rw [value]
  refine Scan.bind_eq_some (skipBlanks_cons rfl _) (Scan.bind_eq_some rfl ?_)
  exact Scan.bind_eq_some (Scan.eatAll_append _ rest) (close_eq_some _ ends)

/-- A truth value is read from its text. -/
theorem value_bool (value : Bool) (ends : Ends rest) :
    Reader.value (fuel + 1) level ((Json.bool value).chars ++ rest) = some (.bool value, rest) := by
  rw [Reader.value]
  cases value
  all_goals
    refine Scan.bind_eq_some (skipBlanks_cons rfl _) (Scan.bind_eq_some rfl ?_)
    exact Scan.bind_eq_some (Scan.eatAll_append _ rest) (close_eq_some _ ends)

/-- A text is read as a value from its text. -/
theorem value_string (text : String) (ends : Ends rest) :
    value (fuel + 1) level ((Json.string text).chars ++ rest) = some (.string text, rest) := by
  rw [value]
  refine Scan.bind_eq_some (skipBlanks_cons rfl _) (Scan.bind_eq_some rfl ?_)
  exact Scan.bind_eq_some (string_stringText text rest) (close_eq_some _ ends)

/-- A number is read as a value from its text. -/
theorem value_number {number : Number} (finite : number.isFinite = true) (ends : Ends rest) :
    value (fuel + 1) level ((Json.number number).chars ++ rest) = some (.number number, rest) := by
  have read := number_jsonText finite ends
  obtain ⟨first, tail, written⟩ := List.exists_cons_of_ne_nil (jsonText_ne_nil finite)
  have numeral : isNumeralChar first = true :=
    Number.jsonText_spelled finite first (written ▸ List.mem_cons_self)
  rw [value, chars]
  rw [written, List.cons_append] at read ⊢
  refine Scan.bind_eq_some (skipBlanks_cons (isBlank_eq_false numeral) _)
    (Scan.bind_eq_some rfl ?_)
  dsimp only [List.head?_cons]
  generalize same : some first = peeked
  split
  case h_7 =>
    exact Scan.bind_eq_some read (close_eq_some _ ends)
  -- No character of a numeral starts another token.
  all_goals
    obtain rfl := Option.some.inj same
    exact absurd numeral (by decide)

/-- What stands between brackets is read one level further in. -/
theorem entered_eq_some {α : Type} {bracket first : Char} {text : List Char}
    {inside : Nat → Scan α} {result : α × List Char} (within : level + 1 < levelLimit)
    (notBlank : isBlank first = false) (read : inside (level + 1) (first :: text) = some result) :
    (do Scan.eat bracket; let inner ← Scan.deeper levelLimit level; skipBlanks; inside inner)
      (bracket :: first :: text) = some result :=
  Scan.bind_eq_some (Scan.eat_cons bracket _) <|
    Scan.bind_eq_some (Scan.deeper_eq_some within _) <|
      Scan.bind_eq_some (skipBlanks_cons notBlank text) read

/-- An empty list is read from its text. -/
theorem value_nil (within : level + 1 < levelLimit) (ends : Ends rest) :
    value (fuel + 1) level ((Json.array []).chars ++ rest) = some (.array [], rest) := by
  rw [value]
  refine Scan.bind_eq_some (skipBlanks_cons rfl _) (Scan.bind_eq_some rfl ?_)
  refine entered_eq_some within rfl ?_
  exact Scan.bind_eq_some (Scan.tryAll_append [']'] rest) (close_eq_some _ ends)

/-- A list is read as its items. -/
theorem value_items {items : List Json} {text : List Char} {first : Char}
    (within : level + 1 < levelLimit) (notBlank : isBlank first = false) (notClosing : first ≠ ']')
    (ends : Ends rest) (read : Reader.items fuel (level + 1) (first :: text) = some (items, rest)) :
    value (fuel + 1) level ('[' :: first :: text) = some (.array items, rest) := by
  rw [value]
  refine Scan.bind_eq_some (skipBlanks_cons rfl _) (Scan.bind_eq_some rfl ?_)
  refine entered_eq_some within notBlank ?_
  exact Scan.bind_eq_some (Scan.tryAll_cons notClosing.symm text)
    (Scan.bind_eq_some read (close_eq_some _ ends))

/-- An empty object is read from its text. -/
theorem value_noMembers (within : level + 1 < levelLimit) (ends : Ends rest) :
    value (fuel + 1) level ((Json.object []).chars ++ rest) = some (.object [], rest) := by
  rw [value]
  refine Scan.bind_eq_some (skipBlanks_cons rfl _) (Scan.bind_eq_some rfl ?_)
  refine entered_eq_some within rfl ?_
  exact Scan.bind_eq_some (Scan.tryAll_append ['\x7d'] rest) (close_eq_some _ ends)

/-- An object is read as its members, set one after another. -/
theorem value_members {members : List (String × Json)} {text : List Char}
    (within : level + 1 < levelLimit) (ends : Ends rest)
    (read : Reader.members fuel (level + 1) ('"' :: text) = some (members, rest)) :
    value (fuel + 1) level ('\x7b' :: '"' :: text) =
      some (.object (Keyed.collect members), rest) := by
  rw [value]
  refine Scan.bind_eq_some (skipBlanks_cons rfl _) (Scan.bind_eq_some rfl ?_)
  refine entered_eq_some within rfl ?_
  exact Scan.bind_eq_some (Scan.tryAll_cons (by decide) text)
    (Scan.bind_eq_some read (close_eq_some _ ends))

/-- The last item of a list is followed by the closing bracket. -/
theorem items_last {item : Json} {text : List Char}
    (read : value fuel level text = some (item, ']' :: rest)) :
    items (fuel + 1) level text = some ([item], rest) := by
  rw [items]
  exact Scan.bind_eq_some read (Scan.bind_eq_some (Scan.tryAll_cons (by decide) rest)
    (Scan.bind_eq_some (Scan.eat_cons _ _) rfl))

/-- Other items of a list are followed by a comma and further items. -/
theorem items_more {item : Json} {others : List Json} {text middle : List Char}
    (read : value fuel level text = some (item, ',' :: middle))
    (more : items fuel level middle = some (others, rest)) :
    items (fuel + 1) level text = some (item :: others, rest) := by
  rw [items]
  exact Scan.bind_eq_some read (Scan.bind_eq_some (Scan.tryAll_append [','] middle)
    (Scan.bind_eq_some more rfl))

/-- The last member of an object is followed by the closing brace. -/
theorem members_last {key : String} {item : Json} {text : List Char}
    (read : value fuel level text = some (item, '\x7d' :: rest)) :
    members (fuel + 1) level (stringText key ++ ':' :: text) = some ([(key, item)], rest) := by
  rw [members]
  refine Scan.bind_eq_some (skipBlanks_cons rfl _) ?_
  refine Scan.bind_eq_some (string_stringText key _) ?_
  refine Scan.bind_eq_some (skipBlanks_cons rfl _) (Scan.bind_eq_some (Scan.eat_cons _ _) ?_)
  exact Scan.bind_eq_some read (Scan.bind_eq_some (Scan.tryAll_cons (by decide) rest)
    (Scan.bind_eq_some (Scan.eat_cons _ _) rfl))

/-- Other members of an object are followed by a comma and further members. -/
theorem members_more {key : String} {item : Json} {others : List (String × Json)}
    {text middle : List Char} (read : value fuel level text = some (item, ',' :: middle))
    (more : members fuel level middle = some (others, rest)) :
    members (fuel + 1) level (stringText key ++ ':' :: text) =
      some ((key, item) :: others, rest) := by
  rw [members]
  refine Scan.bind_eq_some (skipBlanks_cons rfl _) ?_
  refine Scan.bind_eq_some (string_stringText key _) ?_
  refine Scan.bind_eq_some (skipBlanks_cons rfl _) (Scan.bind_eq_some (Scan.eat_cons _ _) ?_)
  exact Scan.bind_eq_some read (Scan.bind_eq_some (Scan.tryAll_append [','] middle)
    (Scan.bind_eq_some more rfl))

/-- A document is written from a character that neither is a blank nor closes a list. -/
theorem exists_chars_eq_cons {document : Json} (finite : Number.AllFinite document.numbers) :
    ∃ first tail, document.chars = first :: tail ∧ isBlank first = false ∧ first ≠ ']' := by
  cases document with
  | null => exact ⟨'n', _, rfl, rfl, by decide⟩
  | bool value => cases value <;> exact ⟨_, _, rfl, rfl, by decide⟩
  | string text => exact ⟨'"', _, rfl, rfl, by decide⟩
  | array items => exact ⟨'[', _, rfl, rfl, by decide⟩
  | object members => exact ⟨'\x7b', _, rfl, rfl, by decide⟩
  | number value =>
      have finite := finite value (List.mem_singleton_self value)
      obtain ⟨first, tail, written⟩ := List.exists_cons_of_ne_nil (jsonText_ne_nil finite)
      have numeral := Number.jsonText_spelled finite first (written ▸ List.mem_cons_self)
      refine ⟨first, tail, written, isBlank_eq_false numeral, ?_⟩
      rintro rfl
      exact absurd numeral (by decide)

/-- Pieces with commas between them start with the first piece. -/
theorem exists_commaSeparated_eq (piece : List Char) (rest : List (List Char)) :
    ∃ tail, commaSeparated (piece :: rest) = piece ++ tail := by
  cases rest with
  | nil => exact ⟨[], (List.append_nil piece).symm⟩
  | cons second more => exact ⟨_, rfl⟩

-- A list and each of its items take a unit of fuel. The bracket before the items and the comma
-- after an item are there twice in the bound to pay for them.
mutual

/-- A value is read from its text with as much fuel as the text allows. -/
theorem value_chars : ∀ (document : Json) {fuel level : Nat} {rest : List Char},
    document.IsReadable level → 2 * document.chars.length < fuel → Ends rest →
      value fuel level (document.chars ++ rest) = some (document, rest)
  | .null, fuel + 1, _, _, _, _, ends => value_null ends
  | .bool value, fuel + 1, _, _, _, _, ends => value_bool value ends
  | .string text, fuel + 1, _, _, _, _, ends => value_string text ends
  | .number value, fuel + 1, _, _, readable, _, ends =>
      value_number (readable.finite value (List.mem_singleton_self value)) ends
  | .array [], fuel + 1, _, _, readable, _, ends => value_nil readable.depth ends
  | .array (item :: others), fuel + 1, level, rest, readable, enough, ends => by
      simp only [chars, List.length_append, List.length_cons, List.length_nil] at enough
      have room : 2 * (commaSeparated (itemTexts (item :: others))).length + 1 < fuel := by omega
      have each : ∀ part ∈ item :: others, part.IsReadable (level + 1) :=
        fun part member => readable.of_mem_parts member
      have read := items_itemTexts (item :: others) nofun each room rest
      have firstReadable := each item List.mem_cons_self
      obtain ⟨first, tail, written, notBlank, notClosing⟩ :=
        exists_chars_eq_cons firstReadable.finite
      obtain ⟨after, separated⟩ := exists_commaSeparated_eq item.chars (itemTexts others)
      rw [itemTexts, separated, written, List.cons_append, List.cons_append] at read
      have within : level + 1 < levelLimit := Nat.lt_of_le_of_lt (Nat.le_add_right _ _)
        firstReadable.depth
      have opened := value_items within notBlank notClosing ends read
      rw [chars, itemTexts, separated, written]
      simpa using opened
  | .object [], fuel + 1, _, _, readable, _, ends => value_noMembers readable.depth ends
  | .object ((key, item) :: others), fuel + 1, level, rest, readable, enough, ends => by
      simp only [chars, List.length_append, List.length_cons, List.length_nil] at enough
      have room : 2 * (commaSeparated (memberTexts ((key, item) :: others))).length + 1 < fuel := by
        omega
      have each : ∀ member ∈ (key, item) :: others, member.2.IsReadable (level + 1) :=
        fun member inside => readable.of_mem_parts (List.mem_map_of_mem inside)
      have read := members_memberTexts ((key, item) :: others) nofun each room rest
      obtain ⟨after, separated⟩ :=
        exists_commaSeparated_eq (stringText key ++ ':' :: item.chars) (memberTexts others)
      rw [memberTexts, separated, stringText] at read
      have within : level + 1 < levelLimit := Nat.lt_of_le_of_lt (Nat.le_add_right _ _)
        (each (key, item) List.mem_cons_self).depth
      have opened := value_members within ends read
      have distinct := (hasDistinctKeys_iff.mp readable.distinctKeys).1
      rw [Keyed.collect_of_keysDiffer (Keyed.keysDiffer_iff_nodup.mpr distinct)] at opened
      rw [chars, memberTexts, separated, stringText]
      simpa using opened

/-- Items are read from their texts. -/
theorem items_itemTexts : ∀ (items : List Json) {fuel level : Nat}, items ≠ [] →
    (∀ item ∈ items, item.IsReadable level) →
      2 * (commaSeparated (itemTexts items)).length + 1 < fuel → ∀ rest : List Char,
        Reader.items fuel level (commaSeparated (itemTexts items) ++ ']' :: rest) =
          some (items, rest)
  | [], _, _, filled, _, _, _ => absurd rfl filled
  | [item], fuel + 1, level, _, each, enough, rest => by
      have alone : commaSeparated (itemTexts [item]) = item.chars := rfl
      rw [alone] at enough ⊢
      have readable := List.forall_mem_singleton.mp each
      exact items_last (value_chars item readable (by omega) (ends_cons rfl rfl rest))
  | item :: second :: more, fuel + 1, level, _, each, enough, rest => by
      have separated : commaSeparated (itemTexts (item :: second :: more)) =
          item.chars ++ ',' :: commaSeparated (itemTexts (second :: more)) := rfl
      rw [separated, List.length_append, List.length_cons] at enough
      rw [separated, List.append_assoc, List.cons_append]
      obtain ⟨readable, others⟩ := List.forall_mem_cons.mp each
      exact items_more (value_chars item readable (by omega) (ends_cons rfl rfl _))
        (items_itemTexts (second :: more) nofun others (by omega) rest)

/-- Members are read from their texts. -/
theorem members_memberTexts : ∀ (members : List (String × Json)) {fuel level : Nat},
    members ≠ [] → (∀ member ∈ members, member.2.IsReadable level) →
      2 * (commaSeparated (memberTexts members)).length + 1 < fuel → ∀ rest : List Char,
        Reader.members fuel level (commaSeparated (memberTexts members) ++ '\x7d' :: rest) =
          some (members, rest)
  | [], _, _, filled, _, _, _ => absurd rfl filled
  | [(key, item)], fuel + 1, level, _, each, enough, rest => by
      have alone : commaSeparated (memberTexts [(key, item)]) =
          stringText key ++ ':' :: item.chars := rfl
      rw [alone, List.length_append, List.length_cons] at enough
      rw [alone, List.append_assoc, List.cons_append]
      have readable := List.forall_mem_singleton.mp each
      exact members_last (value_chars item readable (by omega) (ends_cons rfl rfl rest))
  | (key, item) :: second :: more, fuel + 1, level, _, each, enough, rest => by
      have separated : commaSeparated (memberTexts ((key, item) :: second :: more)) =
          stringText key ++ ':' :: item.chars ++
            ',' :: commaSeparated (memberTexts (second :: more)) := rfl
      rw [separated] at enough ⊢
      simp only [List.length_append, List.length_cons] at enough
      rw [List.append_assoc, List.append_assoc, List.cons_append, List.cons_append]
      obtain ⟨readable, others⟩ := List.forall_mem_cons.mp each
      exact members_more (value_chars item readable (by omega) (ends_cons rfl rfl _))
        (members_memberTexts (second :: more) nofun others (by omega) rest)

end

end Values

end Reader

/-- A document is read from its compact text exactly when it is readable. -/
theorem read?_compact_iff {document : Json} :
    read? document.compact = some document ↔ document.IsReadable 0 := by
  refine ⟨isReadable_of_read?, fun readable => ?_⟩
  have ends : Reader.Ends [] := nofun
  have read := Reader.value_chars document readable (Nat.lt_add_of_pos_right Nat.two_pos) ends
  rw [List.append_nil] at read
  rw [read?, compact, String.toList_ofList, String.length_ofList, Text.Scan.whole?, read]

end Json

end FieldGuide
