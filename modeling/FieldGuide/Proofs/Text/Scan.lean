import FieldGuide.Text.Scan

/-!
# What scanners yield and take

A property of the values that a scanner takes follows from the properties of its parts,
whatever the text is. On a text that starts with what its parts take, a scanner takes the parts
one after another.
-/

namespace FieldGuide.Text.Scan

variable {α β : Type} {holds : α → Prop}

/-- Whether every value that a scanner takes has a property. -/
def Yields (scan : Scan α) (holds : α → Prop) : Prop :=
  ∀ text value rest, scan text = some (value, rest) → holds value

/-- A returned value is the one that is taken. -/
theorem yields_pure {value : α} (held : holds value) : (pure value : Scan α).Yields holds := by
  intro text other rest taken
  cases taken
  exact held

/-- A scanner that fails takes nothing. -/
theorem yields_failure : (failure : Scan α).Yields holds := by
  intro text value rest taken
  cases taken

/-- Any scanner takes something. -/
theorem yields_any (scan : Scan α) : scan.Yields fun _ => True := fun _ _ _ _ => trivial

/-- A value that need not exist has what every such value has. -/
theorem yields_lift {value? : Option α} (held : ∀ value, value? = some value → holds value) :
    (liftM value? : Scan α).Yields holds := by
  intro text value rest taken
  cases value? with
  | none => cases taken
  | some found =>
      cases taken
      exact held _ rfl

/-- A scanner in two steps takes what the second step takes after the first. -/
theorem Yields.bind {first : Scan α} {next : α → Scan β} {kept : β → Prop}
    (start : first.Yields holds) (step : ∀ value, holds value → (next value).Yields kept) :
    (first >>= next).Yields kept := by
  intro text value rest taken
  obtain ⟨⟨middle, left⟩, one, two⟩ := Option.bind_eq_some_iff.mp taken
  exact step middle (start text middle left one) left value rest two

/-- A second step that does not need to know the first decides alone. -/
theorem yields_bind {first : Scan α} {next : α → Scan β} {kept : β → Prop}
    (step : ∀ value, (next value).Yields kept) : (first >>= next).Yields kept :=
  (yields_any first).bind fun value _ => step value

/-- A level that is entered is the next one, within the limit. -/
theorem yields_deeper (limit level : Nat) :
    (deeper limit level).Yields fun inner => inner = level + 1 ∧ level + 1 < limit := by
  intro text inner rest taken
  obtain ⟨⟨⟨⟩, middle⟩, checked, returned⟩ := Option.bind_eq_some_iff.mp taken
  cases returned
  refine ⟨rfl, Decidable.byContradiction fun beyond => ?_⟩
  have refused : (guard (level + 1 < limit) : Scan Unit) text = none :=
    congrFun (if_neg beyond) text
  cases refused.symm.trans checked

/-- The value taken from the whole of a text has what every taken value has. -/
theorem Yields.of_whole? {scan : Scan α} (all : scan.Yields holds) {text : List Char} {value : α}
    (taken : scan.whole? text = some value) : holds value := by
  rw [whole?] at taken
  split at taken
  · next found =>
      obtain rfl := Option.some.inj taken
      exact all _ _ _ found
  · cases taken

section Runs

variable {text middle rest : List Char}

/-- A scanner in two steps takes what the first step takes and then what the second does. -/
theorem bind_eq_some {first : Scan α} {next : α → Scan β} {value : α} {result : β}
    (taken : first text = some (value, middle))
    (onward : next value middle = some (result, rest)) :
    (first >>= next) text = some (result, rest) :=
  Option.bind_eq_some_iff.mpr ⟨(value, middle), taken, onward⟩

/-- The character that comes next is taken. -/
theorem eat_cons (c : Char) (rest : List Char) : eat c (c :: rest) = some ((), rest) :=
  if_pos rfl

/-- The characters that come next are taken. -/
theorem eatAll_append (word rest : List Char) : eatAll word (word ++ rest) = some ((), rest) := by
  simp [eatAll]

/-- The characters that come next are taken by trying. -/
theorem tryAll_append (word rest : List Char) :
    tryAll word (word ++ rest) = some (true, rest) := by
  simp [tryAll]

/-- Another character than the one that comes next is not taken by trying. -/
theorem tryAll_cons {c first : Char} (differ : c ≠ first) (rest : List Char) :
    tryAll [c] (first :: rest) = some (false, first :: rest) := by
  simp [tryAll, differ]

/-- As many characters as asked for are taken. -/
theorem takeN_append (taken rest : List Char) :
    takeN taken.length (taken ++ rest) = some (taken, rest) := by
  induction taken with
  | nil => rfl
  | cons first others inductionHypothesis =>
      exact bind_eq_some rfl (bind_eq_some inductionHypothesis rfl)

/-- A run of characters that pass a test is taken up to one that does not. -/
theorem takeWhile_append {test : Char → Bool} {taken : List Char}
    (passed : ∀ c ∈ taken, test c = true) (stopped : ∀ c ∈ rest.head?, test c = false) :
    takeWhile test (taken ++ rest) = some (taken, rest) := by
  have unread : rest.takeWhile test = [] ∧ rest.dropWhile test = rest := by
    cases rest with
    | nil => exact ⟨rfl, rfl⟩
    | cons first others => simp [stopped first rfl]
  rw [takeWhile, List.takeWhile_append_of_pos passed, List.dropWhile_append_of_pos passed,
    unread.1, unread.2, List.append_nil]

/-- No character is skipped where the first does not pass the test. -/
theorem skipWhile_eq_some {test : Char → Bool} (stopped : ∀ c ∈ text.head?, test c = false) :
    skipWhile test text = some ((), text) := by
  cases text with
  | nil => rfl
  | cons first others => simp [skipWhile, stopped first rfl]

/-- A condition that holds takes nothing. -/
theorem guard_eq_some {condition : Prop} [Decidable condition] (held : condition)
    (text : List Char) : (guard condition : Scan Unit) text = some ((), text) :=
  congrFun (if_pos held) text

/-- A level within the limit is entered. -/
theorem deeper_eq_some {limit level : Nat} (within : level + 1 < limit) (text : List Char) :
    deeper limit level text = some (level + 1, text) :=
  bind_eq_some (guard_eq_some within text) rfl

end Runs

end FieldGuide.Text.Scan
