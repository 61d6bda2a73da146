import FieldGuide.Proofs.Inspect.Bodies
import Mathlib.Data.List.TakeDrop

/-!
# Keys read from lines

The reader of outermost keys looks at one line at a time and knows a key by what stands before the
first colon. This module says which lines show a key. A line that would start with one of the
separators of a YAML text, which end no line, is a stray one when it has a colon: it is neither
indented nor an item, so that it shows a key where none stands.
-/

namespace FieldGuide.Inspect

/-- The key that a line shows, if it shows one. -/
def shownKey? (line : List Char) : Option (List Char) :=
  if startsWithAny [' ', '-', '#'] line then none else beforeColon? line

/-- The keys that the lines of a text show. -/
def shownKeys (text : List Char) : List (List Char) := (Text.lines text).filterMap shownKey?

/-- The outermost keys of a text are those that its lines show. -/
theorem outermostKeys_eq (yaml : String) :
    outermostKeys yaml = (shownKeys yaml.toList).map .ofList := by
  rw [outermostKeys, shownKeys, List.filterMap_filter, List.map_filterMap]
  refine List.filterMap_congr fun line _ => ?_
  rw [shownKey?]
  cases startsWithAny [' ', '-', '#'] line <;> rfl

/-- What stands before the first colon has no colon, and a colon stands behind it. -/
theorem beforeColon?_eq_some_iff {line key : List Char} :
    beforeColon? line = some key ↔ ':' ∉ key ∧ ∃ rest, line = key ++ ':' :: rest := by
  induction line generalizing key with
  | nil => simp [beforeColon?]
  | cons c line inductionHypothesis =>
      by_cases colon : c = ':'
      · subst colon
        cases key with
        | nil => simp [beforeColon?]
        | cons d key => simpa [beforeColon?] using fun noColon _ same => absurd same noColon
      · have later : beforeColon? (c :: line) = (beforeColon? line).map (c :: ·) := by
          simp only [beforeColon?, List.contains_cons, List.takeWhile_cons]
          have differs : (':' == c) = false := beq_false_of_ne (Ne.symm colon)
          have kept : (c != ':') = true := bne_iff_ne.mpr colon
          cases inside : line.contains ':' <;> simp [differs, kept]
        rw [later, Option.map_eq_some_iff]
        constructor
        · rintro ⟨found, shown, rfl⟩
          obtain ⟨noColon, rest, rfl⟩ := inductionHypothesis.mp shown
          exact ⟨by simp [noColon, Ne.symm colon], rest, rfl⟩
        · rintro ⟨noColon, rest, same⟩
          cases key with
          | nil => exact absurd (List.cons.inj same).1 colon
          | cons d key =>
              obtain ⟨rfl, others⟩ := List.cons.inj same
              rw [List.mem_cons, not_or] at noColon
              exact ⟨key, inductionHypothesis.mpr ⟨noColon.2, rest, others⟩, rfl⟩

/-- A line shows a key exactly when the key and a colon start the line, and the key has no colon and
does not start like the lines that are passed over. -/
theorem shownKey?_eq_some_iff {line key : List Char} :
    shownKey? line = some key ↔
      startsWithAny [' ', '-', '#'] key = false ∧ ':' ∉ key ∧
        ∃ rest, line = key ++ ':' :: rest := by
  have sameStart {rest : List Char} (same : line = key ++ ':' :: rest) :
      startsWithAny [' ', '-', '#'] line = startsWithAny [' ', '-', '#'] key := by
    subst same
    cases key <;> simp [startsWithAny]
  rw [shownKey?]
  constructor
  · intro shown
    split at shown
    · cases shown
    · next visible =>
        obtain ⟨noColon, rest, same⟩ := beforeColon?_eq_some_iff.mp shown
        rw [sameStart same, Bool.not_eq_true] at visible
        exact ⟨visible, noColon, rest, same⟩
  · rintro ⟨visible, noColon, rest, same⟩
    rw [if_neg (by simp [sameStart same, visible])]
    exact beforeColon?_eq_some_iff.mpr ⟨noColon, rest, same⟩

/-- A line without a colon shows no key. -/
theorem shownKey?_of_noColon {line : List Char} (noColon : ':' ∉ line) :
    shownKey? line = none := by
  rw [Option.eq_none_iff_forall_not_mem]
  intro key shown
  obtain ⟨-, -, rest, rfl⟩ := shownKey?_eq_some_iff.mp shown
  exact noColon (by simp)

/-- Whether a line is a stray one: a separator starts it, and it has a colon. -/
def isStray (line : List Char) : Bool := line.head?.any Yaml.isSeparator && line.contains ':'

/-- A stray line shows a key that starts with a separator. -/
theorem exists_key_of_isStray {line : List Char} (stray : isStray line = true) :
    ∃ key, shownKey? line = some key ∧ key.head?.any Yaml.isSeparator = true := by
  simp only [isStray, Bool.and_eq_true, List.contains_iff_mem] at stray
  obtain ⟨separated, colon⟩ := stray
  cases line with
  | nil => cases separated
  | cons c line =>
      have separator : Yaml.isSeparator c = true := separated
      have notColon : ':' ≠ c := by
        rintro rfl
        cases separator
      have visible : startsWithAny [' ', '-', '#'] [c] = false := by
        simp only [Yaml.isSeparator, Bool.or_eq_true, decide_eq_true_eq] at separator
        rcases separator with rfl | rfl <;> decide
      obtain ⟨before, after, split, noColon⟩ :=
        List.eq_append_cons_of_mem ((List.mem_cons.mp colon).resolve_left notColon)
      refine ⟨c :: before, shownKey?_eq_some_iff.mpr ⟨visible, ?_, after, ?_⟩, separator⟩
      · simp [notColon, noColon]
      · rw [split, List.cons_append]

/-- Lines in front of a text show their keys before those of the text. -/
theorem shownKeys_unlines_append {lines : List (List Char)} (single : ∀ line ∈ lines, IsLine line)
    (rest : List Char) :
    shownKeys (unlines lines ++ rest) = lines.filterMap shownKey? ++ shownKeys rest := by
  rw [shownKeys, lines_unlines_append fun line member => (single line member).ended,
    List.filterMap_append, shownKeys]

/-- A key that a text shows has no colon and stands in one line. -/
theorem mem_shownKeys {text key : List Char} (shown : key ∈ shownKeys text) :
    startsWithAny [' ', '-', '#'] key = false ∧ ':' ∉ key ∧
      ∃ line ∈ Text.lines text, ∃ rest, line = key ++ ':' :: rest := by
  obtain ⟨line, member, shows⟩ := List.mem_filterMap.mp shown
  obtain ⟨visible, noColon, start⟩ := shownKey?_eq_some_iff.mp shows
  exact ⟨visible, noColon, line, member, start⟩

end FieldGuide.Inspect
