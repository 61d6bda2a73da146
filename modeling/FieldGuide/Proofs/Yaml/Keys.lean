import FieldGuide.Proofs.Inspect.Keys
import FieldGuide.Proofs.Yaml.Entries

/-!
# Reading the keys of a mapping back

The reader of outermost keys takes for a key what stands before the first colon of a line at the
margin. So a key is read back when it stands there as it is: without quotes, on one row, without a
colon of its own and without a dash at its start, which makes its line look like an item. What
stands beneath the keys is passed over, whatever its shape and depth, unless a separator of a
literal block gets in the way: it ends a row and no line, so that the next key can stand in the
middle of a line, and a line that it starts is neither indented nor an item.

The main statement is that the keys are read back exactly when each of them is legible and no
separator does so. The reader's way through the entries is followed one entry at a time, with the
line that the entry before has left open.
-/

namespace FieldGuide

open Inspect (IsLine unlines shownKey? shownKeys isStray startsWithAny)

namespace Yaml

/-- Whether a key stands in the first line of its entry as it is and is not taken for less: it is
plain and on one row, has no colon, and does not start like an item. -/
def isLegible (key : String) : Bool :=
  isSimpleKey key && Style.ofText key.toList = .plain && !key.toList.contains ':' &&
    key.toList.head? != some '-'

/-- Whether a line could show a key: the key does not start like lines that are passed over, has no
colon, and is in one line. -/
structure IsShowable (key : List Char) : Prop where
  visible : startsWithAny [' ', '-', '#'] key = false
  noColon : ':' ∉ key
  noFeed : '\n' ∉ key

/-- What stands before the colon that ends a key, in the line of the colon: the text of a key that
stands on one row, and nothing for another one, which has its colon in the row of the value. -/
def keyMark (key : String) : List Char := if isSimpleKey key then keyText key else []

section Keys

variable {key : String}

/-- Legible keys are those that a line could show and that are plain and on one row. -/
theorem isLegible_iff :
    isLegible key = true ↔
      IsShowable key.toList ∧ isSimpleKey key = true ∧ Style.ofText key.toList = .plain := by
  simp only [isLegible, Bool.and_eq_true, decide_eq_true_eq, Bool.not_eq_true', bne_iff_ne]
  constructor
  · rintro ⟨⟨⟨simple, plain⟩, noColon⟩, noDash⟩
    have allowed := allowsPlain_of_style plain
    have row := Row.isWhole_of_unbroken (unbroken_of_allowsPlain allowed)
    refine ⟨⟨?_, by simpa using noColon, row.noFeed⟩, simple, plain⟩
    simp only [allowsPlain, Bool.and_eq_true, Bool.not_eq_true'] at allowed
    have noSpace := allowed.1.1.1.1.2
    have noConstruct := allowed.1.1.2
    cases chars : key.toList with
    | nil => rfl
    | cons c rest =>
        rw [chars] at noSpace noConstruct noDash
        have space : c ≠ ' ' := by
          rintro rfl
          cases noSpace
        have comment : c ≠ '#' := by
          rintro rfl
          cases noConstruct
        have dash : c ≠ '-' := fun same => noDash (congrArg some same)
        simp [startsWithAny, space, comment, dash]
  · rintro ⟨showable, simple, plain⟩
    refine ⟨⟨⟨simple, plain⟩, by simpa using showable.noColon⟩, fun dash => ?_⟩
    obtain ⟨rest, chars⟩ := List.head?_eq_some_iff.mp dash
    have visible := showable.visible
    rw [chars] at visible
    cases visible

/-- The mark of a key is the key exactly when the key is plain and on one row. -/
theorem keyMark_eq_iff :
    keyMark key = key.toList ↔
      isSimpleKey key = true ∧ Style.ofText key.toList = .plain := by
  rw [keyMark]
  by_cases simple : isSimpleKey key = true
  · rw [if_pos simple, keyText_eq_iff simple]
    simp [simple]
  · rw [if_neg simple]
    refine iff_of_false (fun empty => simple ?_) fun both => simple both.1
    rw [String.toList_eq_nil_iff.mp empty.symm]
    decide

/-- A line shows the text of a simple key that it could show. -/
theorem shownKey?_keyText (showable : IsShowable key.toList) (simple : isSimpleKey key = true)
    (after : List Char) : shownKey? (keyText key ++ ':' :: after) = some (keyText key) := by
  have notLiteral := style_ne_literal_of_simple simple
  refine Inspect.shownKey?_eq_some_iff.mpr ⟨?_, ?_, after, rfl⟩
  · rw [keyText_of_simple simple]
    cases style : Style.ofText key.toList with
    | plain => exact showable.visible
    | single => rfl
    | double => rfl
    | literal => exact absurd style notLiteral
  · intro colon
    obtain ⟨row, member, inRow⟩ := List.mem_flatMap.mp colon
    exact noColon_of_mem_scalarRows showable.noColon notLiteral row member inRow

end Keys

/-! ## Entries one after another -/

/-- A line beneath a key shows no key when it is no stray one. -/
theorem shownKey?_of_beneath {line : List Char} (beneath : Beneath line)
    (calm : isStray line = false) : shownKey? line = none := by
  cases line with
  | nil => rfl
  | cons c line =>
      have start := beneath c rfl
      simp only [startsBeneath, Bool.or_eq_true, decide_eq_true_eq] at start
      rcases start with (rfl | rfl) | separator
      · rfl
      · rfl
      · refine Inspect.shownKey?_of_noColon fun colon => ?_
        simp [isStray, separator, colon] at calm

/-- The text of some entries, one after another. -/
def entriesText (entries : List (String × Tree)) : List Char :=
  entries.flatMap fun entry => (entryRows entry.1 entry.2 entry.2.rows).flatMap Row.chars

/-- A text without stray lines. -/
abbrev IsCalm (text : List Char) : Prop := ∀ line ∈ Text.lines text, isStray line = false

/-- An open line that is not empty stays beneath its key with whatever goes on in it. -/
theorem Beneath.append_of_filled {start : List Char} (beneath : Beneath start)
    (filled : start ≠ []) (rest : List Char) : Beneath (start ++ rest) := by
  obtain ⟨c, others, rfl⟩ := List.exists_cons_of_ne_nil filled
  exact beneath

/-- Lines beneath a key show no key when none is a stray one. -/
theorem filterMap_shownKey?_of_lower {lines : List (List Char)}
    (lower : ∀ line ∈ lines, IsLower line) (calm : ∀ line ∈ lines, isStray line = false) :
    lines.filterMap shownKey? = [] :=
  List.filterMap_eq_nil_iff.mpr fun line member =>
    shownKey?_of_beneath (lower line member).beneath (calm line member)

/-- A text behind an open line goes on in it with the first of its lines, and with no other. -/
theorem shownKeys_openLine {start text first left rest : List Char} {others : List (List Char)}
    (written : text = unlines (first :: others) ++ left) (startLine : IsLine start)
    (single : ∀ line ∈ first :: others, IsLine line) (calm : IsCalm (start ++ (text ++ rest))) :
    IsCalm (left ++ rest) ∧ (∀ line ∈ (start ++ first) :: others, isStray line = false) ∧
      shownKeys (start ++ (text ++ rest)) =
        ((start ++ first) :: others).filterMap shownKey? ++ shownKeys (left ++ rest) := by
  obtain ⟨firstLine, otherLines⟩ := List.forall_mem_cons.mp single
  have joined : ∀ line ∈ (start ++ first) :: others, IsLine line :=
    List.forall_mem_cons.mpr ⟨⟨by simp [startLine.noFeed, firstLine.noFeed],
      by simp [startLine.noReturn, firstLine.noReturn]⟩, otherLines⟩
  have whole : start ++ (text ++ rest) =
      unlines ((start ++ first) :: others) ++ (left ++ rest) := by
    simp [written, Inspect.unlines_cons]
  have split := Inspect.lines_unlines_append
    (fun line member => (joined line member).ended) (left ++ rest)
  rw [IsCalm, whole, split] at calm
  obtain ⟨headCalm, restCalm⟩ := List.forall_mem_append.mp calm
  exact ⟨restCalm, headCalm, by rw [whole, Inspect.shownKeys_unlines_append joined]⟩

/-- An entry leaves no open line exactly when its value does not end open. -/
theorem eq_nil_iff_of_entryRows {key : String} {value : Tree} {first left : List Char}
    {others : List (List Char)}
    (written : (entryRows key value value.rows).flatMap Row.chars =
      unlines (first :: others) ++ left) (leftLine : IsLine left) :
    left = [] ↔ value.lastText?.any endsOpen = false := by
  have filled : (entryRows key value value.rows).flatMap Row.chars ≠ [] := by
    simp [written, Inspect.unlines_cons]
  rw [eq_nil_iff_of_unlines_append written leftLine, or_iff_right filled,
    getLast?_chars_entryRows]

/-- An entry behind an open line shows the mark of its key, unless the key is a simple one, which
then stands in the open line. It leaves an open line exactly when its value ends open. -/
theorem shownKeys_entry {key : String} (showable : IsShowable key.toList) (value : Tree)
    {start rest : List Char} (lower : IsLower start)
    (calm : IsCalm (start ++ ((entryRows key value value.rows).flatMap Row.chars ++ rest))) :
    ∃ left, IsLower left ∧ (left = [] ↔ value.lastText?.any endsOpen = false) ∧
      IsCalm (left ++ rest) ∧
      shownKeys (start ++ ((entryRows key value value.rows).flatMap Row.chars ++ rest)) =
        (if start ≠ [] ∧ isSimpleKey key = true then [] else [keyMark key]) ++
          shownKeys (left ++ rest) := by
  cases simple : isSimpleKey key with
  | true =>
      obtain ⟨after, lines, left, written, firstLine, known⟩ := exists_lines_of_simple simple value
      obtain ⟨leftLower, linesLower⟩ := List.forall_mem_cons.mp known
      have single : ∀ line ∈ (keyText key ++ ':' :: after) :: lines, IsLine line :=
        List.forall_mem_cons.mpr ⟨firstLine, fun line member => (linesLower line member).isLine⟩
      obtain ⟨restCalm, headCalm, shown⟩ := shownKeys_openLine written lower.isLine single calm
      obtain ⟨firstCalm, linesCalm⟩ := List.forall_mem_cons.mp headCalm
      refine ⟨left, leftLower, eq_nil_iff_of_entryRows written leftLower.isLine, restCalm, ?_⟩
      rw [shown, List.filterMap_cons, filterMap_shownKey?_of_lower linesLower linesCalm]
      by_cases fresh : start = []
      · rw [fresh, List.nil_append, shownKey?_keyText showable simple]
        simp [keyMark, simple]
      · rw [shownKey?_of_beneath (lower.beneath.append_of_filled fresh _) firstCalm]
        simp [fresh]
  | false =>
      obtain ⟨first, after, lines, left, written, firstLine, firstColonless, secondLine, known⟩ :=
        exists_lines_of_not_simple simple showable.noFeed showable.noColon value
      obtain ⟨leftLower, linesLower⟩ := List.forall_mem_cons.mp known
      have single : ∀ line ∈ first :: (':' :: after) :: lines, IsLine line :=
        List.forall_mem_cons.mpr ⟨firstLine, List.forall_mem_cons.mpr
          ⟨secondLine, fun line member => (linesLower line member).isLine⟩⟩
      obtain ⟨restCalm, headCalm, shown⟩ := shownKeys_openLine written lower.isLine single calm
      obtain ⟨firstCalm, othersCalm⟩ := List.forall_mem_cons.mp headCalm
      obtain ⟨-, linesCalm⟩ := List.forall_mem_cons.mp othersCalm
      have firstShown : shownKey? (start ++ first) = none := by
        by_cases fresh : start = []
        · rw [fresh, List.nil_append, Inspect.shownKey?_of_noColon firstColonless]
        · exact shownKey?_of_beneath (lower.beneath.append_of_filled fresh _) firstCalm
      have secondShown : shownKey? (':' :: after) = some [] :=
        Inspect.shownKey?_eq_some_iff.mpr ⟨rfl, List.not_mem_nil, after, rfl⟩
      refine ⟨left, leftLower, eq_nil_iff_of_entryRows written leftLower.isLine, restCalm, ?_⟩
      rw [shown, List.filterMap_cons, firstShown, List.filterMap_cons, secondShown,
        filterMap_shownKey?_of_lower linesLower linesCalm]
      simp [keyMark, simple]

/-- The marks that entries show: all but those of simple keys behind an entry that ends open. The
flag tells whether the first entry stands behind an open line. -/
def shownMarks : (opened : Bool) → List (String × Tree) → List (List Char)
  | _, [] => []
  | opened, (key, value) :: rest =>
      (if opened && isSimpleKey key then [] else [keyMark key]) ++
        shownMarks (value.lastText?.any endsOpen) rest

/-- Entries behind an open line show their marks one after another. -/
theorem shownKeys_entriesText {entries : List (String × Tree)}
    (showable : ∀ entry ∈ entries, IsShowable entry.1.toList) {start : List Char}
    (lower : IsLower start) (calm : IsCalm (start ++ entriesText entries)) :
    shownKeys (start ++ entriesText entries) = shownMarks (!start.isEmpty) entries := by
  induction entries generalizing start with
  | nil =>
      rw [entriesText, List.flatMap_nil, List.append_nil] at calm ⊢
      rw [shownMarks, shownKeys]
      by_cases empty : start = []
      · rw [empty]
        rfl
      · have line := Text.lines_of_no_feed empty lower.isLine.noFeed
        rw [IsCalm, line, List.forall_mem_singleton] at calm
        rw [line, List.filterMap_cons, shownKey?_of_beneath lower.beneath calm]
        rfl
  | cons entry rest inductionHypothesis =>
      obtain ⟨key, value⟩ := entry
      obtain ⟨first, others⟩ := List.forall_mem_cons.mp showable
      rw [entriesText, List.flatMap_cons] at calm ⊢
      obtain ⟨left, leftLower, ends, restCalm, shown⟩ := shownKeys_entry first value lower calm
      have opens : (!left.isEmpty) = value.lastText?.any endsOpen := by
        cases closed : value.lastText?.any endsOpen with
        | false => simp [ends.mpr closed]
        | true =>
            have filled : left ≠ [] := fun empty => by simp [ends.mp empty] at closed
            simp [filled]
      have later := inductionHypothesis others leftLower restCalm
      rw [opens] at later
      rw [shownMarks, ← later]
      refine shown.trans (congrArg (· ++ shownKeys (left ++ entriesText rest)) ?_)
      by_cases empty : start = [] <;> cases isSimpleKey key <;> simp [empty]

/-- Entries show at most as many marks as there are entries. -/
theorem length_shownMarks_le (opened : Bool) (entries : List (String × Tree)) :
    (shownMarks opened entries).length ≤ entries.length := by
  induction entries generalizing opened with
  | nil => rfl
  | cons entry rest inductionHypothesis =>
      have later := inductionHypothesis (entry.2.lastText?.any endsOpen)
      rw [shownMarks]
      split <;> simp <;> omega

/-- The marks are the keys exactly when each key is its own mark and no entry stands behind an open
line. -/
theorem shownMarks_eq_keys_iff {opened : Bool} {entries : List (String × Tree)} :
    shownMarks opened entries = entries.map (·.1.toList) ↔
      (opened = true → entries = []) ∧ (∀ entry ∈ entries, keyMark entry.1 = entry.1.toList) ∧
        ∀ entry ∈ entries.dropLast, entry.2.lastText?.any endsOpen = false := by
  induction entries generalizing opened with
  | nil => simp [shownMarks]
  | cons entry rest inductionHypothesis =>
      obtain ⟨key, value⟩ := entry
      have closes : (∀ entry ∈ ((key, value) :: rest).dropLast,
          entry.2.lastText?.any endsOpen = false) ↔
          (value.lastText?.any endsOpen = true → rest = []) ∧
            ∀ entry ∈ rest.dropLast, entry.2.lastText?.any endsOpen = false := by
        cases rest with
        | nil => simp
        | cons next others =>
            rw [List.dropLast_cons_cons, List.forall_mem_cons]
            simp
      rw [closes, List.forall_mem_cons, shownMarks, List.map_cons]
      by_cases hidden : (opened && isSimpleKey key) = true
      · -- A mark is missing, and no other entry makes up for it.
        have fewer := length_shownMarks_le (value.lastText?.any endsOpen) rest
        have isOpened : opened = true := (Bool.and_eq_true_iff.mp hidden).1
        rw [if_pos hidden, List.nil_append]
        refine iff_of_false (fun same => ?_) fun all => absurd (all.1 isOpened) (by simp)
        have lengths := congrArg List.length same
        simp only [List.length_cons, List.length_map] at lengths
        omega
      · rw [if_neg hidden, List.singleton_append, List.cons.injEq, inductionHypothesis]
        constructor
        · rintro ⟨own, closed, marks, others⟩
          have simple := (keyMark_eq_iff.mp own).1
          refine ⟨fun isOpened => absurd ?_ hidden, ⟨own, marks⟩, closed, others⟩
          rw [isOpened, simple]
          rfl
        · rintro ⟨-, ⟨own, marks⟩, closed, others⟩
          exact ⟨own, closed, marks, others⟩

/-- A key that a text shows is one that a line could show. -/
theorem isShowable_of_mem_shownKeys {text key : List Char} (shown : key ∈ shownKeys text) :
    IsShowable key := by
  obtain ⟨visible, noColon, line, member, rest, rfl⟩ := Inspect.mem_shownKeys shown
  have known := Text.mem_of_mem_lines text _ member
  exact ⟨visible, noColon, fun feed => (known '\n' (List.mem_append_left _ feed)).2 rfl⟩

/-- Where no line is a stray one, entries show their keys exactly when each key is legible and no
value ends open, save for the last one. -/
theorem shownKeys_eq_keys_iff {entries : List (String × Tree)}
    (calm : IsCalm (entriesText entries)) :
    shownKeys (entriesText entries) = entries.map (·.1.toList) ↔
      (∀ entry ∈ entries, isLegible entry.1 = true) ∧
        ∀ entry ∈ entries.dropLast, entry.2.lastText?.any endsOpen = false := by
  have run (showable : ∀ entry ∈ entries, IsShowable entry.1.toList) :
      shownKeys (entriesText entries) = shownMarks false entries :=
    shownKeys_entriesText showable isLower_nil calm
  constructor
  · intro same
    have showable : ∀ entry ∈ entries, IsShowable entry.1.toList := fun entry member =>
      isShowable_of_mem_shownKeys (same ▸ List.mem_map_of_mem member)
    rw [run showable, shownMarks_eq_keys_iff] at same
    obtain ⟨-, marks, closed⟩ := same
    exact ⟨fun entry member =>
      isLegible_iff.mpr ⟨showable entry member, keyMark_eq_iff.mp (marks entry member)⟩, closed⟩
  · rintro ⟨legible, closed⟩
    rw [run fun entry member => (isLegible_iff.mp (legible entry member)).1,
      shownMarks_eq_keys_iff]
    refine ⟨fun opened => (Bool.false_ne_true opened).elim, fun entry member => ?_, closed⟩
    exact keyMark_eq_iff.mpr (isLegible_iff.mp (legible entry member)).2

end Yaml

namespace Tree

open Yaml (entriesText isLegible endsOpen)

/-- The text of a mapping with entries is that of the entries. -/
theorem toList_yaml_mapping {entries : List (String × Tree)} (filled : entries ≠ []) :
    (mapping entries).yaml.toList = entriesText entries := by
  rw [yaml, String.toList_ofList, documentRows_mapping filled, List.flatMap_assoc, entriesText]

/-- The keys that are read from a mapping's text are its keys when the lines of the entries show
them. -/
theorem outermostKeys_yaml_eq_keys_iff (entries : List (String × Tree)) :
    Inspect.outermostKeys (mapping entries).yaml = (mapping entries).keys ↔
      shownKeys (entriesText entries) = entries.map (·.1.toList) := by
  have keys : (mapping entries).keys = (entries.map (·.1.toList)).map String.ofList := by
    simp [Tree.keys, entries?]
  by_cases empty : entries = []
  · subst empty
    exact iff_of_true (by decide) rfl
  · rw [Inspect.outermostKeys_eq, toList_yaml_mapping empty, keys,
      (List.map_injective_iff.mpr fun _ _ => String.ofList_injective).eq_iff]

/-- Where no line is a stray one, the keys of a mapping are read back from its text exactly when
each is legible and no value ends open, save for the last one. -/
theorem outermostKeys_yaml_iff_of_calm {entries : List (String × Tree)}
    (calm : Yaml.IsCalm (mapping entries).yaml.toList) :
    Inspect.outermostKeys (mapping entries).yaml = (mapping entries).keys ↔
      (∀ key ∈ (mapping entries).keys, isLegible key = true) ∧
        ∀ entry ∈ entries.dropLast, entry.2.lastText?.any endsOpen = false := by
  have entriesCalm : Yaml.IsCalm (entriesText entries) := by
    by_cases empty : entries = []
    · subst empty
      exact List.forall_mem_nil _
    · rwa [toList_yaml_mapping empty] at calm
  rw [outermostKeys_yaml_eq_keys_iff, Yaml.shownKeys_eq_keys_iff entriesCalm]
  simp [Tree.keys, entries?]

/-- A value that ends open ends with a separator. -/
theorem exists_separator_of_endsOpen (key : String) {value : Tree}
    (opens : value.lastText?.any endsOpen = true) :
    ∃ c ∈ (Yaml.entryRows key value value.rows).flatMap Yaml.Row.chars,
      Yaml.isSeparator c = true := by
  have notFeed : ((Yaml.entryRows key value value.rows).flatMap Yaml.Row.chars).getLast? ≠
      some '\n' := by
    rw [Ne, Yaml.getLast?_chars_entryRows, opens]
    exact Bool.noConfusion
  obtain ⟨first, others, split, -⟩ := Yaml.opens_entryRows key value value.opens_rows
  have whole := Yaml.isWhole_of_mem_entryRows key value value.isWhole_of_mem_rows
  have filled : Yaml.entryRows key value value.rows ≠ [] := split ▸ List.cons_ne_nil first others
  obtain ⟨before, last, same⟩ := (List.eq_nil_or_concat _).resolve_left filled
  rw [same, List.concat_eq_append] at notFeed whole ⊢
  have ending := (whole last (by simp)).ending
  have ends : last.ending ≠ '\n' := by simpa [Yaml.Row.chars] using notFeed
  exact ⟨last.ending, by simp [Yaml.Row.chars], ending.resolve_left ends⟩

/-- The keys of a mapping whose text has no separator are read back exactly when each of them is
legible. -/
theorem outermostKeys_yaml_iff_of_unseparated {entries : List (String × Tree)}
    (unseparated : ∀ c ∈ (mapping entries).yaml.toList, Yaml.isSeparator c = false) :
    Inspect.outermostKeys (mapping entries).yaml = (mapping entries).keys ↔
      ∀ key ∈ (mapping entries).keys, isLegible key = true := by
  have calm : Yaml.IsCalm (mapping entries).yaml.toList := by
    intro line member
    cases line with
    | nil => rfl
    | cons c line =>
        have inText := (Text.mem_of_mem_lines _ _ member c List.mem_cons_self).1
        simp [isStray, unseparated c inText]
  rw [outermostKeys_yaml_iff_of_calm calm, and_iff_left]
  intro entry member
  have inEntries := List.dropLast_subset entries member
  rw [Bool.eq_false_iff]
  intro opens
  obtain ⟨c, inEntry, separator⟩ := exists_separator_of_endsOpen entry.1 opens
  have inText : c ∈ (mapping entries).yaml.toList := by
    rw [toList_yaml_mapping (List.ne_nil_of_mem inEntries)]
    exact List.mem_flatMap.mpr ⟨entry, inEntries, inEntry⟩
  rw [unseparated c inText] at separator
  cases separator

/-- The keys of a mapping are read back from its text exactly when each of them is legible, no value
but the last one ends open, and no line is a stray one. The values may have any shape and depth. A
key that starts with a separator is left out: it is not legible, but a stray line may show it. -/
theorem outermostKeys_yaml_iff {entries : List (String × Tree)}
    (noSeparator : ∀ key ∈ (mapping entries).keys,
      key.toList.head?.any Yaml.isSeparator = false) :
    Inspect.outermostKeys (mapping entries).yaml = (mapping entries).keys ↔
      (∀ key ∈ (mapping entries).keys, isLegible key = true) ∧
        (∀ entry ∈ entries.dropLast, entry.2.lastText?.any endsOpen = false) ∧
        ∀ line ∈ Text.lines (mapping entries).yaml.toList, isStray line = false := by
  constructor
  · intro same
    have calm : Yaml.IsCalm (mapping entries).yaml.toList := by
      intro line member
      rw [Bool.eq_false_iff]
      intro stray
      obtain ⟨key, shown, separated⟩ := Inspect.exists_key_of_isStray stray
      have isKey : String.ofList key ∈ (mapping entries).keys := by
        rw [← same, Inspect.outermostKeys_eq]
        exact List.mem_map_of_mem (List.mem_filterMap.mpr ⟨line, member, shown⟩)
      have unseparated := noSeparator _ isKey
      rw [String.toList_ofList, separated] at unseparated
      cases unseparated
    obtain ⟨legible, closed⟩ := (outermostKeys_yaml_iff_of_calm calm).mp same
    exact ⟨legible, closed, calm⟩
  · rintro ⟨legible, closed, calm⟩
    exact (outermostKeys_yaml_iff_of_calm calm).mpr ⟨legible, closed⟩

/-- The limits of a component: a note with an empty line and colons, a list in the column of its
key, and a mapping. -/
def limits : List (String × Tree) :=
  [("note", .text "slow:\n\n- fast: no"), ("sizes", .sequence [.mapping [("max", .bool true)]]),
    ("rate", .mapping [("per second", .text "a: b")])]

/-- The keys of limits are read back, and nothing that stands beneath them. -/
theorem outermostKeys_yaml_limits :
    (mapping limits).yaml = "note: |-\n  slow:\n\n  - fast: no\n" ++
        "sizes:\n- max: true\nrate:\n  per second: 'a: b'\n" ∧
      Inspect.outermostKeys (mapping limits).yaml = ["note", "sizes", "rate"] :=
  ⟨by decide, (outermostKeys_yaml_iff (by decide)).mpr ⟨by decide, by decide, by decide⟩⟩

/-- A key with a dash at its start is taken for an item, and one with a colon for what stands before
the colon, although either is plain and on one row. -/
theorem outermostKeys_yaml_dashed :
    let tree := mapping [("-v", .bool true), ("a:b", .bool false)]
    tree.yaml = "-v: true\na:b: false\n" ∧ Inspect.outermostKeys tree.yaml = ["a"] ∧
      tree.keys = ["-v", "a:b"] := by
  refine ⟨?_, ?_, ?_⟩
  all_goals decide

end Tree

end FieldGuide
