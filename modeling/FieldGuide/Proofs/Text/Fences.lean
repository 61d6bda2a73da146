import Mathlib.Data.List.TakeWhile

/-!
# Fences in Markdown

A block that three backticks open goes on to the first line that closes it. This module
says which lines do, and which ways to write or to move a line keep it from closing a
block.
-/

namespace FieldGuide.Text

/-- A character that ends a line of Markdown. -/
def endsLine (c : Char) : Bool := c = '\n' || c = '\r'

/-- The lines of a Markdown text. -/
def markdownLines (text : List Char) : List (List Char) := text.splitOnP endsLine

/-- A line feed at the end of a text only adds an empty line. -/
theorem any_markdownLines_append_feed {test : List Char → Bool} (empty : test [] = false)
    (text : List Char) :
    (markdownLines (text ++ ['\n'])).any test = (markdownLines text).any test := by
  rw [markdownLines, List.splitOnP_append_cons text [] rfl, List.any_append, List.splitOnP_nil]
  simp [empty, markdownLines]

/-- Whether a line closes a fenced block that three backticks opened: at most three spaces,
at least three backticks, and then spaces and tabs only. -/
def closesFence (line : List Char) : Bool :=
  let marked := line.dropWhile (· == ' ')
  (line.takeWhile (· == ' ')).length ≤ 3 && 3 ≤ (marked.takeWhile (· == '\x60')).length &&
    (marked.dropWhile (· == '\x60')).all fun c => c = ' ' || c = '\t'

/-- The characters a line that closes a block can start with. -/
def startsFence (c : Char) : Bool := c = ' ' || c = '\x60'

/-- Whether a text starts neither with a space nor with a backtick. -/
def OffMargin (text : List Char) : Prop := ∀ c ∈ text.head?, startsFence c = false

/-- The empty text is off the margin. -/
theorem OffMargin.nil : OffMargin [] := by
  intro c member
  cases member

/-- A text is off the margin when its first character is. -/
theorem OffMargin.cons {c : Char} (off : startsFence c = false) (rest : List Char) :
    OffMargin (c :: rest) := by
  intro first same
  obtain rfl := Option.some.inj same
  exact off

/-- Of two texts off the margin, one after the other is off the margin. -/
theorem OffMargin.append {text rest : List Char} (left : OffMargin text)
    (right : OffMargin rest) : OffMargin (text ++ rest) := by
  cases text with
  | nil => exact right
  | cons c text => exact left

/-- The empty line closes no block. -/
theorem closesFence_nil : closesFence [] = false := by
  decide

/-- A line off the margin closes no block. -/
theorem closesFence_of_offMargin {line : List Char} (off : OffMargin line) :
    closesFence line = false := by
  cases line with
  | nil => exact closesFence_nil
  | cons c rest =>
      have first := off c rfl
      simp only [startsFence, Bool.or_eq_false_iff, decide_eq_false_iff_not] at first
      simp [closesFence, first]

/-- A line that closes no block does not close one after a space. -/
theorem closesFence_cons_space {line : List Char} (stays : closesFence line = false) :
    closesFence (' ' :: line) = false := by
  rw [Bool.eq_false_iff] at stays ⊢
  intro closes
  refine stays ?_
  simp only [closesFence, Bool.and_eq_true, decide_eq_true_eq, List.takeWhile_cons,
    List.dropWhile_cons, beq_self_eq_true, if_true, List.length_cons] at closes ⊢
  exact ⟨⟨by omega, closes.1.2⟩, closes.2⟩

/-- A line with four spaces at its start closes no block. -/
theorem closesFence_four_spaces (line : List Char) :
    closesFence (' ' :: ' ' :: ' ' :: ' ' :: line) = false := by
  simp [closesFence]

/-- A line that closes a block has spaces, backticks and tabs only. -/
theorem mem_of_closesFence {line : List Char} (closes : closesFence line = true) :
    ∀ c ∈ line, c = ' ' ∨ c = '\x60' ∨ c = '\t' := by
  simp only [closesFence, Bool.and_eq_true, List.all_eq_true, Bool.or_eq_true,
    decide_eq_true_eq] at closes
  intro c member
  rw [← List.takeWhile_append_dropWhile (p := (· == ' ')) (l := line), List.mem_append] at member
  rcases member with space | marked
  · exact .inl (by simpa using List.mem_takeWhile_imp space)
  · rw [← List.takeWhile_append_dropWhile (p := (· == '\x60')) (l := line.dropWhile (· == ' ')),
      List.mem_append] at marked
    rcases marked with backtick | blank
    · exact .inr (.inl (by simpa using List.mem_takeWhile_imp backtick))
    · rcases closes.2 c blank with space | tab
      · exact .inl space
      · exact .inr (.inr tab)

end FieldGuide.Text
