import Mathlib.Algebra.Order.BigOperators.Group.List

/-!
# Backslash escapes

A backslash makes the character after it literal, another backslash included. This module reads
a text in this way, from left to right, and keeps for each character whether it is literal. A text
is not shorter once its characters are escaped.
-/

namespace FieldGuide.Text

/-- The characters of a text, each with whether a backslash makes it literal. Such a backslash
is not read as a character of its own; one at the end of the text is. -/
def marked : List Char → List (Char × Bool)
  | '\\' :: c :: rest => (c, true) :: marked rest
  | c :: rest => (c, false) :: marked rest
  | [] => []

/-- A backslash makes the character after it literal. -/
@[simp]
theorem marked_backslash (c : Char) (rest : List Char) :
    marked ('\\' :: c :: rest) = (c, true) :: marked rest := by
  rw [marked]

/-- Any other character stands for itself. -/
theorem marked_cons {c : Char} (plain : c ≠ '\\') (rest : List Char) :
    marked (c :: rest) = (c, false) :: marked rest := by
  rw [marked]
  exact fun _ _ backslash => absurd backslash plain

/-- A text is not longer than what its characters are written as, each as something. -/
theorem length_le_length_flatMap {write : Char → List Char} (writes : ∀ c, write c ≠ [])
    (text : List Char) : text.length ≤ (text.flatMap write).length := by
  have lengths := List.length_le_sum_of_one_le (text.map fun c => (write c).length) (by
    rw [List.forall_mem_map]
    exact fun c _ => List.length_pos_of_ne_nil (writes c))
  rwa [List.length_map, ← List.length_flatMap] at lengths

end FieldGuide.Text
