import FieldGuide.Proofs.Inspect

/-!
# Reading fenced blocks back

The reader of fenced blocks works on lines, and lines are all that it keeps of a block. This
module takes a text that is written line by line apart again, and reads a block from lines
when none of those inside looks like the closing fence.
-/

namespace FieldGuide.Inspect

/-- A line without its end. -/
structure IsLine (line : List Char) : Prop where
  noFeed : '\n' ∉ line
  noReturn : '\r' ∉ line

instance (line : List Char) : Decidable (IsLine line) :=
  decidable_of_iff ('\n' ∉ line ∧ '\r' ∉ line)
    ⟨fun both => ⟨both.1, both.2⟩, fun single => ⟨single.1, single.2⟩⟩

/-- The empty line. -/
theorem isLine_nil : IsLine [] := ⟨List.not_mem_nil, List.not_mem_nil⟩

/-- A line without its end has no line feed, and no carriage return at its end. -/
theorem IsLine.ended {line : List Char} (single : IsLine line) :
    '\n' ∉ line ∧ line.getLast? ≠ some '\r' :=
  ⟨single.noFeed, fun last => single.noReturn (List.mem_of_getLast? last)⟩

/-- Lines that are written one after another are the lines of the text, before those of what
follows. -/
theorem lines_unlines_append {lines : List (List Char)}
    (single : ∀ line ∈ lines, '\n' ∉ line ∧ line.getLast? ≠ some '\r') (rest : List Char) :
    Text.lines (unlines lines ++ rest) = lines ++ Text.lines rest := by
  induction lines with
  | nil => rfl
  | cons line others inductionHypothesis =>
      obtain ⟨⟨noFeed, last⟩, single⟩ := List.forall_mem_cons.mp single
      rw [unlines, List.flatMap_cons, List.append_assoc, List.append_assoc, List.singleton_append,
        Text.lines_append_feed_of_last noFeed last]
      exact congrArg (line :: ·) (inductionHypothesis single)

/-- Lines that are written one after another are the lines of the text. -/
theorem lines_unlines {lines : List (List Char)} (single : ∀ line ∈ lines, IsLine line) :
    Text.lines (unlines lines) = lines := by
  have written := lines_unlines_append (fun line member => (single line member).ended) []
  rwa [List.append_nil, Text.lines, List.append_nil] at written

/-- Lines after others are written after them. -/
theorem unlines_append (lines others : List (List Char)) :
    unlines (lines ++ others) = unlines lines ++ unlines others :=
  List.flatMap_append

/-- A line is written with a line feed before the lines after it. -/
theorem unlines_cons (line : List Char) (lines : List (List Char)) :
    unlines (line :: lines) = line ++ '\n' :: unlines lines := by
  simp [unlines]

section Bodies

variable {opening : List Char}

/-- Lines that open no block are passed over. -/
theorem bodies_append_prose {prose : List (List Char)} (closed : opening ∉ prose)
    (rest : List (List Char)) : bodies opening none (prose ++ rest) = bodies opening none rest := by
  induction prose with
  | nil => rfl
  | cons line prose inductionHypothesis =>
      rw [List.mem_cons, not_or] at closed
      rw [List.cons_append, bodies, if_neg (Ne.symm closed.1), inductionHypothesis closed.2]

/-- An open block goes on to the first line that starts with a fence. -/
theorem bodies_append_closing {body : List (List Char)} {closing : List Char}
    (inside : ∀ line ∈ body, fence.isPrefixOf line = false)
    (closes : fence.isPrefixOf closing = true) (block rest : List (List Char)) :
    bodies opening (some block) (body ++ closing :: rest) =
      (block ++ body) :: bodies opening none rest := by
  induction body generalizing block with
  | nil => rw [List.nil_append, bodies, if_pos closes, List.append_nil]
  | cons line body inductionHypothesis =>
      obtain ⟨first, others⟩ := List.forall_mem_cons.mp inside
      rw [List.cons_append, bodies, if_neg (Bool.eq_false_iff.mp first),
        inductionHypothesis others, List.append_assoc, List.singleton_append]

/-- A block is read when no line inside starts with a fence. -/
theorem bodies_block {body : List (List Char)}
    (inside : ∀ line ∈ body, fence.isPrefixOf line = false) (rest : List (List Char)) :
    bodies opening none (opening :: (body ++ fence :: rest)) =
      body :: bodies opening none rest := by
  rw [bodies, if_pos rfl, bodies_append_closing inside (by decide), List.nil_append]

end Bodies

end FieldGuide.Inspect
