import FieldGuide.Proofs.Inspect.Bodies
import Mathlib.Data.List.Infix

/-!
# Documents with fenced blocks

A document is made of passages: lines of prose, and fenced blocks of any language. The reader of
fenced blocks only enters those of its own language and takes the lines of the others for prose.
It stays in step with the document nevertheless, since no line of another block can be taken for
an opening: its first line has another tag, those inside start with no fence, and its closing
fence has no tag. So between any two passages the reader is outside of a block, and it returns
exactly the blocks of its language.
-/

namespace FieldGuide.Inspect

/-! ## Texts and their lines -/

/-- Whether a text is written with some lines: each ends with a line feed, which only the last
one may lack. -/
def WrittenAs (lines : List (List Char)) (text : List Char) : Prop :=
  text = unlines lines ∨ text ++ ['\n'] = unlines lines

/-- A line that is written ends with no carriage return when none stands before a line feed. -/
theorem getLast?_ne_return {lines : List (List Char)}
    (noReturn : ¬ ['\r', '\n'] <:+: unlines lines) {line : List Char} (member : line ∈ lines) :
    line.getLast? ≠ some '\r' := by
  intro last
  obtain ⟨start, rfl⟩ := List.getLast?_eq_some_iff.mp last
  obtain ⟨before, after, rfl⟩ := List.append_of_mem member
  refine noReturn ⟨unlines before ++ start, unlines after, ?_⟩
  simp [unlines_append, unlines_cons]

/-- The lines of a text are those that it is written with, save for an empty last one that has no
line feed. -/
theorem lines_of_writtenAs {lines : List (List Char)} {text : List Char}
    (written : WrittenAs lines text) (oneLine : ∀ line ∈ lines, '\n' ∉ line)
    (noReturn : ¬ ['\r', '\n'] <:+: text) :
    Text.lines text = lines ∨ Text.lines text ++ [[]] = lines := by
  have single {first : List (List Char)} (among : ∀ line ∈ first, line ∈ lines)
      (noReturn : ¬ ['\r', '\n'] <:+: unlines first) :
      ∀ line ∈ first, '\n' ∉ line ∧ line.getLast? ≠ some '\r' := fun line member =>
    ⟨oneLine line (among line member), getLast?_ne_return noReturn member⟩
  rcases written with ended | unended
  · subst ended
    have read := lines_unlines_append (single (fun _ => id) noReturn) []
    rw [List.append_nil, Text.lines, List.append_nil] at read
    exact .inl read
  · rcases List.eq_nil_or_concat lines with rfl | ⟨before, last, rfl⟩
    · simp [unlines] at unended
    · rw [List.concat_eq_append] at *
      rw [unlines_append, unlines_cons, ← List.append_assoc] at unended
      obtain rfl : text = unlines before ++ last := List.append_cancel_right unended
      have beforeReturn : ¬ ['\r', '\n'] <:+: unlines before := fun inside =>
        noReturn (inside.trans (List.prefix_append _ _).isInfix)
      have read := lines_unlines_append
        (single (fun _ member => List.mem_append_left _ member) beforeReturn) last
      by_cases empty : last = []
      · subst empty
        rw [read, Text.lines, List.append_nil]
        exact .inr rfl
      · rw [read, Text.lines_of_no_feed empty (oneLine last (by simp))]
        exact .inl rfl

/-! ## Passages -/

/-- A line that starts with no fence. -/
structure PlainLine where
  chars : List Char
  noFeed : '\n' ∉ chars
  noFence : fence.isPrefixOf chars = false

/-- A fenced block: the tag behind its opening fence, and the lines inside. -/
structure Block where
  tag : List Char
  noFeed : '\n' ∉ tag
  body : List PlainLine

namespace Block

/-- The lines of a block before its closing fence. -/
def openLines (block : Block) : List (List Char) :=
  (fence ++ block.tag) :: block.body.map PlainLine.chars

/-- The text inside a block: each of its lines with a line feed after it. -/
def text (block : Block) : String := .ofList (unlines (block.body.map PlainLine.chars))

end Block

/-- A passage of a document: a line of prose, or a block with its closing fence. -/
inductive Passage
  | prose (line : PlainLine)
  | fenced (block : Block)

namespace Passage

/-- The lines of a passage. -/
def lines : Passage → List (List Char)
  | .prose line => [line.chars]
  | .fenced block => block.openLines ++ [fence]

/-- The block of a passage, if it is one with the given tag. -/
def tagged? (tag : List Char) : Passage → Option Block
  | .prose _ => none
  | .fenced block => if block.tag = tag then some block else none

end Passage

/-- A document: passages, and a block behind them that no fence closes, if there is one. -/
structure Document where
  passages : List Passage
  unclosed : Option Block := none

/-- The lines of a document. -/
def Document.lines (document : Document) : List (List Char) :=
  document.passages.flatMap Passage.lines ++ document.unclosed.elim [] Block.openLines

/-- No line inside a block starts with a fence. -/
theorem Block.noFence_of_mem_body (block : Block) :
    ∀ line ∈ block.body.map PlainLine.chars, fence.isPrefixOf line = false :=
  List.forall_mem_map.mpr fun line _ => line.noFence

/-- The lines of a block before its closing fence have no line feeds. -/
theorem Block.noFeed_of_mem_openLines (block : Block) :
    ∀ line ∈ block.openLines, '\n' ∉ line := by
  refine List.forall_mem_cons.mpr ⟨?_, List.forall_mem_map.mpr fun line _ => line.noFeed⟩
  simp [fence, block.noFeed]

/-- The lines of a passage have no line feeds. -/
theorem Passage.noFeed_of_mem_lines (passage : Passage) :
    ∀ line ∈ passage.lines, '\n' ∉ line := by
  cases passage with
  | prose line => simpa [Passage.lines] using line.noFeed
  | fenced block =>
      refine List.forall_mem_append.mpr ⟨block.noFeed_of_mem_openLines, ?_⟩
      rw [List.forall_mem_singleton]
      decide

/-- The lines of a document have no line feeds. -/
theorem Document.noFeed_of_mem_lines (document : Document) :
    ∀ line ∈ document.lines, '\n' ∉ line := by
  refine List.forall_mem_append.mpr ⟨List.forall_mem_flatMap.mpr fun passage _ =>
    passage.noFeed_of_mem_lines, ?_⟩
  cases document.unclosed with
  | none => exact List.forall_mem_nil _
  | some block => exact block.noFeed_of_mem_openLines

/-! ## Reading passages -/

section Reading

variable {tag : List Char}

/-- A line that starts with no fence opens no block. -/
theorem ne_opening_of_noFence {line : List Char} (noFence : fence.isPrefixOf line = false) :
    fence ++ tag ≠ line := by
  rintro rfl
  rw [List.isPrefixOf_iff_prefix.mpr (List.prefix_append fence tag)] at noFence
  cases noFence

/-- Before its closing fence, a block of another tag has no line that opens a block. -/
theorem Block.opening_not_mem_openLines {block : Block} (other : block.tag ≠ tag) :
    fence ++ tag ∉ block.openLines := by
  rw [Block.openLines, List.mem_cons, not_or]
  refine ⟨fun same => other (List.append_cancel_left same).symm, fun inside => ?_⟩
  exact ne_opening_of_noFence (block.noFence_of_mem_body _ inside) rfl

/-- A blank line at the end changes nothing: it closes no block and opens none. -/
theorem bodies_append_blank (lines : List (List Char)) (current : Option (List (List Char))) :
    bodies (fence ++ tag) current (lines ++ [[]]) = bodies (fence ++ tag) current lines := by
  induction lines generalizing current with
  | nil => cases current <;> simp [bodies, fence]
  | cons line lines inductionHypothesis =>
      cases current <;> simp only [List.cons_append, bodies, inductionHypothesis]

/-- The lines of a block that is not closed give no body. -/
theorem bodies_unclosed {body : List (List Char)}
    (inside : ∀ line ∈ body, fence.isPrefixOf line = false) (block : List (List Char)) :
    bodies (fence ++ tag) (some block) body = [] := by
  induction body generalizing block with
  | nil => rfl
  | cons line body inductionHypothesis =>
      obtain ⟨first, others⟩ := List.forall_mem_cons.mp inside
      rw [bodies, if_neg (Bool.eq_false_iff.mp first), inductionHypothesis others]

/-- A passage is read on its own: it gives its body when it is a block of the tag, and leaves the
reader outside of a block. -/
theorem bodies_passage (tagged : tag ≠ []) (passage : Passage) (rest : List (List Char)) :
    bodies (fence ++ tag) none (passage.lines ++ rest) =
      (passage.tagged? tag).toList.map (·.body.map PlainLine.chars) ++
        bodies (fence ++ tag) none rest := by
  cases passage with
  | prose line =>
      exact bodies_append_prose
        (fun opens => ne_opening_of_noFence line.noFence (List.mem_singleton.mp opens)) rest
  | fenced block =>
      by_cases same : block.tag = tag
      · subst same
        rw [Passage.lines, Block.openLines, List.append_assoc, List.cons_append,
          List.singleton_append, bodies_block block.noFence_of_mem_body]
        simp [Passage.tagged?]
      · have closing : fence ++ tag ≠ fence := by simpa using tagged
        have closed : fence ++ tag ∉ block.openLines ++ [fence] := by
          rw [List.mem_append, not_or, List.mem_singleton]
          exact ⟨Block.opening_not_mem_openLines same, closing⟩
        rw [Passage.lines, bodies_append_prose closed]
        simp [Passage.tagged?, same]

/-- Passages are read one after another. -/
theorem bodies_passages (tagged : tag ≠ []) (passages : List Passage)
    (rest : List (List Char)) :
    bodies (fence ++ tag) none (passages.flatMap Passage.lines ++ rest) =
      (passages.filterMap (Passage.tagged? tag)).map (·.body.map PlainLine.chars) ++
        bodies (fence ++ tag) none rest := by
  induction passages with
  | nil => rfl
  | cons passage passages inductionHypothesis =>
      rw [List.flatMap_cons, List.append_assoc, bodies_passage tagged, inductionHypothesis]
      cases found : passage.tagged? tag <;> simp [found]

/-- A block at the end that no fence closes gives no body, whatever its tag. -/
theorem bodies_openLines (block : Block) : bodies (fence ++ tag) none block.openLines = [] := by
  by_cases same : block.tag = tag
  · subst same
    rw [Block.openLines, bodies, if_pos rfl, bodies_unclosed block.noFence_of_mem_body]
  · have passed := bodies_append_prose (Block.opening_not_mem_openLines same) []
    rwa [List.append_nil, bodies] at passed

/-- The lines of a document give the bodies of its blocks of the tag. -/
theorem bodies_document (tagged : tag ≠ []) (document : Document) :
    bodies (fence ++ tag) none document.lines =
      (document.passages.filterMap (Passage.tagged? tag)).map (·.body.map PlainLine.chars) := by
  rw [Document.lines, bodies_passages tagged]
  cases document.unclosed with
  | none => simp [bodies]
  | some block => simp [bodies_openLines]

end Reading

/-- The reader of fenced blocks undoes fencing: of a document of passages it returns the texts
inside the blocks of the language, all of them, in order, and of no other blocks. A block that
is not closed is not returned. The text may lack its last line feed. -/
theorem fencedBodies_of_writtenAs {language : String} (tagged : language ≠ "")
    (document : Document) {text : String} (written : WrittenAs document.lines text.toList)
    (noReturn : ¬ ['\r', '\n'] <:+: text.toList) :
    fencedBodies text language =
      (document.passages.filterMap (Passage.tagged? language.toList)).map Block.text := by
  have named : language.toList ≠ [] := by simpa using tagged
  have read : bodies (fence ++ language.toList) none (Text.lines text.toList) =
      bodies (fence ++ language.toList) none document.lines := by
    rcases lines_of_writtenAs written document.noFeed_of_mem_lines noReturn with same | blank
    · rw [same]
    · rw [← blank, bodies_append_blank]
  rw [fencedBodies, read, bodies_document named, List.map_map]
  rfl

/-- A document with a block in another language than YAML, one in YAML with an empty line, and one
in YAML that is left open. -/
def mixedDocument : Document where
  passages :=
    [.prose ⟨"Limits:".toList, by decide, by decide⟩,
      .fenced ⟨"toml".toList, by decide, [⟨"b = 2".toList, by decide, by decide⟩]⟩,
      .fenced ⟨"yml".toList, by decide,
        [⟨"a: 1".toList, by decide, by decide⟩, ⟨[], by decide, by decide⟩]⟩]
  unclosed := some ⟨"yml".toList, by decide, [⟨"c: 3".toList, by decide, by decide⟩]⟩

/-- Of blocks in two languages and one that is left open, the closed one in the language is
returned, with its empty line. -/
theorem fencedBodies_mixedDocument :
    fencedBodies "Limits:\n```toml\nb = 2\n```\n```yml\na: 1\n\n```\n```yml\nc: 3" "yml" =
      ["a: 1\n\n"] :=
  (fencedBodies_of_writtenAs (by decide) mixedDocument (.inr (by decide)) (by decide)).trans
    (by decide)

end FieldGuide.Inspect
