import FieldGuide.Field.Edit
import FieldGuide.Proofs.Field.Places
import FieldGuide.Proofs.View.Position

/-!
# Shown fields in references

A view is walked along an example and a reference along the fields, and nothing but the
fields ties the two together. This module shows that they agree: what a view shows of a
declared field is listed for the same field, under the names that lead to it in the view,
and siblings are listed in the order in which they are shown.
-/

namespace FieldGuide

namespace Field

/-- The name of a field as a dotted path has it before the names of its children. -/
def markedName (field : Field) : String := field.name ++ field.kind.marker

/-- A field below a path is listed by its name after the marked names of the fields above it,
with dots between them. -/
theorem pathBelow_append_name (path : String) (above : List Field) (child : Field) :
    Place.pathBelow path above ++ child.name =
      path ++ ".".intercalate (above.map markedName ++ [child.name]) := by
  induction above generalizing path with
  | nil => rw [List.map_nil, List.nil_append, String.intercalate_singleton]; rfl
  | cons field rest inductionHypothesis =>
      rw [List.map_cons, List.cons_append, String.intercalate_cons_of_ne_nil (by simp)]
      refine (inductionHypothesis (childPath path field.toFieldInfo)).trans ?_
      simp only [childPath, markedName, String.append_assoc]

namespace Visits

variable {kind : Kind} {field parent : Field} {tree : Tree} {path : List Tree.Step}
  {above : List Field} {entries : List (String × Tree)}

/-- The names of the fields that a path passes lead to these fields and to the parent of the
visited mapping. -/
theorem exists_chain (visits : Visits kind field tree path above parent entries) :
    ∃ links, field.chain? (above.map (·.name)) = some links ∧ links.map Prod.snd = above ∧
      (links.map Prod.snd).getLast?.getD field = parent := by
  induction visits with
  | here _ => exact ⟨[], rfl, rfl, rfl⟩
  | @entry field entries key value position child path above parent found declared _ _
      inductionHypothesis =>
      obtain ⟨links, leads, same, ends⟩ := inductionHypothesis
      obtain rfl : child.name = key := (getElem?_of_lookup declared).2
      refine ⟨(position, child) :: links, ?_, ?_, ?_⟩
      · rw [List.map_cons, chain?, declared, Option.bind_some, leads, Option.map_some]
      · rw [List.map_cons, same]
      · rw [List.map_cons, List.getLast?_cons]
        exact ends
  | value _ _ inductionHypothesis => exact inductionHypothesis
  | item _ _ inductionHypothesis => exact inductionHypothesis
  | row _ _ inductionHypothesis => exact inductionHypothesis

end Visits

end Field

namespace View

variable {view : View} {root parent : Field} {tree : Tree} {path : List Tree.Step}
  {above : List Field} {entries : List (String × Tree)}

/-- A mapping visited in the view of an example shows the entries of a mapping of the example,
below fields that are revealed. -/
theorem source_of_apply
    (visits : Field.Visits root.kind root (view.apply root tree) path above parent entries) :
    ∃ source, (∀ passed ∈ above, view.filter.reveals passed = true) ∧
      entries = view.shownEntries parent source := by
  rw [apply_of_declares view root tree visits.field_declares] at visits
  obtain ⟨source, -, revealed, shows⟩ := visits.source_of_walk
  exact ⟨source, revealed, shows⟩

/-- The shown entries of a mapping stand in the order of the fields they name. -/
theorem position_lt_of_sublist {source : List (String × Tree)} {first second : String × Tree}
    {position later : Nat} {child sibling : Field}
    (shown : [first, second].Sublist (view.shownEntries parent source))
    (differ : first.1 ≠ second.1) (declared : parent.lookup? first.1 = some (position, child))
    (laterDeclared : parent.lookup? second.1 = some (later, sibling)) : position < later := by
  have inOrder := (orderedBy_pairwise (fun entry : String × Tree => parent.rank entry.1)
    (source.filterMap (view.shown? parent))).sublist shown
  have ordered : parent.rank first.1 ≤ parent.rank second.1 :=
    (List.pairwise_cons.mp inOrder).1 second List.mem_cons_self
  have apart : parent.rank first.1 ≠ parent.rank second.1 := fun same =>
    differ (Field.eq_of_rank_eq (by simp [declared]) (by simp [laterDeclared]) same)
  simpa [Field.rank, declared, laterDeclared] using Nat.lt_of_le_of_ne ordered apart

/-- What a view shows at a walked position under a key that names a field is listed in the
reference: the entry is about the field that the keys of the path lead to, and its full name
has the marked names of the fields on the path with dots between them. Of two fields shown in
one mapping, the one that is shown first is listed first. -/
theorem listed_of_shown
    (visits : Field.Visits root.kind root (view.apply root tree) path above parent entries) :
    ∃ links, root.chain? (above.map (·.name)) = some links ∧ links.map Prod.snd = above ∧
      ∀ shown ∈ entries, ∀ position child, parent.lookup? shown.1 = some (position, child) →
        ∃ index, root.Lists index ⟨links, position, child⟩ ∧
          (Field.Place.entry "" ⟨links, position, child⟩).fullName =
            ".".intercalate (above.map Field.markedName ++ [child.name]) ∧
          ∀ other ∈ entries, ∀ later sibling, parent.lookup? other.1 = some (later, sibling) →
            [shown, other].Sublist entries → shown.1 ≠ other.1 →
              ∃ laterIndex, index < laterIndex ∧ root.Lists laterIndex ⟨links, later, sibling⟩ := by
  obtain ⟨links, leads, rfl, ends⟩ := visits.exists_chain
  obtain ⟨source, revealed, rfl⟩ := source_of_apply visits
  have current : ∀ passed ∈ links.map Prod.snd, passed.isDeprecated = false := fun passed member =>
    Filter.not_deprecated_of_reveals (revealed passed member)
  have listed : ∀ shown ∈ view.shownEntries parent source, ∀ position child,
      parent.lookup? shown.1 = some (position, child) →
        ∃ index, root.Lists index ⟨links, position, child⟩ := by
    intro shown member position child declared
    obtain ⟨-, -, -, shows, -⟩ := Field.Visits.source_of_shown declared member
    exact Field.exists_lists (Field.mem_places_of_chain leads ends declared current
      (Filter.not_deprecated_of_reveals shows))
  refine ⟨links, leads, rfl, fun shown member position child declared => ?_⟩
  obtain ⟨index, lists⟩ := listed shown member position child declared
  refine ⟨index, lists, ?_, ?_⟩
  · exact (Field.pathBelow_append_name "" (links.map Prod.snd) child).trans String.empty_append
  · intro other otherMember later sibling otherDeclared order differ
    obtain ⟨laterIndex, laterLists⟩ := listed other otherMember later sibling otherDeclared
    have before := position_lt_of_sublist order differ declared otherDeclared
    refine ⟨laterIndex, lists.lt laterLists ?_, laterLists⟩
    exact Field.append_lt_append_iff.mpr (List.cons_lt_cons_iff.mpr (.inl before))

/-- A grid of cells with an advanced width. -/
def poolRows : Field :=
  let cell := Field.ofChildren "rows"
    [.ofType "cell" .bool, { Field.ofType "width" .bool with isAdvanced := true }]
  { cell with kind := .grid }

/-- Pools under free keys, each with a grid next to a field that is deprecated. -/
def pools : Field :=
  let pool := Field.ofChildren "pools"
    [{ Field.ofType "size" .int with isDeprecated := true }, poolRows]
  { pool with kind := .map }

/-- A pool with one cell, the width before the cell. -/
def poolExample : Tree :=
  .mapping [("pools", .mapping [("main", .mapping [("rows",
    .sequence [.sequence [.mapping [("width", .bool false), ("cell", .bool true)]]])])])]

/-- The cell and the width are listed one after the other, by the names above them without the
free key, at the places of the two fields. -/
theorem listed_pools :
    ∃ cell width index later,
      index < later ∧ (Field.root [pools]).Lists index cell ∧
        (Field.root [pools]).Lists later width ∧
        cell.positions = [0, 1, 0] ∧ (cell.entry "").fullName = "pools.rows[][].cell" ∧
        width.positions = [0, 1, 1] := by
  have visits : Field.Visits (Field.root [pools]).kind (.root [pools])
      ((View.mk .advanced {}).apply (.root [pools]) poolExample)
      [.key "pools", .key "main", .key "rows", .item 0, .item 0] [pools, poolRows] poolRows
      [("cell", .bool true), ("width", .bool false)] := by
    have shows : (View.mk .advanced {}).apply (.root [pools]) poolExample =
        .mapping [("pools", .mapping [("main", .mapping [("rows", .sequence
          [.sequence [.mapping [("cell", .bool true), ("width", .bool false)]]])])])] := by
      rfl
    rw [shows]
    exact .entry rfl (List.mem_singleton.mpr rfl) (.value (List.mem_singleton.mpr rfl)
      (.entry rfl (List.mem_singleton.mpr rfl) (.row rfl (.item rfl (.here (by decide))))))
  obtain ⟨links, leads, -, lists⟩ := listed_of_shown visits
  obtain ⟨index, cellListed, named, siblings⟩ := lists ("cell", .bool true) (by simp) 0 _ rfl
  obtain ⟨later, after, widthListed⟩ :=
    siblings ("width", .bool false) (by simp) 1 _ rfl (.refl _) (by decide)
  obtain rfl := Option.some.inj leads
  exact ⟨_, _, index, later, after, cellListed, widthListed, rfl, named.trans rfl, rfl⟩

end View

end FieldGuide
