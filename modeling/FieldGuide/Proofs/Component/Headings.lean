import FieldGuide.Field.Edit
import FieldGuide.Proofs.Component.Check
import Mathlib.Data.List.Flatten
import Mathlib.Data.List.Nodup

/-!
# Headings of a reference

A reference heads each entry with the dotted path to its field. Siblings of a valid component
have different names, but names may hold dots and brackets themselves, so that paths through
different siblings can still be the same. This module finds which siblings can be confused in
this way, and shows that the headings of a valid component are distinct exactly when no two
such siblings have a heading in common.
-/

namespace FieldGuide

/-- An entry below a path is headed by the path before its heading without the path. -/
theorem Field.Place.fullName_entry (path : String) (place : Field.Place) :
    (place.entry path).fullName = path ++ (place.entry "").fullName := by
  have below (above : List Field) (path start : String) :
      pathBelow (path ++ start) above = path ++ pathBelow start above := by
    induction above generalizing start with
    | nil => rfl
    | cons field rest inductionHypothesis =>
        have step : childPath (path ++ start) field.toFieldInfo =
            path ++ childPath start field.toFieldInfo := by
          simp only [childPath, String.append_assoc]
        exact (congrArg (pathBelow · rest) step).trans (inductionHypothesis _)
  have start := below (place.above.map Prod.snd) path ""
  rw [String.append_empty] at start
  simp only [entry, ReferenceEntry.ofInfo, start, String.append_assoc]

namespace Field

/-- The headings of a field and of the fields below it, next to siblings of the field. -/
def headings (field : Field) : List String := (referenceEntries "" field).map (·.fullName)

/-- What stands before the headings of the fields below a field. -/
def ownPath (field : Field) : String := childPath "" field.toFieldInfo

/-- A deprecated field has no headings. -/
theorem headings_of_deprecated {field : Field} (deprecated : field.isDeprecated = true) :
    field.headings = [] := by
  obtain ⟨info, children⟩ := field
  rw [headings, referenceEntries, if_pos deprecated, List.map_nil]

/-- A field that is listed is headed by its name, and the fields below it by its path before
their headings in its own reference. -/
theorem headings_of_current {field : Field} (current : field.isDeprecated = false) :
    field.headings =
      field.name :: (field.reference.map (·.fullName)).map (field.ownPath ++ ·) := by
  have below : (referenceList field.ownPath field.children).map (·.fullName) =
      (field.reference.map (·.fullName)).map (field.ownPath ++ ·) := by
    rw [referenceList_children, reference_eq_map]
    simp only [List.map_map]
    exact List.map_congr_left fun place _ => place.fullName_entry field.ownPath
  obtain ⟨info, children⟩ := field
  rw [← below, headings, referenceEntries, if_neg (Bool.eq_false_iff.mp current), List.map_cons]
  exact congrArg (· :: _) String.empty_append

/-- The headings of a reference are those of the children of its root. -/
theorem fullName_reference (root : Field) :
    root.reference.map (·.fullName) = root.children.flatMap headings := by
  have among (fields : List Field) :
      (referenceList "" fields).map (·.fullName) = fields.flatMap headings := by
    induction fields with
    | nil => rfl
    | cons field rest inductionHypothesis =>
        rw [referenceList, List.map_append, inductionHypothesis, List.flatMap_cons, headings]
  exact among root.children

/-- The headings of a listed field are distinct when those below it are: the field itself has
a shorter one than any field below it. -/
theorem nodup_headings_iff {field : Field} (current : field.isDeprecated = false) :
    field.headings.Nodup ↔ (field.reference.map (·.fullName)).Nodup := by
  rw [headings_of_current current, List.nodup_cons,
    List.nodup_map_iff fun _ _ => (String.append_right_inj field.ownPath).mp]
  refine and_iff_right fun member => ?_
  obtain ⟨heading, -, same⟩ := List.mem_map.mp member
  have lengths := congrArg String.length same
  have dot : ".".length = 1 := rfl
  simp only [ownPath, childPath, String.length_append, dot] at lengths
  omega

/-- Whether a heading through one of two siblings may be read as one through the other: the
path below one starts the name of the other, or both have the same path below them. -/
def Confusable (left right : Field) : Prop :=
  left.ownPath.toList <+: right.name.toList ∨ right.ownPath.toList <+: left.name.toList ∨
    left.ownPath = right.ownPath

/-- The path below a field is its name, its marker and a dot. -/
theorem toList_ownPath (field : Field) :
    field.ownPath.toList = field.name.toList ++ field.kind.marker.toList ++ ['.'] := by
  simp [ownPath, childPath]

/-- No marker has a dot. -/
theorem dot_not_mem_marker (kind : Kind) : '.' ∉ kind.marker.toList := by
  cases kind <;> decide

/-- A path ends with a dot, so that one that starts another stands inside the name there, or
is all of it. -/
theorem ownPath_starts {left right : Field}
    (start : left.ownPath.toList <+: right.ownPath.toList) :
    left.ownPath.toList <+: right.name.toList ∨ left.ownPath = right.ownPath := by
  rw [toList_ownPath right, List.prefix_concat_iff, ← toList_ownPath right] at start
  rcases start with same | ⟨rest, split⟩
  · exact .inr (String.toList_inj.mp same)
  · refine .inl ?_
    rcases List.append_eq_append_iff.mp split with ⟨more, inside, -⟩ | ⟨more, beyond, marker⟩
    · exact ⟨more, inside.symm⟩
    · rcases List.eq_nil_or_concat more with rfl | ⟨before, last, rfl⟩
      · exact ⟨[], by simpa using beyond⟩
      · rw [toList_ownPath, List.concat_eq_append, ← List.append_assoc] at beyond
        obtain rfl : '.' = last := by simpa using (List.append_inj' beyond rfl).2
        exact absurd (marker ▸ by simp) (dot_not_mem_marker right.kind)

/-- Siblings of different names that cannot be confused have no heading in common. -/
theorem disjoint_headings {left right : Field} (differ : left.name ≠ right.name)
    (apart : ¬ left.Confusable right) : left.headings.Disjoint right.headings := by
  have startsWith {field : Field} {heading : String} (member : heading ∈ field.headings) :
      heading = field.name ∨ field.ownPath.toList <+: heading.toList := by
    cases deprecated : field.isDeprecated with
    | true => simp [headings_of_deprecated deprecated] at member
    | false =>
        rw [headings_of_current deprecated, List.mem_cons] at member
        refine member.imp_right fun below => ?_
        obtain ⟨rest, -, rfl⟩ := List.mem_map.mp below
        rw [String.toList_append]
        exact List.prefix_append _ _
  rw [List.disjoint_left]
  intro heading leftMember rightMember
  refine apart ?_
  rcases startsWith leftMember with rfl | leftStart <;>
    rcases startsWith rightMember with same | rightStart
  · exact absurd same differ
  · exact .inr (.inl rightStart)
  · exact .inl (same ▸ leftStart)
  · rcases List.prefix_or_prefix_of_prefix leftStart rightStart with start | start
    · exact (ownPath_starts start).imp_right .inr
    · exact .inr ((ownPath_starts start).imp_right Eq.symm)

/-- Whether no two children of a field that can be confused have a heading in common. -/
def KeepsApart (parent : Field) : Prop :=
  parent.children.Pairwise fun left right =>
    left.Confusable right → ∀ heading ∈ left.headings, heading ∉ right.headings

instance (left right : Field) : Decidable (left.Confusable right) :=
  inferInstanceAs (Decidable (_ ∨ _ ∨ _))

instance (parent : Field) : Decidable parent.KeepsApart :=
  inferInstanceAs (Decidable (parent.children.Pairwise _))

/-- The headings of a reference in which no name is declared twice among siblings are distinct
exactly when siblings that can be confused have no heading in common. -/
theorem nodup_fullName_iff {root : Field} (unique : root.duplicatePath? = none) :
    (root.reference.map (·.fullName)).Nodup ↔
      ∀ parent ∈ root :: root.places.map (·.field), parent.KeepsApart := by
  induction root using Field.induction with
  | step root inductionHypothesis =>
      obtain ⟨names, below⟩ := (duplicatePath?_eq_none_iff root).mp unique
      have distinct : root.children.Pairwise fun left right => left.name ≠ right.name :=
        List.pairwise_map.mp names
      rw [fullName_reference, List.nodup_flatMap, List.forall_mem_cons, and_comm, KeepsApart]
      refine and_congr ?_ ?_
      · constructor
        · refine List.Pairwise.imp ?_
          intro left right disjoint _
          exact List.disjoint_left.mp disjoint
        · intro apart
          refine List.Pairwise.imp ?_ (distinct.and apart)
          rintro left right ⟨differ, sharesNone⟩
          by_cases confusable : left.Confusable right
          · exact List.disjoint_left.mpr (sharesNone confusable)
          · exact disjoint_headings differ confusable
      · rw [forall_field_places]
        refine forall₂_congr fun child member => ?_
        cases deprecated : child.isDeprecated with
        | true => simp [headings_of_deprecated deprecated]
        | false =>
            rw [nodup_headings_iff deprecated,
              inductionHypothesis child member (below child member)]
            exact ⟨fun apart _ => apart, fun apart => apart rfl⟩

/-- Whether a name can only be read as one part of a heading: it has no dot and does not end
like a marker. -/
def hasPlainName (field : Field) : Bool :=
  !field.name.toList.contains '.' && !(['[', ']'].isSuffixOf field.name.toList)

/-- A plain name has no dot and no brackets at its end. -/
theorem hasPlainName_iff {field : Field} : field.hasPlainName = true ↔
    '.' ∉ field.name.toList ∧ ¬ ['[', ']'] <:+ field.name.toList := by
  simp [hasPlainName, ← List.isSuffixOf_iff_suffix]

/-- What stands before a marker at the end of another one is nothing or ends like a marker. -/
theorem eq_nil_or_suffix_of_marker (kind other : Kind) {text : List Char}
    (same : kind.marker.toList = text ++ other.marker.toList) :
    text = [] ∨ ['[', ']'] <:+ text := by
  have taken : text = kind.marker.toList.take
      (kind.marker.toList.length - other.marker.toList.length) := by
    simp [same]
  rw [taken]
  cases kind <;> cases other <;> decide

/-- Siblings of different plain names cannot be confused. -/
theorem not_confusable_of_plain {left right : Field} (differ : left.name ≠ right.name)
    (leftPlain : left.hasPlainName = true) (rightPlain : right.hasPlainName = true) :
    ¬ left.Confusable right := by
  rw [hasPlainName_iff] at leftPlain rightPlain
  have dotted (field : Field) : '.' ∈ field.ownPath.toList := by simp [toList_ownPath]
  have apart {first second : Field} (unlike : first.name ≠ second.name)
      (noMarker : ¬ ['[', ']'] <:+ second.name.toList) {more : List Char}
      (names : second.name.toList = first.name.toList ++ more)
      (markers : first.kind.marker.toList = more ++ second.kind.marker.toList) : False := by
    rcases eq_nil_or_suffix_of_marker _ _ markers with rfl | ends
    · rw [List.append_nil] at names
      exact unlike (String.toList_inj.mp names.symm)
    · exact noMarker (names ▸ ends.trans (List.suffix_append _ _))
  rintro (start | start | same)
  · exact rightPlain.1 (start.subset (dotted left))
  · exact leftPlain.1 (start.subset (dotted right))
  · have texts := congrArg String.toList same
    rw [toList_ownPath, toList_ownPath, List.append_cancel_right_eq,
      List.append_eq_append_iff] at texts
    rcases texts with ⟨more, names, markers⟩ | ⟨more, names, markers⟩
    · exact apart differ rightPlain.2 names markers
    · exact apart (Ne.symm differ) leftPlain.2 names markers

/-- Where every listed field has a plain name, siblings have no heading in common. -/
theorem keepsApart_of_plain {root : Field} (unique : root.duplicatePath? = none)
    (plain : ∀ field ∈ root.places.map (·.field), field.hasPlainName = true) :
    ∀ parent ∈ root :: root.places.map (·.field), parent.KeepsApart := by
  induction root using Field.induction with
  | step root inductionHypothesis =>
      obtain ⟨names, below⟩ := (duplicatePath?_eq_none_iff root).mp unique
      rw [forall_field_places] at plain
      rw [List.forall_mem_cons, forall_field_places]
      constructor
      · have distinct : root.children.Pairwise fun left right => left.name ≠ right.name :=
          List.pairwise_map.mp names
        refine List.Pairwise.imp_of_mem ?_ distinct
        intro left right leftMember rightMember differ confusable heading inLeft inRight
        cases leftDeprecated : left.isDeprecated with
        | true => simp [headings_of_deprecated leftDeprecated] at inLeft
        | false =>
            cases rightDeprecated : right.isDeprecated with
            | true => simp [headings_of_deprecated rightDeprecated] at inRight
            | false =>
                have leftPlain := plain left leftMember leftDeprecated left List.mem_cons_self
                have rightPlain := plain right rightMember rightDeprecated right List.mem_cons_self
                exact not_confusable_of_plain differ leftPlain rightPlain confusable
      · intro child member current
        refine inductionHypothesis child member (below child member) ?_
        exact (List.forall_mem_cons.mp (plain child member current)).2

end Field

namespace Component

/-- The headings of the reference of a valid component are distinct exactly when no two
siblings that can be confused have a heading in common, below the root or below a field that
is listed. They are distinct whenever all fields that are listed have plain names. -/
theorem headings_nodup_iff {component : Component} (valid : component.check = .ok ()) :
    ((component.config.reference.map (·.fullName)).Nodup ↔
        ∀ parent ∈ component.config :: component.config.places.map (·.field),
          parent.KeepsApart) ∧
      ((∀ field ∈ component.config.places.map (·.field), field.hasPlainName = true) →
        (component.config.reference.map (·.fullName)).Nodup) := by
  have unique := duplicatePath?_of_check valid
  have exactly := Field.nodup_fullName_iff unique
  exact ⟨exactly, fun plain => exactly.mpr (Field.keepsApart_of_plain unique plain)⟩

/-- A component whose fields are one with a dot in its name and an object with a child. -/
def dotted (name child : String) : Component where
  name := "kafka"
  role := .input
  config := .root [.ofType name .string, .ofChildren "client" [.ofType child .string]]

/-- A dotted name that starts with the path of a sibling is no trouble while no child of the
sibling is named like its rest. -/
theorem headings_nodup_dotted :
    (dotted "client.id" "rack").check = .ok () ∧
      ((dotted "client.id" "rack").config.reference.map (·.fullName)).Nodup := by
  have valid : (dotted "client.id" "rack").check = .ok () := by rfl
  refine ⟨valid, (headings_nodup_iff valid).1.mpr ?_⟩
  decide

/-- A dotted name can be the heading of a child of a sibling. -/
theorem not_headings_nodup_dotted :
    (dotted "client.id" "id").check = .ok () ∧
      ¬ ((dotted "client.id" "id").config.reference.map (·.fullName)).Nodup := by
  decide

end Component

end FieldGuide
