import FieldGuide.Proofs.Field.Places
import Mathlib.Data.List.Forall2

/-!
# Index paths of a reference

Fields below a root are found by the positions that lead to them, one position for each level,
whatever they are called. This module says which of these paths a reference lists: all that pass
no deprecated field, each once, a path before those that go on from it and siblings in declared
order. Names may be empty or repeat; they only show in the entries.
-/

namespace FieldGuide

namespace Field

/-- The fields that positions lead through, one below the other; the last of them is the field
at the end of the path. -/
def along? (field : Field) : List Nat → Option (List Field)
  | [] => some []
  | position :: rest =>
      field.children[position]?.bind fun child => (child.along? rest).map (child :: ·)

/-- A path goes to a child and on from there. -/
theorem along?_cons_eq_some_iff {field : Field} {position : Nat} {rest : List Nat}
    {fields : List Field} :
    field.along? (position :: rest) = some fields ↔ ∃ child below,
      field.children[position]? = some child ∧ child.along? rest = some below ∧
        child :: below = fields := by
  simp [along?, Option.bind_eq_some_iff, Option.map_eq_some_iff]

/-- Whether a path leads to a field below the root and no field on it is deprecated. -/
def IsLive (root : Field) (path : List Nat) : Prop :=
  path ≠ [] ∧ ∃ fields, root.along? path = some fields ∧
    ∀ field ∈ fields, field.isDeprecated = false

/-- The positions of a place lead through the fields above it to its field, and none of these is
deprecated. -/
theorem along?_positions {root : Field} {place : Place} (member : place ∈ root.places) :
    root.along? place.positions = some (place.above.map Prod.snd ++ [place.field]) ∧
      ∀ field ∈ place.above.map Prod.snd ++ [place.field], field.isDeprecated = false := by
  induction root using Field.induction generalizing place with
  | step root inductionHypothesis =>
      obtain ⟨position, child, listed, current, stands⟩ := mem_places.mp member
      rcases stands with rfl | ⟨below, belowMember, rfl⟩
      · refine ⟨along?_cons_eq_some_iff.mpr ⟨child, [], listed, rfl, rfl⟩, ?_⟩
        exact List.forall_mem_singleton.mpr current
      · obtain ⟨leads, others⟩ :=
          inductionHypothesis child (List.mem_of_getElem? listed) belowMember
        refine ⟨along?_cons_eq_some_iff.mpr ⟨child, _, listed, leads, rfl⟩, ?_⟩
        exact List.forall_mem_cons.mpr ⟨current, others⟩

/-- A live path is that of a place. -/
theorem exists_place_of_isLive {root : Field} {path : List Nat} (live : root.IsLive path) :
    ∃ place ∈ root.places, place.positions = path := by
  obtain ⟨nonempty, fields, leads, current⟩ := live
  induction path generalizing root fields with
  | nil => exact absurd rfl nonempty
  | cons position rest inductionHypothesis =>
      obtain ⟨child, below, listed, leadsBelow, rfl⟩ := along?_cons_eq_some_iff.mp leads
      obtain ⟨first, others⟩ := List.forall_mem_cons.mp current
      cases rest with
      | nil =>
          exact ⟨⟨[], position, child⟩,
            mem_places.mpr ⟨position, child, listed, first, .inl rfl⟩, rfl⟩
      | cons next after =>
          obtain ⟨place, member, same⟩ :=
            inductionHypothesis (List.cons_ne_nil next after) below leadsBelow others
          refine ⟨place.under position child, ?_, congrArg (position :: ·) same⟩
          exact mem_places.mpr ⟨position, child, listed, first, .inr ⟨place, member, rfl⟩⟩

/-- The names of some fields, each with its marker and a dot after it. -/
def dottedPath (above : List Field) : String :=
  String.join (above.map fun parent => parent.name ++ parent.kind.marker ++ ".")

/-- The fields below others are listed under the dotted path of these. -/
theorem pathBelow_eq_append (path : String) (above : List Field) :
    Place.pathBelow path above = path ++ dottedPath above := by
  induction above generalizing path with
  | nil => exact String.append_empty.symm
  | cons field rest inductionHypothesis =>
      rw [dottedPath, List.map_cons, String.join_cons]
      refine (inductionHypothesis (childPath path field.toFieldInfo)).trans ?_
      simp only [childPath, dottedPath, String.append_assoc]

/-- The entries of a reference stand one for one for the live paths, in the order of the paths:
a field before the fields below it, and siblings in declared order. The entry of a path is about
the field at its end, and its full name has the dotted path of the fields above before the name
of this field. -/
theorem reference_lists_live_paths (root : Field) :
    ∃ paths : List (List Nat), paths.Pairwise (· < ·) ∧
      (∀ path, path ∈ paths ↔ root.IsLive path) ∧
      List.Forall₂ (fun path entry => ∃ above field,
        root.along? path = some (above ++ [field]) ∧
          entry = ReferenceEntry.ofInfo (dottedPath above) field.toFieldInfo ∧
          entry.fullName = dottedPath above ++ field.name) paths root.reference := by
  refine ⟨root.places.map (·.positions), ?_, fun path => ?_, ?_⟩
  · exact List.pairwise_map.mpr root.places_pairwise
  · rw [List.mem_map]
    constructor
    · rintro ⟨place, member, rfl⟩
      exact ⟨place.positions_ne_nil, _, along?_positions member⟩
    · exact exists_place_of_isLive
  · rw [reference_eq_map, List.forall₂_map_left_iff, List.forall₂_map_right_iff,
      List.forall₂_same]
    intro place member
    have listedUnder : place.entry "" =
        .ofInfo (dottedPath (place.above.map Prod.snd)) place.field.toFieldInfo := by
      rw [Place.entry, pathBelow_eq_append, String.empty_append]
    exact ⟨place.above.map Prod.snd, place.field, (along?_positions member).1, listedUnder,
      congrArg ReferenceEntry.fullName listedUnder⟩

end Field

end FieldGuide
