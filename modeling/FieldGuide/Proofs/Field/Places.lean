import FieldGuide.Proofs.Field.Redaction

/-!
# Places of fields

A reference lists fields by what they say and leaves out where they stand: two entries may
have the same text and still be about different fields. `Field.places` lists the places
instead, each as the chain of fields that leads to it with their positions among their
siblings. The entries of a reference are those of the places, in the same order, and the
places stand in the order of their positions.
-/

namespace FieldGuide

namespace Field

/-- Where a field stands below a root: the fields on the way down to it and the field itself,
each with its position among its siblings. -/
structure Place where
  above : List (Nat × Field)
  position : Nat
  field : Field

namespace Place

/-- A place below a child, as a place below the parent of the child. -/
def under (position : Nat) (child : Field) (place : Place) : Place :=
  { place with above := (position, child) :: place.above }

/-- The positions that lead from the root to the field. -/
def positions (place : Place) : List Nat := place.above.map Prod.fst ++ [place.position]

/-- Positions lead to every place. -/
theorem positions_ne_nil (place : Place) : place.positions ≠ [] := by
  simp [positions]

/-- The dotted path under which the children of the last of some fields are listed. -/
def pathBelow (path : String) (above : List Field) : String :=
  above.foldl (fun path field => childPath path field.toFieldInfo) path

/-- The entry of a place in the reference of a root that is listed under a path. -/
def entry (path : String) (place : Place) : ReferenceEntry :=
  .ofInfo (pathBelow path (place.above.map Prod.snd)) place.field.toFieldInfo

end Place

mutual

/-- The places below a field that no deprecated field leads to, a field's own place before
those below it. -/
def places : Field → List Place
  | ⟨_, children⟩ => placesAmong 0 children

/-- The places of siblings and of the fields below them; the first of the siblings stands at
`position`. -/
def placesAmong (position : Nat) : List Field → List Place
  | [] => []
  | field :: rest =>
      (if field.isDeprecated then []
        else ⟨[], position, field⟩ :: (places field).map (Place.under position field)) ++
        placesAmong (position + 1) rest

end

/-- The places at or below one child. -/
def placesAt (link : Field × Nat) : List Place :=
  if link.1.isDeprecated then []
  else ⟨[], link.2, link.1⟩ :: link.1.places.map (Place.under link.2 link.1)

/-- The places below a field are those at or below its children. -/
theorem places_eq_flatMap (field : Field) :
    field.places = field.children.zipIdx.flatMap placesAt := by
  have among (fields : List Field) (position : Nat) :
      placesAmong position fields = (fields.zipIdx position).flatMap placesAt := by
    induction fields generalizing position with
    | nil => rfl
    | cons field rest inductionHypothesis =>
        rw [placesAmong, inductionHypothesis, List.zipIdx_cons, List.flatMap_cons, placesAt]
  obtain ⟨info, children⟩ := field
  exact among children 0

/-- A place below a field is that of a child or lies below one, and no deprecated child
leads to it. -/
theorem mem_places {field : Field} {place : Place} :
    place ∈ field.places ↔ ∃ position child, field.children[position]? = some child ∧
      child.isDeprecated = false ∧
      (place = ⟨[], position, child⟩ ∨
        ∃ below ∈ child.places, below.under position child = place) := by
  rw [places_eq_flatMap, List.mem_flatMap]
  constructor
  · rintro ⟨⟨child, position⟩, linked, member⟩
    rw [placesAt] at member
    split at member
    · cases member
    · next current =>
        refine ⟨position, child, List.mem_zipIdx_iff_getElem?.mp linked, by simpa using current, ?_⟩
        exact (List.mem_cons.mp member).imp_right List.mem_map.mp
  · rintro ⟨position, child, listed, current, member⟩
    refine ⟨(child, position), List.mem_zipIdx_iff_getElem?.mpr listed, ?_⟩
    rw [placesAt, if_neg (by simp [current]), List.mem_cons, List.mem_map]
    exact member

/-- What holds of the fields of all places holds of the children that are not deprecated and of
the fields of the places below them. -/
theorem forall_field_places {motive : Field → Prop} (root : Field) :
    (∀ field ∈ root.places.map (·.field), motive field) ↔
      ∀ child ∈ root.children, child.isDeprecated = false →
        ∀ field ∈ child :: child.places.map (·.field), motive field := by
  simp only [List.forall_mem_map, List.forall_mem_cons]
  constructor
  · intro all child member current
    obtain ⟨position, listed⟩ := List.mem_iff_getElem?.mp member
    refine ⟨all ⟨[], position, child⟩ ?_, fun below belowMember =>
      all (below.under position child) ?_⟩
    · exact mem_places.mpr ⟨position, child, listed, current, .inl rfl⟩
    · exact mem_places.mpr ⟨position, child, listed, current, .inr ⟨below, belowMember, rfl⟩⟩
  · intro all place member
    obtain ⟨position, child, listed, current, stands⟩ := mem_places.mp member
    obtain ⟨own, others⟩ := all child (List.mem_of_getElem? listed) current
    rcases stands with rfl | ⟨below, belowMember, rfl⟩
    · exact own
    · exact others below belowMember

mutual

/-- What is listed under a path for the children of a field are the entries of the places
below it. -/
theorem referenceList_children (path : String) :
    ∀ field : Field, referenceList path field.children = field.places.map (Place.entry path)
  | ⟨_, children⟩ => by
      rw [places]
      exact referenceList_eq_map path 0 children

/-- What is listed under a path for siblings are the entries of their places and of those
below them. -/
theorem referenceList_eq_map (path : String) (position : Nat) :
    ∀ fields : List Field,
      referenceList path fields = (placesAmong position fields).map (Place.entry path)
  | [] => rfl
  | ⟨info, children⟩ :: rest => by
      rw [referenceList, referenceEntries, placesAmong, List.map_append,
        referenceList_eq_map path (position + 1) rest]
      congr 1
      cases info.isDeprecated with
      | true => rfl
      | false =>
          have below := referenceList_children (childPath path info) ⟨info, children⟩
          simp only [Bool.false_eq_true, if_false, List.map_cons, List.map_map]
          exact congrArg (_ :: ·) below

end

/-- The entries of a reference are those of the places below the root. -/
theorem reference_eq_map (root : Field) : root.reference = root.places.map (Place.entry "") :=
  referenceList_children "" root

/-- Positions that go on from a common start are ordered as their ends are. -/
theorem append_lt_append_iff {start first second : List Nat} :
    start ++ first < start ++ second ↔ first < second := by
  induction start with
  | nil => rfl
  | cons position start inductionHypothesis =>
      rw [List.cons_append, List.cons_append, List.cons_lt_cons_self, inductionHypothesis]

/-- The positions of what is at or below a child start with that of the child. -/
theorem positions_of_mem_placesAt {child : Field} {position : Nat} {place : Place}
    (member : place ∈ placesAt (child, position)) :
    ∃ rest, place.positions = position :: rest := by
  rw [placesAt] at member
  split at member
  · cases member
  · rcases List.mem_cons.mp member with rfl | below
    · exact ⟨[], rfl⟩
    · obtain ⟨place, -, rfl⟩ := List.mem_map.mp below
      exact ⟨place.positions, rfl⟩

/-- The places below a field stand in the order of their positions: a field before what is
below it, and siblings in declared order. -/
theorem places_pairwise (field : Field) :
    field.places.Pairwise fun first second => first.positions < second.positions := by
  induction field using Field.induction with
  | step field inductionHypothesis =>
      rw [places_eq_flatMap, List.pairwise_flatMap]
      constructor
      · rintro ⟨child, position⟩ linked
        have listed := List.mem_of_getElem? (List.mem_zipIdx_iff_getElem?.mp linked)
        rw [placesAt]
        split
        · exact .nil
        · rw [List.pairwise_cons, List.pairwise_map]
          constructor
          · intro place below
            obtain ⟨place, -, rfl⟩ := List.mem_map.mp below
            obtain ⟨first, rest, same⟩ := List.exists_cons_of_ne_nil place.positions_ne_nil
            have after : [] < place.positions := same ▸ List.nil_lt_cons first rest
            exact List.cons_lt_cons_self.mpr after
          · exact (inductionHypothesis child listed).imp List.cons_lt_cons_self.mpr
      · have inOrder (fields : List Field) (start : Nat) :
            (fields.zipIdx start).Pairwise fun first second => first.2 < second.2 := by
          induction fields generalizing start with
          | nil => exact .nil
          | cons field rest inductionHypothesis =>
              exact .cons (fun _ later => List.le_snd_of_mem_zipIdx later)
                (inductionHypothesis (start + 1))
        refine (inOrder field.children 0).imp fun before first firstAt second secondAt => ?_
        obtain ⟨firstRest, firstSame⟩ := positions_of_mem_placesAt firstAt
        obtain ⟨secondRest, secondSame⟩ := positions_of_mem_placesAt secondAt
        rw [firstSame, secondSame]
        exact List.cons_lt_cons_iff.mpr (.inl before)

/-- Whether a reference has the entry of a place at an index. -/
def Lists (root : Field) (index : Nat) (place : Place) : Prop :=
  root.places[index]? = some place ∧ root.reference[index]? = some (place.entry "")

/-- The entry of a place has the index of the place. -/
theorem exists_lists {root : Field} {place : Place} (member : place ∈ root.places) :
    ∃ index, root.Lists index place := by
  obtain ⟨index, listed⟩ := List.mem_iff_getElem?.mp member
  refine ⟨index, listed, ?_⟩
  rw [reference_eq_map, List.getElem?_map, listed, Option.map_some]

/-- Entries are listed in the order of the positions that lead to their fields. -/
theorem Lists.lt {root : Field} {index later : Nat} {first second : Place}
    (firstListed : root.Lists index first) (secondListed : root.Lists later second)
    (before : first.positions < second.positions) : index < later := by
  obtain ⟨bound, firstAt⟩ := List.getElem?_eq_some_iff.mp firstListed.1
  obtain ⟨laterBound, secondAt⟩ := List.getElem?_eq_some_iff.mp secondListed.1
  refine Nat.lt_of_not_le fun notBefore => ?_
  rcases Nat.lt_or_eq_of_le notBefore with after | same
  · have order :=
      List.pairwise_iff_getElem.mp root.places_pairwise later index laterBound bound after
    rw [firstAt, secondAt] at order
    exact List.lt_asymm order before
  · subst same
    rw [firstAt.symm.trans secondAt] at before
    exact List.lt_irrefl _ before

/-- The declared fields that a chain of names leads to, with their positions. -/
def chain? (field : Field) : List String → Option (List (Nat × Field))
  | [] => some []
  | name :: rest =>
      (field.lookup? name).bind fun link => (link.2.chain? rest).map (link :: ·)

/-- A declared field has a place below the root of a chain that leads to its parent, when no
field on the way is deprecated. -/
theorem mem_places_of_chain {root parent child : Field} {names : List String} {key : String}
    {links : List (Nat × Field)} {position : Nat} (leads : root.chain? names = some links)
    (ends : ((links.map Prod.snd).getLast?.getD root) = parent)
    (declared : parent.lookup? key = some (position, child))
    (current : ∀ field ∈ links.map Prod.snd, field.isDeprecated = false)
    (childCurrent : child.isDeprecated = false) : ⟨links, position, child⟩ ∈ root.places := by
  induction names generalizing root links with
  | nil =>
      obtain rfl := Option.some.inj leads
      obtain rfl : root = parent := ends
      exact mem_places.mpr
        ⟨position, child, (getElem?_of_lookup declared).1, childCurrent, .inl rfl⟩
  | cons name rest inductionHypothesis =>
      obtain ⟨link, found, goesOn⟩ := Option.bind_eq_some_iff.mp leads
      obtain ⟨below, leadsBelow, rfl⟩ := Option.map_eq_some_iff.mp goesOn
      obtain ⟨first, others⟩ := List.forall_mem_cons.mp current
      refine mem_places.mpr ⟨link.1, link.2, (getElem?_of_lookup found).1, first,
        .inr ⟨⟨below, position, child⟩, ?_, rfl⟩⟩
      refine inductionHypothesis leadsBelow ?_ others
      rw [← ends, List.map_cons, List.getLast?_cons]
      rfl

end Field

end FieldGuide
