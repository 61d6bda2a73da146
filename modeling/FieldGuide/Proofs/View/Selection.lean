import FieldGuide.Proofs.View.Entries

/-!
# A walked mapping, field by field

The walk goes through a mapping entry by entry, looks up the field of each, and puts what it
keeps in order afterwards. This module says what a mapping shows from the side of the fields:
each revealed child, in declared order, takes the entries of its name, and the entries that no
child takes come last. A child that shares its name with an earlier sibling takes none.
-/

namespace FieldGuide

/-- The children that are the first of their names, in declared order. -/
def Field.leaders (parent : Field) : List Field :=
  (parent.children.zipIdx.filter fun (child, position) => parent.firstAt position child.name).map
    Prod.fst

namespace View

/-- What a child shows of a mapping: the entries of its name in their order, with walked
values. Values without entries are left out when the filter does not select the child. -/
def entriesOf (view : View) (entries : List (String × Tree)) (child : Field) :
    List (String × Tree) :=
  ((entries.filter fun entry => entry.1 == child.name).map fun entry =>
    (entry.1, view.walk child.kind child entry.2)).filter fun entry =>
      view.filter.selects child || entry.2.isPopulated

/-- The entries of a mapping that no child takes, as they are and in their order. The type key
is left out when the options remove it and no child has its name. -/
def unclaimedEntries (view : View) (parent : Field) (entries : List (String × Tree)) :
    List (String × Tree) :=
  entries.filter fun entry =>
    !parent.declares entry.1 &&
      !(view.options.removeTypeField && !parent.declares view.options.typeField &&
        entry.1 == view.options.typeField)

variable {view : View} {parent child : Field} {entries : List (String × Tree)} {position : Nat}

/-- The entries at the rank of a child that is the first of its name are those of its
name. -/
theorem filter_rank_of_lookup (declared : parent.lookup? child.name = some (position, child)) :
    (entries.filter fun entry => parent.rank entry.1 = position) =
      entries.filter fun entry => entry.1 == child.name := by
  have ranked : parent.rank child.name = position := by rw [Field.rank, declared]
  have found : parent.lookup? child.name ≠ none := by simp [declared]
  apply List.filter_congr
  intro entry _
  rw [Bool.eq_iff_iff, decide_eq_true_iff, beq_iff_eq]
  constructor
  · intro here
    have belowAll : parent.rank entry.1 < parent.children.length := by
      rw [here, ← ranked]
      exact Field.rank_lt_iff.mpr found
    exact Field.eq_of_rank_eq (Field.rank_lt_iff.mp belowAll) found (here.trans ranked.symm)
  · intro named
    rw [named, ranked]

/-- No entry has the rank of a child that shares its name with an earlier sibling. -/
theorem filter_rank_of_shadowed (listed : parent.children[position]? = some child)
    (shadowed : parent.firstAt position child.name = false) :
    (entries.filter fun entry => parent.rank entry.1 = position) = [] := by
  rw [List.filter_eq_nil_iff]
  intro entry _ here
  rw [decide_eq_true_iff] at here
  have belowAll : parent.rank entry.1 < parent.children.length := by
    rw [here]
    exact (List.getElem?_eq_some_iff.mp listed).1
  obtain ⟨⟨place, found⟩, declared⟩ :=
    Option.ne_none_iff_exists'.mp (Field.rank_lt_iff.mp belowAll)
  obtain rfl : place = position := by rw [← here, Field.rank, declared]
  obtain ⟨foundListed, named, first⟩ := Field.lookup?_eq_some_iff.mp declared
  obtain rfl : found = child := Option.some.inj (foundListed.symm.trans listed)
  rw [named, first] at shadowed
  exact Bool.noConfusion shadowed

/-- What is shown of the entries that name a child is what the child shows of the mapping, if
it is revealed. -/
theorem filterMap_shown?_of_name (declared : parent.lookup? child.name = some (position, child)) :
    (entries.filter fun entry => entry.1 == child.name).filterMap (view.shown? parent) =
      if view.filter.reveals child then view.entriesOf entries child else [] := by
  have shows (entry : String × Tree) (member : entry ∈ entries.filter (·.1 == child.name)) :
      view.shown? parent entry =
        if view.filter.reveals child then
          Option.guard (fun entry => view.keeps child entry.2)
            (entry.1, view.walk child.kind child entry.2)
        else none := by
    have named : entry.1 = child.name := by simpa using (List.mem_filter.mp member).2
    rw [shown?_of_declared (named ▸ declared), Option.guard]
    cases view.filter.reveals child <;> rfl
  rw [List.filterMap_congr shows]
  cases view.filter.reveals child with
  | false => exact List.filterMap_eq_nil_iff.mpr fun _ _ => rfl
  | true =>
      simp only [if_true]
      rw [entriesOf]
      exact List.filterMap_map.symm.trans (congrFun List.filterMap_eq_filter _)

/-- The entries that rank after all children are shown unless their key is removed. -/
theorem filterMap_shown?_of_last :
    (entries.filter fun entry => parent.rank entry.1 = parent.children.length).filterMap
        (view.shown? parent) = view.unclaimedEntries parent entries := by
  have undeclared : ∀ entry ∈ entries.filter
      (fun entry => parent.rank entry.1 = parent.children.length),
      parent.lookup? entry.1 = none := by
    intro entry member
    exact Field.rank_eq_length_iff.mp (by simpa using (List.mem_filter.mp member).2)
  rw [filterMap_shown?_of_undeclared undeclared, List.filter_filter, unclaimedEntries]
  apply List.filter_congr
  intro entry _
  have lastRank : decide (parent.rank entry.1 = parent.children.length) =
      !parent.declares entry.1 := by
    rw [Bool.eq_iff_iff, decide_eq_true_iff, Field.rank_eq_length_iff, Field.lookup?_eq_none_iff,
      Bool.not_eq_true']
  rw [lastRank, ViewOptions.strips]
  by_cases named : entry.1 = view.options.typeField
  · rw [named]
    cases parent.declares view.options.typeField <;> simp
  · simp [beq_false_of_ne named]

/-- A walked mapping shows, for each revealed child in declared order that is the first of its
name, the entries of that name with walked values, and then the entries of undeclared keys. -/
theorem arrange_walkEntries_by_field (view : View) (parent : Field)
    (entries : List (String × Tree)) :
    arrange (view.walkEntries parent entries) =
      (parent.leaders.filter view.filter.reveals).flatMap (view.entriesOf entries) ++
        view.unclaimedEntries parent entries := by
  have inRange : ∀ entry ∈ entries.filterMap (view.shown? parent),
      parent.rank entry.1 < parent.children.length + 1 :=
    fun entry _ => Nat.lt_succ_of_le (parent.rank_le entry.1)
  have ofPosition : ∀ place ∈ parent.children.zipIdx,
      (entries.filter fun entry => parent.rank entry.1 = place.2).filterMap (view.shown? parent) =
        if view.filter.reveals place.1 && parent.firstAt place.2 place.1.name then
          view.entriesOf entries place.1
        else [] := by
    rintro ⟨child, position⟩ member
    have listed := List.mem_zipIdx_iff_getElem?.mp member
    cases first : parent.firstAt position child.name with
    | false =>
        rw [filter_rank_of_shadowed listed first]
        simp
    | true =>
        have declared := Field.lookup?_eq_some_iff.mpr ⟨listed, rfl, first⟩
        rw [filter_rank_of_lookup declared, filterMap_shown?_of_name declared]
        simp
  have positions : List.range parent.children.length = parent.children.zipIdx.map Prod.snd := by
    rw [List.zipIdx_map_snd, List.range_eq_range']
  rw [arrange_walkEntries, shownEntries, orderedBy_eq_flatMap inRange, List.range_succ,
    List.flatMap_append, List.flatMap_singleton]
  simp only [filter_filterMap_shown?]
  rw [filterMap_shown?_of_last, positions, List.flatMap_map, List.flatMap_congr ofPosition,
    ← flatMap_filter, Field.leaders, List.filter_map, List.flatMap_map, List.filter_filter]
  rfl

end View
end FieldGuide
