import FieldGuide.View.Basic

/-!
# What filters reveal

A filter looks at a field's own flags to select it, and at the fields below it to
reveal it. This module describes both tests by the flags of a field and the tests of
its children, and says what a view does with a key by looking the key up.
-/

namespace FieldGuide

namespace Filter

/-- The narrower of two filters: the advanced one only when both are. -/
def narrower : Filter → Filter → Filter
  | .advanced, .advanced => .advanced
  | _, _ => .common

/-- The advanced filter selects what is not deprecated. -/
theorem selects_advanced (field : Field) : advanced.selects field = !field.isDeprecated := rfl

/-- The common filter selects what is neither advanced nor deprecated. -/
theorem selects_common (field : Field) :
    common.selects field = (!field.isAdvanced && !field.isDeprecated) := rfl

/-- A selected field is not deprecated. -/
theorem not_deprecated_of_selects {filter : Filter} {field : Field}
    (selected : filter.selects field = true) : field.isDeprecated = false := by
  cases filter with
  | common =>
      rw [selects_common, Bool.and_eq_true] at selected
      simpa using selected.2
  | advanced => simpa [selects_advanced] using selected

/-- One of a list of fields is revealed when some field of the list is. -/
theorem revealsAny_eq_any (filter : Filter) (fields : List Field) :
    filter.revealsAny fields = fields.any filter.reveals := by
  induction fields with
  | nil => rfl
  | cons field rest inductionHypothesis =>
      rw [revealsAny, inductionHypothesis, List.any_cons]

/-- A field is revealed by its own flags or by a child, unless it is deprecated. -/
theorem reveals_eq (filter : Filter) (field : Field) :
    filter.reveals field =
      (!field.isDeprecated && (filter.selects field || field.children.any filter.reveals)) := by
  cases field
  rw [reveals, revealsAny_eq_any]

/-- A revealed field is not deprecated. -/
theorem not_deprecated_of_reveals {filter : Filter} {field : Field}
    (revealed : filter.reveals field = true) : field.isDeprecated = false := by
  rw [reveals_eq, Bool.and_eq_true] at revealed
  simpa using revealed.1

/-- A selected field is revealed. -/
theorem reveals_of_selects {filter : Filter} {field : Field}
    (selected : filter.selects field = true) : filter.reveals field = true := by
  simp [reveals_eq, selected, not_deprecated_of_selects selected]

/-- A field that is not deprecated is revealed along with any of its children. -/
theorem reveals_of_child {filter : Filter} {field child : Field}
    (current : field.isDeprecated = false) (member : child ∈ field.children)
    (revealed : filter.reveals child = true) : filter.reveals field = true := by
  have below : field.children.any filter.reveals = true :=
    List.any_eq_true.mpr ⟨child, member, revealed⟩
  simp [reveals_eq, current, below]

/-- The advanced filter reveals exactly what it selects. -/
theorem reveals_advanced (field : Field) : advanced.reveals field = !field.isDeprecated := by
  rw [reveals_eq, selects_advanced]
  cases field.isDeprecated <;> rfl

/-- A field without children is revealed exactly when it is selected. -/
theorem reveals_of_childless {filter : Filter} {field : Field} (childless : field.children = []) :
    filter.reveals field = filter.selects field := by
  rw [reveals_eq, childless, List.any_nil, Bool.or_false]
  cases selected : filter.selects field with
  | false => rw [Bool.and_false]
  | true => simp [not_deprecated_of_selects selected]

end Filter

namespace Field

section Lookup

variable {parent child : Field} {key other : String} {position : Nat}

/-- Whether a child has a name. -/
def declares (parent : Field) (key : String) : Bool :=
  parent.children.any fun child => child.name == key

/-- Whether no child before a position has a name. -/
def firstAt (parent : Field) (position : Nat) (key : String) : Bool :=
  (parent.children.take position).all fun earlier => earlier.name != key

/-- Looking a name up finds the first child of the name. -/
theorem lookup?_eq_some_iff : parent.lookup? key = some (position, child) ↔
    parent.children[position]? = some child ∧ child.name = key ∧
      parent.firstAt position key = true := by
  have swapped : parent.lookup? key = some (position, child) ↔
      parent.children.zipIdx.find? (fun place => place.1.name == key) =
        some (child, position) := by
    rw [lookup?, Option.map_eq_some_iff]
    constructor
    · rintro ⟨place, found, same⟩
      cases same
      exact found
    · intro found
      exact ⟨(child, position), found, rfl⟩
  rw [swapped, List.find?_eq_some_iff_getElem]
  constructor
  · rintro ⟨named, index, inRange, listed, before⟩
    rw [List.getElem_zipIdx, Nat.zero_add, Prod.mk.injEq] at listed
    obtain ⟨rfl, rfl⟩ := listed
    rw [List.length_zipIdx] at inRange
    refine ⟨List.getElem?_eq_getElem inRange, by simpa using named, ?_⟩
    rw [firstAt, List.all_eq_true]
    intro earlier member
    obtain ⟨place, within, rfl⟩ := List.mem_take_iff_getElem.mp member
    have others := before place (by omega)
    rw [List.getElem_zipIdx] at others
    exact others
  · rintro ⟨listed, rfl, first⟩
    obtain ⟨inRange, rfl⟩ := List.getElem?_eq_some_iff.mp listed
    refine ⟨by simp, position, by simpa using inRange, by simp, fun place before => ?_⟩
    rw [firstAt, List.all_eq_true] at first
    rw [List.getElem_zipIdx]
    exact first _ (List.mem_take_iff_getElem.mpr ⟨place, by omega, rfl⟩)

/-- Looking a name up finds nothing when no child has it. -/
theorem lookup?_eq_none_iff : parent.lookup? key = none ↔ parent.declares key = false := by
  rw [lookup?, Option.map_eq_none_iff, List.find?_eq_none, declares, List.any_eq_false]
  constructor
  · intro absent child member
    obtain ⟨position, listed⟩ := List.mem_iff_getElem?.mp member
    exact absent (child, position) (List.mem_zipIdx_iff_getElem?.mpr listed)
  · rintro absent ⟨child, position⟩ member
    exact absent child (List.mem_of_getElem? (List.mem_zipIdx_iff_getElem?.mp member))

/-- A field found by name has the name and stands at its position among the children. -/
theorem getElem?_of_lookup (declared : parent.lookup? key = some (position, child)) :
    parent.children[position]? = some child ∧ child.name = key := by
  obtain ⟨listed, named, -⟩ := lookup?_eq_some_iff.mp declared
  exact ⟨listed, named⟩

/-- A field found by name is one of the children. -/
theorem mem_children_of_lookup (declared : parent.lookup? key = some (position, child)) :
    child ∈ parent.children :=
  List.mem_of_getElem? (getElem?_of_lookup declared).1

/-- The rank of a key among the entries of a mapping: the position of the field it
names, or one after all fields. -/
def rank (parent : Field) (key : String) : Nat :=
  match parent.lookup? key with
  | none => parent.children.length
  | some (position, _) => position

/-- Exactly the declared keys have a rank among the fields. -/
theorem rank_lt_iff : parent.rank key < parent.children.length ↔ parent.lookup? key ≠ none := by
  cases found : parent.lookup? key with
  | none => simp [rank, found]
  | some declared =>
      have listed := (getElem?_of_lookup found).1
      simpa [rank, found] using (List.getElem?_eq_some_iff.mp listed).1

/-- No key has a rank past the one after all fields. -/
theorem rank_le (parent : Field) (key : String) : parent.rank key ≤ parent.children.length := by
  cases found : parent.lookup? key with
  | none => simp [rank, found]
  | some declared => exact Nat.le_of_lt (rank_lt_iff.mpr (by simp [found]))

/-- Exactly the keys that no field declares have the rank after all fields. -/
theorem rank_eq_length_iff : parent.rank key = parent.children.length ↔
    parent.lookup? key = none := by
  have declared := @rank_lt_iff parent key
  cases found : parent.lookup? key with
  | none => simp [rank, found]
  | some place =>
      have below := declared.mpr (by simp [found])
      simp [Nat.ne_of_lt below]

/-- A declared key is the name of the field at its rank. -/
theorem name_at_rank (declared : parent.lookup? key ≠ none) :
    parent.children[parent.rank key]?.map (·.name) = some key := by
  obtain ⟨⟨position, child⟩, found⟩ := Option.ne_none_iff_exists'.mp declared
  obtain ⟨listed, named⟩ := getElem?_of_lookup found
  simp only [rank, found, listed, Option.map_some, named]

/-- Declared keys of one rank are the same. -/
theorem eq_of_rank_eq (declared : parent.lookup? key ≠ none)
    (otherDeclared : parent.lookup? other ≠ none) (same : parent.rank key = parent.rank other) :
    key = other := by
  have named := name_at_rank declared
  rw [same, name_at_rank otherDeclared] at named
  exact (Option.some.inj named).symm

end Lookup

end Field

/-- Whether a key is removed where no field declares it. -/
def ViewOptions.strips (options : ViewOptions) (key : String) : Bool :=
  options.removeTypeField && key == options.typeField

namespace View

/-- A declared key is placed when its field is revealed, whatever the options. -/
theorem treatment_of_declared {view : View} {parent child : Field} {key : String}
    {position : Nat} (declared : parent.lookup? key = some (position, child)) :
    view.treatment parent key =
      if view.filter.reveals child then .place position child else .hide := by
  have kept : (view.removesType parent && key == view.options.typeField) = false := by
    by_cases named : key = view.options.typeField
    · simp [removesType, Field.child?, ← named, declared]
    · simp [named]
  simp only [treatment, kept, Bool.false_eq_true, if_false, declared]

/-- An undeclared key is kept unless the options remove it. -/
theorem treatment_of_undeclared {view : View} {parent : Field} {key : String}
    (undeclared : parent.lookup? key = none) :
    view.treatment parent key =
      if view.options.strips key then .removeType else .keepUndeclared := by
  by_cases named : key = view.options.typeField
  · simp [treatment, removesType, Field.child?, ViewOptions.strips, ← named, undeclared]
  · simp [treatment, ViewOptions.strips, named, undeclared]

end View

end FieldGuide
