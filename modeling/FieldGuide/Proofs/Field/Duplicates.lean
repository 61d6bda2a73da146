import FieldGuide.Proofs.Field.Paths
import Mathlib.Data.List.Lex

/-!
# Names declared twice

A key is looked up among siblings by the first of them that has its name, so that a later one of
the same name is never found. The search for a name declared twice reports nothing exactly when
no field of the tree is hidden in this way, and otherwise it reports the first field, in the
order of the tree, whose name a later sibling has again. Paths of positions tell fields of the
same name apart, and their order is that of the tree: a path stands before those that go on from
it, and these before the paths through later siblings.
-/

namespace FieldGuide

namespace Field

/-- Whether a field is the root of a tree or stands below it. -/
def Contains (root field : Field) : Prop :=
  ∃ path fields, root.along? path = some fields ∧ field ∈ root :: fields

/-- A tree contains its root. -/
theorem contains_self (root : Field) : root.Contains root :=
  ⟨[], [], rfl, List.mem_cons_self⟩

/-- Below its root, a tree contains what the trees of the children contain. -/
theorem contains_of_child {root child field : Field} (member : child ∈ root.children)
    (inside : child.Contains field) : root.Contains field := by
  obtain ⟨path, fields, leads, stands⟩ := inside
  obtain ⟨position, listed⟩ := List.mem_iff_getElem?.mp member
  refine ⟨position :: path, child :: fields, ?_, List.mem_cons_of_mem root stands⟩
  exact along?_cons_eq_some_iff.mpr ⟨child, fields, listed, leads, rfl⟩

/-- A field of a tree is its root or in the tree of a child. -/
theorem Contains.eq_or_below {root field : Field} (inside : root.Contains field) :
    field = root ∨ ∃ child ∈ root.children, child.Contains field := by
  obtain ⟨path, fields, leads, stands⟩ := inside
  refine (List.mem_cons.mp stands).imp_right fun below => ?_
  cases path with
  | nil =>
      obtain rfl := Option.some.inj leads
      cases below
  | cons position rest =>
      obtain ⟨child, others, listed, goesOn, rfl⟩ := along?_cons_eq_some_iff.mp leads
      exact ⟨child, List.mem_of_getElem? listed, rest, others, goesOn, below⟩

/-- No name is declared twice among siblings exactly when the children have different names and
none is declared twice below a child. -/
theorem duplicatePath?_eq_none_iff (field : Field) :
    field.duplicatePath? = none ↔
      (field.children.map (·.name)).Nodup ∧
        ∀ child ∈ field.children, child.duplicatePath? = none := by
  have among (fields : List Field) : duplicatePathAmong? fields = none ↔
      (fields.map (·.name)).Nodup ∧ ∀ child ∈ fields, child.duplicatePath? = none := by
    induction fields with
    | nil => simp [duplicatePathAmong?]
    | cons child siblings inductionHypothesis =>
        have repeats : (siblings.any fun sibling => sibling.name == child.name) = true ↔
            child.name ∈ siblings.map (·.name) := by
          simp
        rw [duplicatePathAmong?, List.map_cons, List.nodup_cons, List.forall_mem_cons, ← repeats]
        split
        · next repeated => simp [repeated]
        · next once =>
            cases child.duplicatePath? with
            | none => simpa [once] using inductionHypothesis
            | some path => simp
  obtain ⟨info, children⟩ := field
  exact among children

/-- Whether no two children of a field of the tree have the same name. -/
def HasUniqueNames (root : Field) : Prop :=
  ∀ parent, root.Contains parent → (parent.children.map (·.name)).Nodup

/-- The search for a name declared twice finds none exactly in a tree of unique names. -/
theorem duplicatePath?_eq_none_iff_unique (root : Field) :
    root.duplicatePath? = none ↔ root.HasUniqueNames := by
  induction root using Field.induction with
  | step root inductionHypothesis =>
      rw [duplicatePath?_eq_none_iff]
      constructor
      · rintro ⟨names, below⟩ parent inside
        rcases inside.eq_or_below with rfl | ⟨child, member, insideChild⟩
        · exact names
        · exact (inductionHypothesis child member).mp (below child member) parent insideChild
      · intro unique
        refine ⟨unique root root.contains_self, fun child member => ?_⟩
        refine (inductionHypothesis child member).mpr fun parent inside => ?_
        exact unique parent (contains_of_child member inside)

/-- Whether looking up the name of any child finds that child. -/
def FindsChildren (parent : Field) : Prop :=
  ∀ position child, parent.children[position]? = some child →
    parent.lookup? child.name = some (position, child)

/-- Every child is found by its name exactly when the children have different names. -/
theorem findsChildren_iff_nodup (parent : Field) :
    parent.FindsChildren ↔ (parent.children.map (·.name)).Nodup := by
  have pairwise : (parent.children.map (·.name)).Nodup ↔
      parent.children.Pairwise fun left right => left.name ≠ right.name := List.pairwise_map
  rw [pairwise, List.pairwise_iff_getElem]
  constructor
  · intro finds first later firstBound laterBound before
    have found := finds later _ (List.getElem?_eq_getElem laterBound)
    have noneBefore := (lookup?_eq_some_iff.mp found).2.2
    rw [firstAt, List.all_eq_true] at noneBefore
    have taken : parent.children[first] ∈ parent.children.take later :=
      List.mem_take_iff_getElem.mpr ⟨first, by omega, rfl⟩
    simpa using noneBefore _ taken
  · intro differ position child listed
    refine lookup?_eq_some_iff.mpr ⟨listed, rfl, ?_⟩
    rw [firstAt, List.all_eq_true]
    intro earlier taken
    obtain ⟨place, bound, rfl⟩ := List.mem_take_iff_getElem.mp taken
    obtain ⟨inRange, rfl⟩ := List.getElem?_eq_some_iff.mp listed
    simpa using differ place position (by omega) inRange (by omega)

/-- Whether a path leads from some siblings to a field whose name a later sibling of it has
again. -/
inductive RepeatsAmong : List Field → List Nat → Prop
  | again {siblings : List Field} {position later : Nat} {child twin : Field}
      (listed : siblings[position]? = some child) (after : position < later)
      (listedLater : siblings[later]? = some twin) (same : twin.name = child.name) :
      RepeatsAmong siblings [position]
  | deeper {siblings : List Field} {position : Nat} {child : Field} {rest : List Nat}
      (listed : siblings[position]? = some child) (inside : RepeatsAmong child.children rest) :
      RepeatsAmong siblings (position :: rest)

section Siblings

variable {child : Field} {siblings : List Field} {position : Nat} {path rest : List Nat}

/-- A path to a repeated name starts with a position. -/
theorem RepeatsAmong.ne_nil (repeats : RepeatsAmong siblings path) : path ≠ [] := by
  cases repeats <;> exact List.cons_ne_nil _ _

/-- The first of some siblings repeats when another one has its name, and what repeats below it
repeats there. -/
theorem repeatsAmong_zero_iff : RepeatsAmong (child :: siblings) (0 :: rest) ↔
    (rest = [] ∧ ∃ twin ∈ siblings, twin.name = child.name) ∨
      RepeatsAmong child.children rest := by
  constructor
  · intro repeats
    cases repeats with
    | @again _ _ later _ twin listed after listedLater same =>
        obtain rfl := Option.some.inj listed
        obtain ⟨index, rfl⟩ := Nat.exists_eq_add_of_lt after
        rw [Nat.zero_add, List.getElem?_cons_succ] at listedLater
        exact .inl ⟨rfl, twin, List.mem_of_getElem? listedLater, same⟩
    | deeper listed inside =>
        obtain rfl := Option.some.inj listed
        exact .inr inside
  · rintro (⟨rfl, twin, member, same⟩ | inside)
    · obtain ⟨index, listed⟩ := List.mem_iff_getElem?.mp member
      exact .again List.getElem?_cons_zero (Nat.succ_pos index)
        (List.getElem?_cons_succ.trans listed) same
    · exact .deeper List.getElem?_cons_zero inside

/-- What repeats after the first of some siblings repeats without it, one position before. -/
theorem repeatsAmong_succ_iff : RepeatsAmong (child :: siblings) ((position + 1) :: rest) ↔
    RepeatsAmong siblings (position :: rest) := by
  constructor
  · intro repeats
    cases repeats with
    | @again _ _ later _ twin listed after listedLater same =>
        obtain ⟨index, rfl⟩ := Nat.exists_eq_add_of_lt after
        exact .again listed (by omega : position < position + 1 + index) listedLater same
    | deeper listed inside => exact .deeper listed inside
  · intro repeats
    cases repeats with
    | again listed after listedLater same =>
        exact .again (List.getElem?_cons_succ.trans listed) (Nat.succ_lt_succ after)
          (List.getElem?_cons_succ.trans listedLater) same
    | deeper listed inside => exact .deeper (List.getElem?_cons_succ.trans listed) inside

/-- Nothing repeats below a field where the search finds nothing. -/
theorem not_repeatsAmong {field : Field} (unique : field.duplicatePath? = none) :
    ¬ RepeatsAmong field.children path := by
  intro repeats
  generalize same : field.children = children at repeats
  induction repeats generalizing field with
  | again listed after listedLater sameName =>
      subst same
      have names := ((duplicatePath?_eq_none_iff field).mp unique).1
      have finds := (findsChildren_iff_nodup field).mpr names
      have first := finds _ _ listed
      rw [← sameName, finds _ _ listedLater] at first
      simp only [Option.some.injEq, Prod.mk.injEq] at first
      omega
  | deeper listed _ inductionHypothesis =>
      subst same
      have below := ((duplicatePath?_eq_none_iff field).mp unique).2
      exact inductionHypothesis (below _ (List.mem_of_getElem? listed)) rfl

end Siblings

/-- Paths are in the order of their first positions, and in that of the rest after the same one. -/
theorem cons_le_cons_iff {position other : Nat} {path rest : List Nat} :
    position :: path ≤ other :: rest ↔ position < other ∨ position = other ∧ path ≤ rest := by
  rw [le_iff_lt_or_eq, List.cons_lt_cons_iff, List.cons.injEq, or_assoc, ← and_or_left,
    ← le_iff_lt_or_eq]

/-- Whether a path leads to the first field of a tree whose name a later sibling has again. -/
structure RepeatsFirst (root : Field) (path : List Nat) : Prop where
  repeats : RepeatsAmong root.children path
  first : ∀ other, RepeatsAmong root.children other → path ≤ other

/-- At most one path leads to the first repeated name. -/
theorem RepeatsFirst.unique {root : Field} {path other : List Nat} (first : root.RepeatsFirst path)
    (otherFirst : root.RepeatsFirst other) : path = other :=
  le_antisymm (first.first other otherFirst.repeats) (otherFirst.first path first.repeats)

section First

variable {info : FieldInfo} {child : Field} {siblings : List Field} {path : List Nat}

/-- The first of some siblings is the first to repeat when another one has its name. -/
theorem repeatsFirst_of_again {twin : Field} (member : twin ∈ siblings)
    (same : twin.name = child.name) : (⟨info, child :: siblings⟩ : Field).RepeatsFirst [0] where
  repeats := repeatsAmong_zero_iff.mpr (.inl ⟨rfl, twin, member, same⟩)
  first := by
    intro other repeats
    obtain ⟨position, rest, rfl⟩ := List.exists_cons_of_ne_nil repeats.ne_nil
    refine cons_le_cons_iff.mpr ((Nat.eq_zero_or_pos position).symm.imp_right fun start => ?_)
    exact ⟨start.symm, not_lt.mp (List.not_lt_nil rest)⟩

/-- When no sibling has the name of the first one, what is first to repeat below that one is
first to repeat. -/
theorem RepeatsFirst.zero (once : ¬ ∃ twin ∈ siblings, twin.name = child.name)
    (first : child.RepeatsFirst path) :
    (⟨info, child :: siblings⟩ : Field).RepeatsFirst (0 :: path) where
  repeats := repeatsAmong_zero_iff.mpr (.inr first.repeats)
  first := by
    intro other repeats
    obtain ⟨position, rest, rfl⟩ := List.exists_cons_of_ne_nil repeats.ne_nil
    refine cons_le_cons_iff.mpr ((Nat.eq_zero_or_pos position).symm.imp_right fun start => ?_)
    subst start
    refine ⟨rfl, first.first rest ((repeatsAmong_zero_iff.mp repeats).resolve_left ?_)⟩
    exact fun again => once again.2

/-- When the first of some siblings does not repeat, nor anything below it, what is first to
repeat among the others is first to repeat. -/
theorem RepeatsFirst.succ {position : Nat}
    (once : ¬ ∃ twin ∈ siblings, twin.name = child.name) (unique : child.duplicatePath? = none)
    (first : (⟨info, siblings⟩ : Field).RepeatsFirst (position :: path)) :
    (⟨info, child :: siblings⟩ : Field).RepeatsFirst ((position + 1) :: path) where
  repeats := repeatsAmong_succ_iff.mpr first.repeats
  first := by
    intro other repeats
    obtain ⟨otherPosition, rest, rfl⟩ := List.exists_cons_of_ne_nil repeats.ne_nil
    cases otherPosition with
    | zero =>
        rcases repeatsAmong_zero_iff.mp repeats with ⟨-, again⟩ | inside
        · exact absurd again once
        · exact absurd inside (not_repeatsAmong unique)
    | succ otherPosition =>
        have before := first.first _ (repeatsAmong_succ_iff.mp repeats)
        rw [cons_le_cons_iff] at before ⊢
        exact before.imp Nat.succ_lt_succ (And.imp_left (congrArg (· + 1)))

end First

/-- The names that the search finds are those along the path to the first repeated name. -/
theorem exists_repeatsFirst {root : Field} {names : List String}
    (found : root.duplicatePath? = some names) :
    ∃ path fields, root.RepeatsFirst path ∧ root.along? path = some fields ∧
      fields.map (·.name) = names := by
  induction root using Field.induction generalizing names with
  | step root inductionHypothesis =>
      obtain ⟨info, siblings⟩ := root
      rw [duplicatePath?] at found
      -- Among siblings, the first one is tried itself, then the tree below it, then the others.
      induction siblings with
      | nil => cases found
      | cons child siblings later =>
          have repeated : (siblings.any fun sibling => sibling.name == child.name) = true ↔
              ∃ twin ∈ siblings, twin.name = child.name := by
            simp
          rw [duplicatePathAmong?] at found
          split at found
          · next again =>
              obtain rfl := Option.some.inj found
              obtain ⟨twin, member, same⟩ := repeated.mp again
              exact ⟨[0], [child], repeatsFirst_of_again member same, rfl, rfl⟩
          · next once =>
              rw [repeated] at once
              split at found
              · next below belowFound =>
                  obtain rfl := Option.some.inj found
                  obtain ⟨path, fields, first, leads, rfl⟩ :=
                    inductionHypothesis child List.mem_cons_self belowFound
                  refine ⟨0 :: path, child :: fields, first.zero once, ?_, rfl⟩
                  exact along?_cons_eq_some_iff.mpr ⟨child, fields, rfl, leads, rfl⟩
              · next unique =>
                  obtain ⟨path, fields, first, leads, rfl⟩ := later
                    (fun field member =>
                      inductionHypothesis field (List.mem_cons_of_mem child member)) found
                  have filled := first.repeats.ne_nil
                  obtain ⟨position, rest, rfl⟩ := List.exists_cons_of_ne_nil filled
                  exact ⟨(position + 1) :: rest, fields, first.succ once unique, leads, rfl⟩

/-- The search for a name declared twice finds nothing exactly when every field of the tree, the
root included, finds each of its children by name. Otherwise it reports the names along the path
to the first field, in the order of the tree, whose name a later sibling has again, with dots
between them. -/
theorem duplicate?_reports_first_repeat (root : Field) :
    (root.duplicate? = none ↔ ∀ parent, root.Contains parent → parent.FindsChildren) ∧
      ∀ text, root.duplicate? = some text ↔ ∃ path fields, root.RepeatsFirst path ∧
        root.along? path = some fields ∧ text = ".".intercalate (fields.map (·.name)) := by
  constructor
  · rw [duplicate?, Option.map_eq_none_iff, duplicatePath?_eq_none_iff_unique]
    exact forall₂_congr fun parent _ => (findsChildren_iff_nodup parent).symm
  · intro text
    rw [duplicate?, Option.map_eq_some_iff]
    constructor
    · rintro ⟨names, found, rfl⟩
      obtain ⟨path, fields, first, leads, rfl⟩ := exists_repeatsFirst found
      exact ⟨path, fields, first, leads, rfl⟩
    · rintro ⟨path, fields, first, leads, rfl⟩
      cases found : root.duplicatePath? with
      | none => exact absurd first.repeats (not_repeatsAmong found)
      | some names =>
          obtain ⟨other, otherFields, otherFirst, otherLeads, rfl⟩ := exists_repeatsFirst found
          rw [otherFirst.unique first, leads] at otherLeads
          obtain rfl := Option.some.inj otherLeads
          exact ⟨_, rfl, rfl⟩

end Field

end FieldGuide
