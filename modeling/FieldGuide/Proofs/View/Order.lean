import FieldGuide.View.Walk
import Mathlib.Data.List.Basic
import Mathlib.Data.List.Count
import Mathlib.Data.List.Sort

/-!
# Stable order by rank

Entries of a view are put in the order of their declared positions. This module
orders a list by a rank, shows that it is the order a view uses, and shows that
leaving out or changing members commutes with ordering as long as ranks stay. An ordered
list depends on nothing but the order among its values of each rank: these stand one after
another.
-/

namespace FieldGuide

variable {α β : Type}

/-- The values in the order of their ranks. Values of one rank keep their order. -/
def orderedBy (rank : α → Nat) (values : List α) : List α :=
  values.insertionSort fun left right => rank left ≤ rank right

/-- Ordering loses and adds nothing. -/
theorem orderedBy_perm (rank : α → Nat) (values : List α) :
    (orderedBy rank values).Perm values :=
  List.perm_insertionSort _ values

/-- The ranks of ordered values never go down. -/
theorem orderedBy_pairwise (rank : α → Nat) (values : List α) :
    (orderedBy rank values).Pairwise fun left right => rank left ≤ rank right :=
  List.pairwise_insertionSort _ values

/-- Values that stand in order already are left as they are. -/
theorem orderedBy_of_pairwise {rank : α → Nat} {values : List α}
    (inOrder : values.Pairwise fun left right => rank left ≤ rank right) :
    orderedBy rank values = values :=
  List.Pairwise.insertionSort_eq inOrder

/-- Ordering twice is ordering once. -/
@[simp]
theorem orderedBy_orderedBy (rank : α → Nat) (values : List α) :
    orderedBy rank (orderedBy rank values) = orderedBy rank values :=
  orderedBy_of_pairwise (orderedBy_pairwise rank values)

/-- An ordered list has the members of the list. -/
@[simp]
theorem mem_orderedBy {rank : α → Nat} {values : List α} {value : α} :
    value ∈ orderedBy rank values ↔ value ∈ values :=
  (orderedBy_perm rank values).mem_iff

/-- Inserting a value in order commutes with a selection that keeps ranks. The list
has to be in order: the value that stops the insertion may be left out, and then
those after it have to stop it as well. -/
private theorem filterMap_orderedInsert {rank : α → Nat} {rankAfter : β → Nat}
    {select : α → Option β}
    (keepsRank : ∀ value selected, select value = some selected →
      rankAfter selected = rank value)
    (value : α) {values : List α}
    (inOrder : values.Pairwise fun left right => rank left ≤ rank right) :
    (values.orderedInsert (fun left right => rank left ≤ rank right) value).filterMap select =
      match select value with
      | none => values.filterMap select
      | some selected =>
          (values.filterMap select).orderedInsert
            (fun left right => rankAfter left ≤ rankAfter right) selected := by
  induction values with
  | nil => cases chosen : select value <;> simp [chosen]
  | cons head tail inductionHypothesis =>
      obtain ⟨headFirst, tailInOrder⟩ := List.pairwise_cons.mp inOrder
      by_cases before : rank value ≤ rank head
      · rw [List.orderedInsert_cons, if_pos before, List.filterMap_cons]
        cases chosen : select value with
        | none => rfl
        | some selected =>
            have allAfter : ∀ other ∈ (head :: tail).filterMap select,
                rankAfter selected ≤ rankAfter other := by
              intro other member
              obtain ⟨source, sourceMember, sourceChosen⟩ := List.mem_filterMap.mp member
              rw [keepsRank value selected chosen, keepsRank source other sourceChosen]
              rcases List.mem_cons.mp sourceMember with rfl | inTail
              · exact before
              · exact Nat.le_trans before (headFirst source inTail)
            cases rest : (head :: tail).filterMap select with
            | nil => rfl
            | cons first others =>
                have firstAfter : rankAfter selected ≤ rankAfter first :=
                  allAfter first (by rw [rest]; exact List.mem_cons_self)
                exact (if_pos firstAfter).symm
      · rw [List.orderedInsert_cons, if_neg before, List.filterMap_cons,
          inductionHypothesis tailInOrder]
        cases chosen : select value with
        | none => rw [List.filterMap_cons]
        | some selected =>
            cases headChosen : select head with
            | none => simp [headChosen]
            | some selectedHead =>
                have stillAfter : ¬rankAfter selected ≤ rankAfter selectedHead := by
                  rw [keepsRank value selected chosen, keepsRank head selectedHead headChosen]
                  exact before
                simp [headChosen, stillAfter]

/-- Ordering commutes with a selection that keeps ranks. -/
theorem filterMap_orderedBy {rank : α → Nat} {rankAfter : β → Nat} {select : α → Option β}
    (keepsRank : ∀ value selected, select value = some selected →
      rankAfter selected = rank value) (values : List α) :
    (orderedBy rank values).filterMap select =
      orderedBy rankAfter (values.filterMap select) := by
  induction values with
  | nil => rfl
  | cons head tail inductionHypothesis =>
      have inserted := filterMap_orderedInsert keepsRank head (orderedBy_pairwise rank tail)
      rw [inductionHypothesis] at inserted
      rw [orderedBy, List.insertionSort_cons]
      refine inserted.trans ?_
      rw [List.filterMap_cons]
      cases select head <;> rfl

/-- Lists that stand in order are the same when they have the same values of each rank in
the same order. -/
theorem eq_of_filter_rank {rank : α → Nat} {left right : List α}
    (leftInOrder : left.Pairwise fun first second => rank first ≤ rank second)
    (rightInOrder : right.Pairwise fun first second => rank first ≤ rank second)
    (same : ∀ place, left.filter (rank · = place) = right.filter (rank · = place)) :
    left = right := by
  have mem_iff (value : α) : value ∈ left ↔ value ∈ right := by
    have members := congrArg (value ∈ ·) (same (rank value))
    simpa using members
  induction left generalizing right with
  | nil =>
      cases right with
      | nil => rfl
      | cons value rest => exact absurd ((mem_iff value).mpr List.mem_cons_self) List.not_mem_nil
  | cons value rest inductionHypothesis =>
      cases right with
      | nil => exact absurd ((mem_iff value).mp List.mem_cons_self) List.not_mem_nil
      | cons other others =>
          obtain ⟨valueFirst, restInOrder⟩ := List.pairwise_cons.mp leftInOrder
          obtain ⟨otherFirst, othersInOrder⟩ := List.pairwise_cons.mp rightInOrder
          -- Each of the two first values stands among the values of the other list.
          have sameRank : rank value = rank other := by
            apply Nat.le_antisymm
            · rcases List.mem_cons.mp ((mem_iff other).mpr List.mem_cons_self) with rfl | member
              · exact Nat.le_refl _
              · exact valueFirst other member
            · rcases List.mem_cons.mp ((mem_iff value).mp List.mem_cons_self) with rfl | member
              · exact Nat.le_refl _
              · exact otherFirst value member
          have heads := same (rank other)
          rw [List.filter_cons_of_pos (by simpa using sameRank),
            List.filter_cons_of_pos (by simp)] at heads
          obtain rfl : value = other := (List.cons.inj heads).1
          have tails (place : Nat) :
              rest.filter (rank · = place) = others.filter (rank · = place) := by
            have whole := same place
            by_cases here : rank value = place
            · rw [List.filter_cons_of_pos (by simpa using here),
                List.filter_cons_of_pos (by simpa using here)] at whole
              exact (List.cons.inj whole).2
            · rwa [List.filter_cons_of_neg (by simpa using here),
                List.filter_cons_of_neg (by simpa using here)] at whole
          refine congrArg (value :: ·) (inductionHypothesis restInOrder othersInOrder tails ?_)
          intro member
          have members := congrArg (member ∈ ·) (tails (rank member))
          simpa using members


/-- Ordering leaves the values of one rank as they stand. -/
theorem filter_orderedBy (rank : α → Nat) (place : Nat) (values : List α) :
    (orderedBy rank values).filter (rank · = place) = values.filter (rank · = place) := by
  have keepsRank (value selected : α)
      (chosen : Option.guard (fun value => decide (rank value = place)) value = some selected) :
      rank selected = rank value := by
    rw [(Option.guard_eq_some_iff.mp chosen).1]
  have commutes := filterMap_orderedBy keepsRank values
  rw [List.filterMap_eq_filter] at commutes
  rw [commutes]
  apply orderedBy_of_pairwise
  apply List.pairwise_of_forall_mem_list
  intro first firstMember second secondMember
  have firstRank : rank first = place := by simpa using (List.mem_filter.mp firstMember).2
  have secondRank : rank second = place := by simpa using (List.mem_filter.mp secondMember).2
  rw [firstRank, secondRank]


/-- Ordering depends on nothing but the order among the values of each rank. -/
theorem orderedBy_eq_of_filter {rank : α → Nat} {left right : List α}
    (same : ∀ place, left.filter (rank · = place) = right.filter (rank · = place)) :
    orderedBy rank left = orderedBy rank right := by
  refine eq_of_filter_rank (orderedBy_pairwise rank left) (orderedBy_pairwise rank right) ?_
  intro place
  rw [filter_orderedBy, filter_orderedBy, same]

/-- Parts for the values that pass a test are parts for all values, empty for the others. -/
theorem flatMap_filter (keep : α → Bool) (part : α → List β) (values : List α) :
    (values.filter keep).flatMap part =
      values.flatMap fun value => if keep value then part value else [] := by
  induction values with
  | nil => rfl
  | cons value rest inductionHypothesis =>
      rw [List.flatMap_cons, ← inductionHypothesis, List.filter_cons]
      split
      · rw [List.flatMap_cons]
      · rfl

/-- Ordering puts the values of each rank one after another. -/
theorem orderedBy_eq_flatMap {rank : α → Nat} {bound : Nat} {values : List α}
    (below : ∀ value ∈ values, rank value < bound) :
    orderedBy rank values =
      (List.range bound).flatMap fun place => values.filter (rank · = place) := by
  have rank_of_mem {place : Nat} {value : α} (member : value ∈ values.filter (rank · = place)) :
      rank value = place := by
    simpa using (List.mem_filter.mp member).2
  apply eq_of_filter_rank (orderedBy_pairwise rank values)
  · rw [List.pairwise_flatMap]
    refine ⟨fun place _ => ?_, List.pairwise_lt_range.imp fun {earlier later} before => ?_⟩
    · refine List.pairwise_of_forall_mem_list fun first firstMember second secondMember => ?_
      rw [rank_of_mem firstMember, rank_of_mem secondMember]
    · intro first firstMember second secondMember
      rw [rank_of_mem firstMember, rank_of_mem secondMember]
      exact Nat.le_of_lt before
  · intro place
    have onlyHere (other : Nat) : (values.filter (rank · = other)).filter (rank · = place) =
        if decide (other = place) then values.filter (rank · = place) else [] := by
      rw [List.filter_filter]
      split
      · next same => simp [of_decide_eq_true same]
      · next differ =>
          rw [List.filter_eq_nil_iff]
          intro value _ both
          simp only [Bool.and_eq_true, decide_eq_true_eq] at both differ
          exact differ (both.2.symm.trans both.1)
    rw [filter_orderedBy, List.filter_flatMap, List.flatMap_congr fun other _ => onlyHere other,
      ← flatMap_filter, List.filter_eq, List.count_range]
    split
    · simp
    · next outside =>
        rw [List.replicate_zero, List.flatMap_nil, List.filter_eq_nil_iff]
        intro value member here
        exact outside (of_decide_eq_true here ▸ below value member)

/-- Ordering commutes with a change that keeps ranks. -/
theorem map_orderedBy {rank : α → Nat} {rankAfter : β → Nat} {change : α → β}
    (keepsRank : ∀ value, rankAfter (change value) = rank value) (values : List α) :
    (orderedBy rank values).map change = orderedBy rankAfter (values.map change) := by
  rw [← List.filterMap_eq_map]
  apply filterMap_orderedBy
  intro value selected chosen
  rw [← Option.some.inj chosen]
  exact keepsRank value

/-- A placed entry goes where the ordered insertion by positions puts it. -/
theorem placeEntry_eq_orderedInsert (entry : Nat × α) (placed : List (Nat × α)) :
    placeEntry entry placed =
      placed.orderedInsert (fun left right => left.1 ≤ right.1) entry := by
  induction placed with
  | nil => rfl
  | cons other rest inductionHypothesis =>
      rw [placeEntry, inductionHypothesis, List.orderedInsert_cons]

/-- Arranged entries are the entries in the order of their positions. -/
theorem arrange_eq_orderedBy (placed : List (Nat × α)) :
    arrange placed = (orderedBy Prod.fst placed).map Prod.snd := by
  rw [arrange, orderedBy, List.insertionSort]
  congr 2
  funext entry rest
  exact placeEntry_eq_orderedInsert entry rest

end FieldGuide
