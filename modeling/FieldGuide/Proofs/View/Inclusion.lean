import FieldGuide.Proofs.View.Composition
import Mathlib.Data.List.Forall2

/-!
# The common view inside the advanced view

This module says when one tree is part of another and shows that the common view of an
example is part of its advanced view. The two views order different entries, so their
mappings are not compared entry by entry: the common view is taken as the common view of
the advanced one, whose entries stand in order already. What is left of them is a
selection in their own order.
-/

namespace FieldGuide

/-- Where lists are related value by value, each value of the first has one of the second. -/
theorem exists_mem_of_forall₂ {α β : Type} {relation : α → β → Prop} {left : List α}
    {right : List β} (related : List.Forall₂ relation left right) {value : α}
    (member : value ∈ left) : ∃ other ∈ right, relation value other := by
  induction related with
  | nil => cases member
  | @cons first second rest others here _ inductionHypothesis =>
      rcases List.mem_cons.mp member with rfl | below
      · exact ⟨second, List.mem_cons_self, here⟩
      · obtain ⟨other, otherMember, holds⟩ := inductionHypothesis below
        exact ⟨other, List.mem_cons_of_mem second otherMember, holds⟩

namespace Tree

/-- Whether a tree is part of another one. Scalars are equal, sequences are related item
by item, and the entries of a mapping are, with equal keys and related values, some of the
entries of the other mapping in their order. -/
inductive Within : Tree → Tree → Prop
  | null : Within .null .null
  | bool (value : Bool) : Within (.bool value) (.bool value)
  | number (value : Number) : Within (.number value) (.number value)
  | text (value : String) : Within (.text value) (.text value)
  | sequence {smaller larger : List Tree} (items : List.Forall₂ Within smaller larger) :
      Within (.sequence smaller) (.sequence larger)
  | mapping {smaller larger kept : List (String × Tree)} (selected : kept.Sublist larger)
      (keys : smaller.map Prod.fst = kept.map Prod.fst)
      (values : List.Forall₂ Within (smaller.map Prod.snd) (kept.map Prod.snd)) :
      Within (.mapping smaller) (.mapping larger)

namespace Within

/-- A tree is part of itself. -/
theorem refl (tree : Tree) : Within tree tree := by
  induction tree with
  | null => exact .null
  | bool value => exact .bool value
  | number value => exact .number value
  | text value => exact .text value
  | sequence items inductionHypothesis =>
      exact .sequence (List.forall₂_same.mpr inductionHypothesis)
  | mapping entries inductionHypothesis =>
      refine .mapping (List.Sublist.refl entries) rfl (List.forall₂_same.mpr ?_)
      exact List.forall_mem_map.mpr inductionHypothesis

/-- Sequences are related when two changes of the same items relate each of them. -/
theorem sequence_map {items : List Tree} {change other : Tree → Tree}
    (related : ∀ item ∈ items, Within (change item) (other item)) :
    Within (.sequence (items.map change)) (.sequence (items.map other)) := by
  refine .sequence ?_
  rw [List.forall₂_map_left_iff, List.forall₂_map_right_iff, List.forall₂_same]
  exact related

/-- Mappings are related when two changes of the same values relate each of them. -/
theorem mapping_map {entries : List (String × Tree)} {change other : Tree → Tree}
    (related : ∀ entry ∈ entries, Within (change entry.2) (other entry.2)) :
    Within (.mapping (entries.map fun entry => (entry.1, change entry.2)))
      (.mapping (entries.map fun entry => (entry.1, other entry.2))) := by
  refine .mapping (List.Sublist.refl _) (by simp) ?_
  simp only [List.map_map, List.forall₂_map_left_iff, List.forall₂_map_right_iff,
    List.forall₂_same]
  exact related

/-- Of two selections from the same entries, the one that selects less, with equal keys and
related values, makes a part of the mapping that the other makes. -/
theorem mapping_filterMap_filterMap {entries : List (String × Tree)}
    {select more : String × Tree → Option (String × Tree)}
    (related : ∀ entry ∈ entries, ∀ shown, select entry = some shown →
      ∃ other, more entry = some other ∧ shown.1 = other.1 ∧ Within shown.2 other.2) :
    Within (.mapping (entries.filterMap select)) (.mapping (entries.filterMap more)) := by
  have chosen : ∃ kept : List (String × Tree), kept.Sublist (entries.filterMap more) ∧
      (entries.filterMap select).map Prod.fst = kept.map Prod.fst ∧
      List.Forall₂ Within ((entries.filterMap select).map Prod.snd) (kept.map Prod.snd) := by
    induction entries with
    | nil => exact ⟨[], List.Sublist.refl _, rfl, .nil⟩
    | cons entry rest inductionHypothesis =>
        obtain ⟨first, others⟩ := List.forall_mem_cons.mp related
        obtain ⟨kept, selected, keys, values⟩ := inductionHypothesis others
        cases shows : select entry with
        | none =>
            rw [List.filterMap_cons_none shows]
            refine ⟨kept, selected.trans ?_, keys, values⟩
            exact (List.sublist_cons_self entry rest).filterMap more
        | some shown =>
            obtain ⟨other, showsMore, sameKey, within⟩ := first shown shows
            rw [List.filterMap_cons_some shows, List.filterMap_cons_some showsMore]
            refine ⟨other :: kept, selected.cons_cons other, ?_, .cons within values⟩
            simp only [List.map_cons, sameKey, keys]
  obtain ⟨kept, selected, keys, values⟩ := chosen
  exact .mapping selected keys values

/-- A selection from the entries of a mapping that keeps keys and relates values makes a
part of the mapping. -/
theorem mapping_filterMap {entries : List (String × Tree)}
    {select : String × Tree → Option (String × Tree)}
    (related : ∀ entry ∈ entries, ∀ shown, select entry = some shown →
      shown.1 = entry.1 ∧ Within shown.2 entry.2) :
    Within (.mapping (entries.filterMap select)) (.mapping entries) := by
  have part := @mapping_filterMap_filterMap entries select some fun entry member shown shows =>
    ⟨entry, rfl, related entry member shown shows⟩
  rwa [List.filterMap_some] at part

/-- A part of a tree has entries only if the tree has. -/
theorem isPopulated {smaller larger : Tree} (within : Within smaller larger)
    (populated : smaller.isPopulated = true) : larger.isPopulated = true := by
  induction smaller generalizing larger with
  | null | bool value | number value | text value => cases populated
  | sequence items inductionHypothesis =>
      cases within with
      | sequence related =>
          rw [isPopulated_sequence, List.any_eq_true] at populated ⊢
          obtain ⟨item, member, itemPopulated⟩ := populated
          obtain ⟨other, otherMember, itemWithin⟩ := exists_mem_of_forall₂ related member
          exact ⟨other, otherMember, inductionHypothesis item member itemWithin itemPopulated⟩
  | mapping entries _ =>
      cases within with
      | mapping selected keys values =>
          rw [isPopulated_mapping, Bool.not_eq_true', List.isEmpty_eq_false_iff] at populated ⊢
          intro empty
          rw [empty, List.sublist_nil] at selected
          rw [selected, List.map_nil, List.map_eq_nil_iff] at keys
          exact populated keys

end Within

end Tree

namespace View

variable (options : ViewOptions)

/-- What the common view shows of a mapping is part of what the advanced view shows of it,
if that holds of walking its values. -/
theorem shownEntries_within (parent : Field) {entries : List (String × Tree)}
    (valuesWithin : ∀ entry ∈ entries, ∀ kind field,
      Tree.Within (walk ⟨.common, options⟩ kind field entry.2)
        (walk ⟨.advanced, options⟩ kind field entry.2)) :
    Tree.Within (.mapping (shownEntries ⟨.common, options⟩ parent entries))
      (.mapping (shownEntries ⟨.advanced, options⟩ parent entries)) := by
  have throughAdvanced : shownEntries ⟨.common, options⟩ parent
      (shownEntries ⟨.advanced, options⟩ parent entries) =
        shownEntries ⟨.common, options⟩ parent entries :=
    shownEntries_shownEntries options .advanced .common parent entries
      fun entry _ kind field => walk_walk options .advanced .common kind field entry.2
  have keepsRank (entry shown : String × Tree)
      (shows : shown? ⟨.common, options⟩ parent entry = some shown) :
      parent.rank shown.1 = parent.rank entry.1 := by
    rw [key_of_shown shows]
  -- Ordering the advanced entries again changes nothing, so the common view only selects.
  have selection : shownEntries ⟨.common, options⟩ parent
      (shownEntries ⟨.advanced, options⟩ parent entries) =
        (shownEntries ⟨.advanced, options⟩ parent entries).filterMap
          (shown? ⟨.common, options⟩ parent) := by
    rw [shownEntries, ← filterMap_orderedBy keepsRank, shownEntries, orderedBy_orderedBy]
  rw [← throughAdvanced, selection]
  apply Tree.Within.mapping_filterMap
  intro entry member shown shows
  refine ⟨key_of_shown shows, ?_⟩
  obtain ⟨⟨key, source⟩, sourceMember, sourceShows⟩ := mem_shownEntries.mp member
  obtain rfl : entry.1 = key := key_of_shown sourceShows
  cases declared : parent.lookup? entry.1 with
  | none =>
      rw [shown?_of_undeclared declared, Option.ite_none_left_eq_some] at shows
      rw [← Option.some.inj shows.2]
      exact Tree.Within.refl _
  | some found =>
      have sourceDeclared : parent.lookup? (entry.1, source).1 = some found := declared
      rw [shown?_of_declared declared, Option.ite_none_right_eq_some] at shows
      rw [shown?_of_declared sourceDeclared, Option.ite_none_right_eq_some] at sourceShows
      rw [← Option.some.inj shows.2, ← Option.some.inj sourceShows.2]
      have walked := walk_walk options .advanced .common found.2.kind found.2 source
      rw [walked]
      exact valuesWithin _ sourceMember found.2.kind found.2

/-- Walking a value through the common view leaves a part of walking it through the
advanced one. -/
theorem walk_within (kind : Kind) (field : Field) (tree : Tree) :
    Tree.Within (walk ⟨.common, options⟩ kind field tree)
      (walk ⟨.advanced, options⟩ kind field tree) := by
  induction tree generalizing kind field with
  | null | bool value | number value | text value =>
      simp only [walk]
      exact Tree.Within.refl _
  | sequence items inductionHypothesis =>
      cases kind with
      | scalar | map =>
          simp only [walk]
          exact Tree.Within.refl _
      | array =>
          simp only [walk_sequence_array]
          exact .sequence_map fun item member => inductionHypothesis item member .scalar field
      | grid =>
          simp only [walk_sequence_grid]
          exact .sequence_map fun row member => inductionHypothesis row member .array field
  | mapping entries inductionHypothesis =>
      cases kind with
      | scalar =>
          by_cases childless : field.children = []
          · simp only [walk_mapping_of_childless _ _ _ childless]
            exact Tree.Within.refl _
          · simp only [walk_mapping_scalar _ _ _ childless]
            exact shownEntries_within options field inductionHypothesis
      | map =>
          simp only [walk_mapping_map]
          exact .mapping_map fun entry member => inductionHypothesis entry member .scalar field
      | array | grid =>
          simp only [walk]
          exact Tree.Within.refl _

/-- The common view of an example is part of its advanced view: it lacks nothing but
entries, and renames and reorders none. -/
theorem common_within_advanced (root : Field) (tree : Tree) :
    Tree.Within (apply ⟨.common, options⟩ root tree) (apply ⟨.advanced, options⟩ root tree) := by
  by_cases scalar : root.kind = .scalar
  · cases tree with
    | mapping entries =>
        simp only [apply_mapping_scalar _ _ _ scalar]
        exact shownEntries_within options root
          fun entry _ kind field => walk_within options kind field entry.2
    | null | bool value | number value | text value | sequence items =>
        simp only [apply]
        exact walk_within options root.kind root _
  · simp only [apply_of_not_scalar _ _ _ scalar]
    exact walk_within options root.kind root tree

end View

end FieldGuide
