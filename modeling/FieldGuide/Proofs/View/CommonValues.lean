import FieldGuide.Field.Edit
import FieldGuide.Proofs.View.Position

/-!
# Common values below advanced fields

An advanced field stands in the common view for the sake of the common values below it.
This module says what a common value is and when each advanced entry of the common view
holds one. The view only asks whether a walked value still has entries, and the free
keys of a map are entries too: a map whose elements are all emptied stays. The main
statement says that this is the only way in which an advanced entry can stay without a
common value.
-/

namespace FieldGuide

/-- Whether a value has the shape that `kind` calls for: a mapping for an object or a
map, a sequence for an array, a sequence of sequences for a grid. The elements of a
field with children are mappings. -/
inductive Field.Suits : Kind → Field → Tree → Prop
  | plain {field value} (childless : field.children = []) : Suits .scalar field value
  | object {field entries} : Suits .scalar field (.mapping entries)
  | map {field entries} (elements : ∀ entry ∈ entries, Suits .scalar field entry.2) :
      Suits .map field (.mapping entries)
  | array {field items} (elements : ∀ item ∈ items, Suits .scalar field item) :
      Suits .array field (.sequence items)
  | grid {field rows} (elements : ∀ row ∈ rows, Suits .array field row) :
      Suits .grid field (.sequence rows)

namespace Field

/-- Whether each declared field met at a walked position has a value of its shape. -/
def Fits (kind : Kind) (field : Field) (tree : Tree) : Prop :=
  ∀ path above parent entries, Visits kind field tree path above parent entries →
    ∀ key value position child, (key, value) ∈ entries →
      parent.lookup? key = some (position, child) → Suits child.kind child value

/-- Whether a key of a walked mapping stands for a common value: it names a field that
is neither advanced nor deprecated, or no field at all. -/
def isCommonKey (parent : Field) (key : String) : Bool :=
  match parent.lookup? key with
  | none => true
  | some (_, child) => Filter.common.selects child

/-- Whether the walked part of a value has an entry that stands for a common value. -/
def HoldsCommon (kind : Kind) (field : Field) (tree : Tree) : Prop :=
  ∃ path above parent entries, Visits kind field tree path above parent entries ∧
    ∃ key value, (key, value) ∈ entries ∧ parent.isCommonKey key = true

/-- Whether the walked part of a value has an entry that the common view shows as a
common value: the fields above it are revealed, and an undeclared key is not the removed
one. -/
def OffersCommon (options : ViewOptions) (kind : Kind) (field : Field) (tree : Tree) : Prop :=
  ∃ path above parent entries, Visits kind field tree path above parent entries ∧
    (∀ passed ∈ above, Filter.common.reveals passed = true) ∧
    ∃ key value, (key, value) ∈ entries ∧ parent.isCommonKey key = true ∧
      (parent.lookup? key = none → options.strips key = false)

/-- Whether each map with entries that an advanced field holds, below revealed fields
and with a revealed field of its own, offers a common value. -/
def MapsOfferCommon (options : ViewOptions) (kind : Kind) (field : Field) (tree : Tree) : Prop :=
  ∀ path above parent entries, Visits kind field tree path above parent entries →
    (∀ passed ∈ above, Filter.common.reveals passed = true) →
    ∀ key members position child, (key, .mapping members) ∈ entries →
      parent.lookup? key = some (position, child) → child.isAdvanced = true →
      child.kind = .map → Filter.common.reveals child = true → members ≠ [] →
      OffersCommon options .map child (.mapping members)

end Field

/-- Whether each advanced entry at a walked position of the common view holds a common
value. -/
def View.AdvancedHoldCommon (options : ViewOptions) (root : Field) (tree : Tree) : Prop :=
  ∀ path above parent entries,
    Field.Visits root.kind root (View.apply ⟨.common, options⟩ root tree) path above parent
      entries →
    ∀ key value position child, (key, value) ∈ entries →
      parent.lookup? key = some (position, child) → child.isAdvanced = true →
      Field.HoldsCommon child.kind child value

variable {options : ViewOptions} {kind : Kind} {root field parent child : Field} {tree : Tree}

namespace Field

/-- The walked value of a suited map is populated when the map has entries. -/
private theorem isPopulated_map (view : View) (field : Field)
    {members : List (String × Tree)} (filled : members ≠ []) :
    (view.walk .map field (.mapping members)).isPopulated = true := by
  rw [View.walk_mapping_map]
  simpa using filled

/-- The common view of a value holds a common value when the value offers one. -/
theorem OffersCommon.walk (offers : OffersCommon options kind field tree) :
    HoldsCommon kind field (View.walk ⟨.common, options⟩ kind field tree) := by
  obtain ⟨path, above, parent, entries, visits, passes, key, value, member, common, kept⟩ := offers
  have shown : ∃ walked,
      (key, walked) ∈ View.shownEntries ⟨.common, options⟩ parent entries := by
    cases declared : parent.lookup? key with
    | none =>
        refine ⟨value, View.mem_shownEntries.mpr ⟨(key, value), member, ?_⟩⟩
        rw [View.shown?_of_undeclared declared, kept declared]
        rfl
    | some found =>
        obtain ⟨position, child⟩ := found
        have selected : Filter.common.selects child = true := by
          simpa [isCommonKey, declared] using common
        refine ⟨_, Visits.mem_shown declared member (Filter.reveals_of_selects selected) ?_⟩
        rw [View.keeps, selected, Bool.true_or]
  obtain ⟨walked, shownMember⟩ := shown
  have visited := (visits.walk passes (List.ne_nil_of_mem shownMember)).1
  exact ⟨path, above, parent, _, visited, key, walked, shownMember, common⟩

/-- A value offers a common value when the common view of it holds one. -/
theorem OffersCommon.of_walk
    (holds : HoldsCommon kind field (View.walk ⟨.common, options⟩ kind field tree)) :
    OffersCommon options kind field tree := by
  obtain ⟨path, above, parent, shown, visits, key, value, member, common⟩ := holds
  obtain ⟨entries, source, passes, rfl⟩ := visits.source_of_walk
  obtain ⟨⟨name, unwalked⟩, entryMember, shows⟩ := View.mem_shownEntries.mp member
  obtain rfl : key = name := View.key_of_shown shows
  refine ⟨path, above, parent, entries, source, passes, key, unwalked, entryMember, common, ?_⟩
  intro undeclared
  rw [View.shown?_of_undeclared undeclared, Option.ite_none_left_eq_some] at shows
  exact Bool.eq_false_iff.mpr shows.1

/-- A revealed field that is not selected by the common filter is advanced and has
children. -/
private theorem advanced_of_revealed (revealed : Filter.common.reveals child = true)
    (rejected : Filter.common.selects child = false) :
    child.isAdvanced = true ∧ child.children ≠ [] := by
  have current := Filter.not_deprecated_of_reveals revealed
  refine ⟨by simpa [Filter.selects_common, current] using rejected, ?_⟩
  intro childless
  rw [Filter.reveals_of_childless childless, rejected] at revealed
  cases revealed

section Below

variable {path : List Tree.Step} {above : List Field} {entries : List (String × Tree)}
  {key : String} {value : Tree} {position : Nat}

/-- The value of a visited entry fits its field. -/
theorem Fits.below (fits : Fits kind field tree)
    (visits : Visits kind field tree path above parent entries) (member : (key, value) ∈ entries)
    (declared : parent.lookup? key = some (position, child)) : Fits child.kind child value :=
  fun _ _ _ _ deeper => fits _ _ _ _ (visits.descend declared member deeper)

/-- The maps in the value of a revealed entry offer a common value if all maps do. -/
theorem MapsOfferCommon.below (maps : MapsOfferCommon options kind field tree)
    (visits : Visits kind field tree path above parent entries)
    (passes : ∀ passed ∈ above, Filter.common.reveals passed = true)
    (member : (key, value) ∈ entries)
    (declared : parent.lookup? key = some (position, child))
    (revealed : Filter.common.reveals child = true) :
    MapsOfferCommon options child.kind child value := by
  intro _ _ _ _ deeper deeperPasses
  refine maps _ _ _ _ (visits.descend declared member deeper) ?_
  exact List.forall_mem_append.mpr ⟨passes, List.forall_mem_cons.mpr ⟨revealed, deeperPasses⟩⟩

/-- The value of a revealed advanced entry offers a common value where it is itself a map. -/
theorem MapsOfferCommon.own (maps : MapsOfferCommon options kind field tree)
    (visits : Visits kind field tree path above parent entries)
    (passes : ∀ passed ∈ above, Filter.common.reveals passed = true)
    (member : (key, value) ∈ entries)
    (declared : parent.lookup? key = some (position, child)) (advanced : child.isAdvanced = true)
    (revealed : Filter.common.reveals child = true) :
    ∀ members, child.kind = .map → value = .mapping members → members ≠ [] →
      OffersCommon options child.kind child value := by
  intro members map same filled
  subst same
  rw [map]
  exact maps _ _ _ _ visits passes _ _ _ _ member declared advanced map revealed filled

end Below

/-- A value of its shape that the common view leaves populated offers a common value, if
its maps do. The induction follows the value: an entry that is left either stands for a
common value or is itself advanced and populated, and only the entries of a map can be
left without being such entries. -/
theorem offers_of_populated (declares : field.children ≠ []) (suits : Suits kind field tree)
    (fits : Fits kind field tree) (maps : MapsOfferCommon options kind field tree)
    (own : ∀ members, kind = .map → tree = .mapping members → members ≠ [] →
      OffersCommon options kind field tree)
    (populated : (View.walk ⟨.common, options⟩ kind field tree).isPopulated = true) :
    OffersCommon options kind field tree := by
  induction tree generalizing kind field with
  | null | bool value | number value | text value =>
      simp [View.walk, Tree.isPopulated] at populated
  | sequence items inductionHypothesis =>
      cases suits with
      | plain childless => exact absurd childless declares
      | array elements =>
          rw [View.walk_sequence_array, Tree.isPopulated_sequence, List.any_map,
            List.any_eq_true] at populated
          obtain ⟨item, member, itemPopulated⟩ := populated
          obtain ⟨index, listed⟩ := List.mem_iff_getElem?.mp member
          obtain ⟨path, above, parent, entries, visits, offered⟩ :=
            inductionHypothesis item member declares (elements item member)
              (fun _ _ _ _ visits => fits _ _ _ _ (.item listed visits))
              (fun _ _ _ _ visits => maps _ _ _ _ (.item listed visits))
              (fun _ map => by cases map) itemPopulated
          exact ⟨_, above, parent, entries, .item listed visits, offered⟩
      | grid elements =>
          rw [View.walk_sequence_grid, Tree.isPopulated_sequence, List.any_map,
            List.any_eq_true] at populated
          obtain ⟨row, member, rowPopulated⟩ := populated
          obtain ⟨index, listed⟩ := List.mem_iff_getElem?.mp member
          obtain ⟨path, above, parent, entries, visits, offered⟩ :=
            inductionHypothesis row member declares (elements row member)
              (fun _ _ _ _ visits => fits _ _ _ _ (.row listed visits))
              (fun _ _ _ _ visits => maps _ _ _ _ (.row listed visits))
              (fun _ map => by cases map) rowPopulated
          exact ⟨_, above, parent, entries, .row listed visits, offered⟩
  | mapping entries inductionHypothesis =>
      cases suits with
      | plain childless => exact absurd childless declares
      | map elements =>
          rw [View.walk_mapping_map] at populated
          exact own entries rfl rfl (by simpa using populated)
      | object =>
          rw [View.walk_mapping_scalar _ _ _ declares, Tree.isPopulated_mapping,
            Bool.not_eq_true', List.isEmpty_eq_false_iff_exists_mem] at populated
          obtain ⟨⟨key, walked⟩, shownMember⟩ := populated
          obtain ⟨⟨name, value⟩, member, shows⟩ := View.mem_shownEntries.mp shownMember
          obtain rfl : key = name := View.key_of_shown shows
          cases declared : field.lookup? key with
          | none =>
              rw [View.shown?_of_undeclared declared, Option.ite_none_left_eq_some] at shows
              exact ⟨[], [], field, entries, .here declares, by simp, key, value, member,
                by simp [isCommonKey, declared], fun _ => Bool.eq_false_iff.mpr shows.1⟩
          | some found =>
              obtain ⟨position, child⟩ := found
              cases selected : Filter.common.selects child with
              | true =>
                  exact ⟨[], [], field, entries, .here declares, by simp, key, value, member,
                    by simp [isCommonKey, declared, selected], by simp [declared]⟩
              | false =>
                  rw [View.shown?_of_declared declared, Option.ite_none_right_eq_some,
                    Bool.and_eq_true] at shows
                  obtain ⟨⟨revealed, keeps⟩, -⟩ := shows
                  obtain ⟨advanced, childDeclares⟩ := advanced_of_revealed revealed selected
                  rw [View.keeps, selected, Bool.false_or] at keeps
                  have visited : Visits .scalar field (.mapping entries) [] [] field entries :=
                    .here declares
                  have nonePassed : ∀ passed ∈ ([] : List Field),
                      Filter.common.reveals passed = true := List.forall_mem_nil _
                  obtain ⟨path, above, parent, found, visits, passes, offered⟩ :=
                    inductionHypothesis (key, value) member childDeclares
                      (fits _ _ _ _ visited _ _ _ _ member declared)
                      (fits.below visited member declared)
                      (maps.below visited nonePassed member declared revealed)
                      (maps.own visited nonePassed member declared advanced revealed) keeps
                  exact ⟨_, _, parent, found, .entry declared member visits,
                    List.forall_mem_cons.mpr ⟨revealed, passes⟩, offered⟩

end Field

namespace View

/-- In an example of the right shapes, every advanced entry of the common view holds a
common value exactly when every non-empty map of a revealed advanced field offers one. -/
theorem advancedHoldCommon_iff (fits : Field.Fits root.kind root tree) :
    AdvancedHoldCommon options root tree ↔
      Field.MapsOfferCommon options root.kind root tree := by
  constructor
  · intro holds path above parent entries visits passes key members position child member declared
      advanced map revealed filled
    have kept : keeps ⟨.common, options⟩ child
        (walk ⟨.common, options⟩ child.kind child (.mapping members)) = true := by
      rw [keeps, map, Field.isPopulated_map _ child filled, Bool.or_true]
    have shown := Field.Visits.mem_shown declared member revealed kept
    have visited := (visits.walk passes (List.ne_nil_of_mem shown)).1
    rw [← apply_of_declares _ root tree visits.field_declares] at visited
    have held := holds path above parent _ visited key _ position child shown declared advanced
    rw [map] at held
    exact Field.OffersCommon.of_walk held
  · intro maps path above parent shown visits key value position child member declared advanced
    rw [apply_of_declares _ root tree visits.field_declares] at visits
    obtain ⟨entries, source, passes, rfl⟩ := visits.source_of_walk
    obtain ⟨unwalked, entryMember, rfl, revealed, kept⟩ :=
      Field.Visits.source_of_shown declared member
    have rejected : Filter.common.selects child = false := by
      rw [Filter.selects_common, advanced]
      rfl
    rw [keeps, rejected, Bool.false_or] at kept
    have childDeclares := (Field.advanced_of_revealed revealed rejected).2
    have offers := Field.offers_of_populated childDeclares
      (fits _ _ _ _ source _ _ _ _ entryMember declared) (fits.below source entryMember declared)
      (maps.below source passes entryMember declared revealed)
      (maps.own source passes entryMember declared advanced revealed) kept
    exact offers.walk

/-- An advanced map of quotas with a common and an advanced limit each. -/
def quotas : Field :=
  { Field.ofChildren "quotas"
      [.ofType "size" .int, { Field.ofType "count" .int with isAdvanced := true }] with
    kind := .map, isAdvanced := true }

/-- An example of one quota with the given limits. -/
def quotaExample (limits : List (String × Tree)) : Tree :=
  .mapping [("quotas", .mapping [("peak", .mapping limits)])]

/-- Examples of one quota have the right shapes, whatever its limits are. -/
private theorem quotaExample_fits (limits : List (String × Tree)) :
    Field.Fits .scalar (.root [quotas]) (quotaExample limits) := by
  intro path above parent entries visits key value position child member declared
  cases visits with
  | here _ =>
      obtain ⟨rfl, rfl⟩ := Prod.mk.inj (List.mem_singleton.mp member)
      obtain ⟨-, rfl⟩ := Prod.mk.inj (Option.some.inj declared)
      exact .map (by simp [Field.Suits.object])
  | entry outerDeclared outerMember below =>
      obtain ⟨rfl, rfl⟩ := Prod.mk.inj (List.mem_singleton.mp outerMember)
      obtain ⟨-, rfl⟩ := Prod.mk.inj (Option.some.inj outerDeclared)
      cases below with
      | value quotaMember below =>
          obtain ⟨rfl, rfl⟩ := Prod.mk.inj (List.mem_singleton.mp quotaMember)
          cases below with
          | here _ =>
              have limit := Field.mem_children_of_lookup declared
              rcases List.mem_pair.mp limit with rfl | rfl <;> exact .plain rfl
          | entry limitDeclared _ below =>
              have limit := Field.mem_children_of_lookup limitDeclared
              rcases List.mem_pair.mp limit with rfl | rfl <;>
                exact absurd rfl below.field_declares

/-- A map stays in the common view for its key alone when the advanced limit below the
key is hidden, although its shape is the right one. -/
theorem not_advancedHoldCommon_quotas :
    Field.Fits (Field.root [quotas]).kind (.root [quotas]) (quotaExample [("count", .null)]) ∧
      ¬AdvancedHoldCommon {} (.root [quotas]) (quotaExample [("count", .null)]) := by
  refine ⟨quotaExample_fits _, fun holds => ?_⟩
  have shown : View.apply ⟨.common, {}⟩ (.root [quotas]) (quotaExample [("count", .null)]) =
      quotaExample [] := by rfl
  have visits : Field.Visits .scalar (.root [quotas]) (quotaExample []) [] [] (.root [quotas])
      [("quotas", .mapping [("peak", .mapping [])])] := .here (List.cons_ne_nil _ _)
  obtain ⟨path, above, parent, entries, below, key, value, member, -⟩ :=
    holds [] [] _ _ (by rw [shown]; exact visits) "quotas" _ 0 quotas List.mem_cons_self rfl rfl
  cases below with
  | value quotaMember below =>
      obtain ⟨rfl, rfl⟩ := Prod.mk.inj (List.mem_singleton.mp quotaMember)
      cases below with
      | here _ => cases member
      | entry _ limitMember _ => cases limitMember

/-- Every advanced entry holds a common value when the quota has its common limit. -/
theorem advancedHoldCommon_quotas :
    Field.Fits (Field.root [quotas]).kind (.root [quotas])
        (quotaExample [("count", .null), ("size", .null)]) ∧
      AdvancedHoldCommon {} (.root [quotas])
        (quotaExample [("count", .null), ("size", .null)]) := by
  have fits := quotaExample_fits [("count", .null), ("size", .null)]
  refine ⟨fits, (advancedHoldCommon_iff fits).mpr ?_⟩
  have offers : Field.OffersCommon {} .map quotas
      (.mapping [("peak", .mapping [("count", .null), ("size", .null)])]) :=
    ⟨_, _, _, _, .value List.mem_cons_self (.here (List.cons_ne_nil _ _)), by simp, "size", .null,
      List.mem_cons_of_mem _ List.mem_cons_self, rfl, fun undeclared => by cases undeclared⟩
  intro path above parent entries visits passes key members position child member declared
    advanced map revealed filled
  cases visits with
  | here _ =>
      obtain ⟨rfl, same⟩ := Prod.mk.inj (List.mem_singleton.mp member)
      obtain ⟨-, rfl⟩ := Prod.mk.inj (Option.some.inj declared)
      rw [same]
      exact offers
  | entry outerDeclared outerMember below =>
      obtain ⟨rfl, rfl⟩ := Prod.mk.inj (List.mem_singleton.mp outerMember)
      obtain ⟨-, rfl⟩ := Prod.mk.inj (Option.some.inj outerDeclared)
      cases below with
      | value quotaMember below =>
          obtain ⟨rfl, rfl⟩ := Prod.mk.inj (List.mem_singleton.mp quotaMember)
          cases below with
          | here _ => simp at member
          | entry limitDeclared _ below =>
              have limit := Field.mem_children_of_lookup limitDeclared
              rcases List.mem_pair.mp limit with rfl | rfl <;>
                exact absurd rfl below.field_declares

end View

end FieldGuide
