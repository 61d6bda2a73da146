import FieldGuide.Proofs.Keyed
import FieldGuide.Settings.Setting

/-!
# Layers of settings, path by path

A layer that is laid over another one merges tables and replaces everything else. What stands
at a path after that depends only on what the two layers hold at the path, as long as nothing
but tables stands above it. Layers that are laid one after another can so be read one path at a
time: what the last of them holds there decides, and tables are merged.
-/

namespace FieldGuide.Setting

/-! ## Sound values -/

/-- A value whose tables have distinct keys and whose integers fit 64 bits. -/
inductive Sound : Setting → Prop
  | bool {value : Bool} : Sound (.bool value)
  | unsigned {value : Nat} (fits : value < twoTo 64) : Sound (.unsigned value)
  | signed {value : Int} (fits : value < twoTo 63) : Sound (.signed value)
  | float {value : Binary64} : Sound (.float value)
  | text {value : String} : Sound (.text value)
  | list {items : List Setting} (each : ∀ item ∈ items, Sound item) : Sound (.list items)
  | table {entries : List (String × Setting)} (distinct : (entries.map Prod.fst).Nodup)
      (each : ∀ entry ∈ entries, Sound entry.2) : Sound (.table entries)

/-- The empty table is sound. -/
theorem Sound.empty : Sound (.table []) := .table .nil nofun

/-- The keys of a sound table are distinct. -/
theorem Sound.distinct {entries : List (String × Setting)} (sound : Sound (.table entries)) :
    (entries.map Prod.fst).Nodup := by
  cases sound with
  | table distinct each => exact distinct

/-- The values of a sound table are sound. -/
theorem Sound.of_mem {entries : List (String × Setting)} (sound : Sound (.table entries)) :
    ∀ entry ∈ entries, entry.2.Sound := by
  cases sound with
  | table distinct each => exact each

/-- A sound table stays sound when a key is set to a sound value. -/
theorem Sound.put {entries : List (String × Setting)} (sound : Sound (.table entries))
    (key : String) {value : Setting} (valueSound : value.Sound) :
    Sound (.table (Keyed.put key value entries)) :=
  .table (Keyed.nodup_put sound.distinct) (Keyed.forall_value_put valueSound sound.of_mem key)

/-- A sound value under a path of keys is sound. -/
theorem Sound.under {value : Setting} (sound : value.Sound) (path : List String) :
    (value.under path).Sound := by
  induction path with
  | nil => exact sound
  | cons key path inductionHypothesis =>
      exact .table (List.pairwise_singleton _ _)
        (List.forall_mem_singleton.mpr inductionHypothesis)

/-! ## Paths -/

/-- What stands at a path of keys. -/
def at? : List String → Setting → Option Setting
  | [], setting => some setting
  | key :: path, .table entries => (entries.lookup key).bind (at? path)
  | _ :: _, _ => none

/-- Whether nothing but tables stands above a path. -/
def opens : List String → Setting → Bool
  | [], _ => true
  | key :: path, .table entries => (entries.lookup key).all (opens path)
  | _ :: _, _ => false

/-- Whether a value is a table. -/
def isTable : Setting → Bool
  | .table _ => true
  | _ => false

/-- What stands at a path, unless it is a table. -/
def leaf? (path : List String) (setting : Setting) : Option Setting :=
  (setting.at? path).filter fun value => !value.isTable

/-- What stands at a path when one layer is laid over another, given what they hold there. -/
def over? : (below above : Option Setting) → Option Setting
  | below, none => below
  | none, some value => some value
  | some base, some value => some (base.overlaid value)

/-- What only the upper layer holds stays. -/
@[simp]
theorem over?_none_left (above : Option Setting) : over? none above = above := by
  cases above <;> rfl

/-- What only the lower layer holds stays. -/
@[simp]
theorem over?_none_right (below : Option Setting) : over? below none = below := by
  cases below <;> rfl

/-- A value that is no table replaces what is below it. -/
theorem overlaid_of_leaf {value : Setting} (leaf : value.isTable = false) (base : Setting) :
    base.overlaid value = value := by
  cases value with
  | table entries => cases leaf
  | bool value | unsigned value | signed value | float value | text value | list items =>
      rfl

/-- A table makes a table of what is below it. -/
theorem isTable_overlaid {value : Setting} (table : value.isTable = true) (base : Setting) :
    (base.overlaid value).isTable = true := by
  cases value with
  | table entries =>
      cases base <;> rfl
  | bool value | unsigned value | signed value | float value | text value | list items =>
      cases table

/-- What is no table was put there by the layer above, or left there by it. -/
theorem of_over?_eq_leaf {below above : Option Setting} {value : Setting}
    (laid : over? below above = some value) (leaf : value.isTable = false) :
    above = some value ∨ above = none ∧ below = some value := by
  cases above with
  | none => exact .inr ⟨rfl, over?_none_right below ▸ laid⟩
  | some top =>
      refine .inl ?_
      cases below with
      | none => exact laid
      | some base =>
          have same := Option.some.inj laid
          cases table : top.isTable with
          | true =>
              rw [← same, isTable_overlaid table] at leaf
              cases leaf
          | false => rw [← same, overlaid_of_leaf table]

/-! ## One layer over another -/

/-- A table stays sound when entries with sound values are laid over it. -/
theorem Sound.entriesOverlaid {below above : List (String × Setting)} (sound : Sound (.table below))
    (each : ∀ entry ∈ above, entry.2.Sound ∧ ∀ base, Sound base → (base.overlaid entry.2).Sound) :
    Sound (.table (entriesOverlaid below above)) := by
  induction above generalizing below with
  | nil => exact sound
  | cons entry rest inductionHypothesis =>
      obtain ⟨⟨value, laid⟩, others⟩ := List.forall_mem_cons.mp each
      rw [Setting.entriesOverlaid]
      refine inductionHypothesis (sound.put entry.1 ?_) others
      split
      · next found => exact laid _ (sound.of_mem _ (Keyed.mem_of_lookup found))
      · exact value

/-- A sound layer that is laid over a sound one gives a sound one. -/
theorem Sound.overlaid {above : Setting} (sound : above.Sound) {base : Setting}
    (baseSound : base.Sound) : (base.overlaid above).Sound := by
  induction sound generalizing base with
  | table distinct each inductionHypothesis =>
      cases base with
      | table below =>
          exact baseSound.entriesOverlaid fun entry member =>
            ⟨each entry member, fun _ sound => inductionHypothesis entry member sound⟩
      | bool | unsigned | signed | float | text | list => exact .table distinct each
  | bool | unsigned fits | signed fits | float | text | list each =>
      rw [overlaid_of_leaf rfl]
      constructor <;> assumption

/-- What a key has after a table is laid over another one. -/
theorem lookup_entriesOverlaid {above : List (String × Setting)}
    (distinct : (above.map Prod.fst).Nodup) (below : List (String × Setting)) (key : String) :
    (entriesOverlaid below above).lookup key = over? (below.lookup key) (above.lookup key) := by
  induction above generalizing below with
  | nil => rw [entriesOverlaid, List.lookup_nil, over?_none_right]
  | cons entry rest inductionHypothesis =>
      obtain ⟨name, value⟩ := entry
      obtain ⟨fresh, restDistinct⟩ := List.nodup_cons.mp distinct
      rw [entriesOverlaid, inductionHypothesis restDistinct]
      by_cases same : key = name
      · subst same
        -- The first entry of a key is the only one, so that none of the rest replaces it.
        have absent : rest.lookup key = none :=
          List.lookup_eq_none_iff.mpr fun entry member => bne_iff_ne.mpr fun equal =>
            fresh (List.mem_map.mpr ⟨entry, member, equal.symm⟩)
        rw [Keyed.lookup_put_self, absent, List.lookup_cons_self]
        cases below.lookup key <;> rfl
      · rw [Keyed.lookup_put_of_ne same, List.lookup_cons, beq_false_of_ne same]

/-- Where nothing but tables stands above a path in two layers, the same holds when the upper
one is laid over the lower one, and what stands at the path then depends on what they hold
there. -/
theorem overlaid_along {above : Setting} (sound : above.Sound) {path : List String}
    {below : Setting} (belowOpens : below.opens path = true)
    (aboveOpens : above.opens path = true) :
    (below.overlaid above).opens path = true ∧
      (below.overlaid above).at? path = over? (below.at? path) (above.at? path) := by
  induction path generalizing below above with
  | nil => exact ⟨rfl, rfl⟩
  | cons key path inductionHypothesis =>
      cases below with
      | table belowEntries =>
          cases above with
          | table aboveEntries =>
              rw [opens] at belowOpens aboveOpens
              rw [overlaid, opens, at?, at?, at?, lookup_entriesOverlaid sound.distinct]
              cases atBelow : belowEntries.lookup key with
              | none => simpa using aboveOpens
              | some base =>
                  rw [atBelow] at belowOpens
                  cases atAbove : aboveEntries.lookup key with
                  | none => exact ⟨belowOpens, (over?_none_right _).symm⟩
                  | some value =>
                      -- Both layers hold something under the key, and the path goes on in it.
                      rw [atAbove] at aboveOpens
                      exact inductionHypothesis
                        (sound.of_mem _ (Keyed.mem_of_lookup atAbove)) belowOpens aboveOpens
          | bool | unsigned | signed | float | text | list => cases aboveOpens
      | bool | unsigned | signed | float | text | list => cases belowOpens

/-! ## One layer after another -/

/-- Sound layers with nothing but tables above a path give such a layer when they are laid one
after another, and what stands at the path then depends on what they hold there. -/
theorem foldl_overlaid_along {path : List String} {layers : List Setting}
    (each : ∀ layer ∈ layers, layer.Sound ∧ layer.opens path = true) {below : Setting}
    (belowSound : below.Sound) (belowOpens : below.opens path = true) :
    (layers.foldl overlaid below).Sound ∧ (layers.foldl overlaid below).opens path = true ∧
      (layers.foldl overlaid below).at? path =
        (layers.map (at? path)).foldl over? (below.at? path) := by
  induction layers generalizing below with
  | nil => exact ⟨belowSound, belowOpens, rfl⟩
  | cons layer rest inductionHypothesis =>
      obtain ⟨⟨sound, opens⟩, others⟩ := List.forall_mem_cons.mp each
      obtain ⟨laidOpens, laid⟩ := overlaid_along sound belowOpens opens
      rw [List.foldl_cons, List.map_cons, List.foldl_cons, ← laid]
      exact inductionHypothesis others (sound.overlaid belowSound) laidOpens

/-- Layers that hold nothing do not count. -/
theorem foldl_over?_map (at? : Setting → Option Setting) (layers : List Setting)
    (below : Option Setting) :
    (layers.map at?).foldl over? below =
      (layers.filterMap at?).foldl (fun below value => over? below (some value)) below := by
  induction layers generalizing below with
  | nil => rfl
  | cons layer rest inductionHypothesis =>
      rw [List.map_cons, List.foldl_cons, inductionHypothesis, List.filterMap_cons]
      cases at? layer with
      | none => rw [over?_none_right]
      | some value => rfl

/-- What is no table after some layers was put there by one of them, or by none of them and was
there before. -/
theorem of_foldl_over?_eq_leaf {given : List (Option Setting)} {below : Option Setting}
    {value : Setting} (laid : given.foldl over? below = some value)
    (leaf : value.isTable = false) :
    some value ∈ given ∨ (∀ above ∈ given, above = none) ∧ below = some value := by
  induction given generalizing below with
  | nil => exact .inr ⟨List.forall_mem_nil _, laid⟩
  | cons first rest inductionHypothesis =>
      rcases inductionHypothesis laid with later | ⟨absent, here⟩
      · exact .inl (List.mem_cons_of_mem first later)
      · rcases of_over?_eq_leaf here leaf with same | ⟨unset, before⟩
        · exact .inl (same ▸ List.mem_cons_self)
        · exact .inr ⟨List.forall_mem_cons.mpr ⟨unset, absent⟩, before⟩

/-- Whether nothing or something else than a table is held. -/
def HoldsNoTable (held : Option Setting) : Prop := ∀ value ∈ held, value.isTable = false

/-- Two layers without a table somewhere leave none there. -/
theorem HoldsNoTable.over? {below above : Option Setting} (lower : HoldsNoTable below)
    (upper : HoldsNoTable above) : HoldsNoTable (over? below above) := by
  cases above with
  | none => rwa [over?_none_right]
  | some value =>
      cases below with
      | none => exact upper
      | some base =>
          have leaf := upper value rfl
          rw [Setting.over?, overlaid_of_leaf leaf]
          exact upper

/-- Layers without a table somewhere leave none there. -/
theorem HoldsNoTable.foldl_over? {given : List (Option Setting)} {below : Option Setting}
    (lower : HoldsNoTable below) (each : ∀ above ∈ given, HoldsNoTable above) :
    HoldsNoTable (given.foldl Setting.over? below) := by
  induction given generalizing below with
  | nil => exact lower
  | cons first rest inductionHypothesis =>
      obtain ⟨here, others⟩ := List.forall_mem_cons.mp each
      exact inductionHypothesis (lower.over? here) others

/-- Nothing stands where neither layer holds anything. -/
theorem over?_eq_none {below above : Option Setting} :
    over? below above = none ↔ below = none ∧ above = none := by
  cases below <;> cases above <;> simp [over?]

/-- Nothing stands after some layers where none of them holds anything and nothing stood
before. -/
theorem foldl_over?_eq_none {given : List (Option Setting)} {below : Option Setting} :
    given.foldl over? below = none ↔ below = none ∧ ∀ above ∈ given, above = none := by
  induction given generalizing below with
  | nil => simp
  | cons first rest inductionHypothesis =>
      rw [List.foldl_cons, inductionHypothesis, over?_eq_none, List.forall_mem_cons, and_assoc]

end FieldGuide.Setting
