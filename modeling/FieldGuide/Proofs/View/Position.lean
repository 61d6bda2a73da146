import FieldGuide.Proofs.View.DistinctKeys

/-!
# Walked positions

`Field.Visits` says which mappings of a value are walked against a list of fields, by
which path they are reached, and which fields the path passes. It mentions no view: a
view only decides what becomes of the mappings it visits. The main statements compare
the visits of a walked value with those of the value itself. Every mapping visited in a
view shows a mapping visited in the example below revealed fields, and a mapping of
which something is shown is still visited by the same path.
-/

namespace FieldGuide

/-- A step from a tree to one directly below it. -/
inductive Tree.Step
  | key (name : String)
  | item (index : Nat)
  deriving DecidableEq, Repr

namespace Tree

/-- The tree one step below. -/
def below? (tree : Tree) : Step → Option Tree
  | .key name => tree.get? name
  | .item index => tree.items?.bind fun items => items[index]?

/-- The tree at the end of a path. -/
def at? (tree : Tree) : List Step → Option Tree
  | [] => some tree
  | step :: rest => (tree.below? step).bind fun below => below.at? rest

/-- A key of a mapping leads to the value looked up. -/
@[simp]
theorem at?_key (entries : List (String × Tree)) (name : String) (rest : List Step) :
    (mapping entries).at? (.key name :: rest) =
      (entries.lookup name).bind fun below => below.at? rest := rfl

/-- An index of a sequence leads to the item there. -/
@[simp]
theorem at?_item (items : List Tree) (index : Nat) (rest : List Step) :
    (sequence items).at? (.item index :: rest) =
      items[index]?.bind fun below => below.at? rest := rfl

/-- A path is followed part by part. -/
theorem at?_append (tree : Tree) (first second : List Step) :
    tree.at? (first ++ second) = (tree.at? first).bind fun below => below.at? second := by
  induction first generalizing tree with
  | nil => rfl
  | cons step rest inductionHypothesis =>
      rw [List.cons_append, at?, at?]
      cases tree.below? step with
      | none => rfl
      | some below => exact inductionHypothesis below

end Tree

/-- In a value arranged as `kind` says, whose elements `field` describes, the path leads
through walked positions to a mapping with the given entries, which is walked against
the children of `parent`; `above` are the declared fields named along the path. -/
inductive Field.Visits : Kind → Field → Tree → List Tree.Step → List Field → Field →
    List (String × Tree) → Prop
  | here {field entries} (declares : field.children ≠ []) :
      Visits .scalar field (.mapping entries) [] [] field entries
  | entry {field entries key value position child path above parent found}
      (declared : field.lookup? key = some (position, child))
      (member : (key, value) ∈ entries)
      (below : Visits child.kind child value path above parent found) :
      Visits .scalar field (.mapping entries) (.key key :: path) (child :: above) parent found
  | value {field entries key value path above parent found}
      (member : (key, value) ∈ entries)
      (below : Visits .scalar field value path above parent found) :
      Visits .map field (.mapping entries) (.key key :: path) above parent found
  | item {field items index item path above parent found}
      (listed : items[index]? = some item)
      (below : Visits .scalar field item path above parent found) :
      Visits .array field (.sequence items) (.item index :: path) above parent found
  | row {field rows index row path above parent found}
      (listed : rows[index]? = some row)
      (below : Visits .array field row path above parent found) :
      Visits .grid field (.sequence rows) (.item index :: path) above parent found

namespace Field.Visits

variable {view : View} {kind : Kind} {field parent : Field} {tree : Tree}
  {path : List Tree.Step} {above : List Field} {entries : List (String × Tree)}

/-- A value with a visited mapping has elements with children. -/
theorem field_declares (visits : Visits kind field tree path above parent entries) :
    field.children ≠ [] := by
  induction visits with
  | here declares => exact declares
  | entry declared _ _ _ => exact List.ne_nil_of_mem (mem_children_of_lookup declared)
  | value _ _ inductionHypothesis => exact inductionHypothesis
  | item _ _ inductionHypothesis => exact inductionHypothesis
  | row _ _ inductionHypothesis => exact inductionHypothesis

/-- What is visited in the value of a visited entry is visited in the whole value, by the
path to the entry followed by the path below it. -/
theorem descend {key : String} {value : Tree} {position : Nat} {child other : Field}
    {rest : List Tree.Step} {others : List Field} {found : List (String × Tree)}
    (visits : Visits kind field tree path above parent entries)
    (declared : parent.lookup? key = some (position, child)) (member : (key, value) ∈ entries)
    (below : Visits child.kind child value rest others other found) :
    Visits kind field tree (path ++ .key key :: rest) (above ++ child :: others) other found := by
  induction visits with
  | here _ => exact .entry declared member below
  | entry outerDeclared outerMember _ inductionHypothesis =>
      exact .entry outerDeclared outerMember (inductionHypothesis declared member)
  | value outerMember _ inductionHypothesis =>
      exact .value outerMember (inductionHypothesis declared member)
  | item listed _ inductionHypothesis => exact .item listed (inductionHypothesis declared member)
  | row listed _ inductionHypothesis => exact .row listed (inductionHypothesis declared member)

/-- In a tree with distinct keys, the path leads to the visited mapping. -/
theorem at?_eq (visits : Visits kind field tree path above parent entries)
    (distinct : tree.hasDistinctKeys = true) : tree.at? path = some (.mapping entries) := by
  induction visits with
  | here _ => rfl
  | entry _ member _ inductionHypothesis | value member _ inductionHypothesis =>
      obtain ⟨keys, values⟩ := Tree.hasDistinctKeys_mapping.mp distinct
      rw [Tree.at?_key, Tree.lookup_of_mem keys member]
      exact inductionHypothesis (values _ member)
  | item listed _ inductionHypothesis | row listed _ inductionHypothesis =>
      have parts := Tree.hasDistinctKeys_sequence.mp distinct
      rw [Tree.at?_item, listed]
      exact inductionHypothesis (parts _ (List.mem_of_getElem? listed))

/-- In a tree with distinct keys, a visited mapping has distinct keys. -/
theorem keys_nodup (visits : Visits kind field tree path above parent entries)
    (distinct : tree.hasDistinctKeys = true) : (entries.map Prod.fst).Nodup := by
  induction visits with
  | here _ => exact (Tree.hasDistinctKeys_mapping.mp distinct).1
  | entry _ member _ inductionHypothesis | value member _ inductionHypothesis =>
      exact inductionHypothesis ((Tree.hasDistinctKeys_mapping.mp distinct).2 _ member)
  | item listed _ inductionHypothesis | row listed _ inductionHypothesis =>
      exact inductionHypothesis
        (Tree.hasDistinctKeys_sequence.mp distinct _ (List.mem_of_getElem? listed))

/-- What is shown below an entry that names a field comes from such an entry: the field
is revealed, and the shown value is a walked one. -/
theorem source_of_shown {key : String} {value : Tree} {position : Nat} {child : Field}
    (declared : parent.lookup? key = some (position, child))
    (member : (key, value) ∈ view.shownEntries parent entries) :
    ∃ source, (key, source) ∈ entries ∧ value = view.walk child.kind child source ∧
      view.filter.reveals child = true ∧ view.keeps child value = true := by
  obtain ⟨⟨name, source⟩, sourceMember, shows⟩ := View.mem_shownEntries.mp member
  obtain rfl : key = name := View.key_of_shown shows
  rw [View.shown?_of_declared declared, Option.ite_none_right_eq_some] at shows
  obtain ⟨kept, same⟩ := shows
  obtain rfl : view.walk child.kind child source = value :=
    congrArg Prod.snd (Option.some.inj same)
  obtain ⟨revealed, keeps⟩ := Bool.and_eq_true_iff.mp kept
  exact ⟨source, sourceMember, rfl, revealed, keeps⟩

/-- An entry that names a revealed field is shown if the view keeps its walked value. -/
theorem mem_shown {key : String} {value : Tree} {position : Nat} {child : Field}
    (declared : parent.lookup? key = some (position, child)) (member : (key, value) ∈ entries)
    (revealed : view.filter.reveals child = true)
    (kept : view.keeps child (view.walk child.kind child value) = true) :
    (key, view.walk child.kind child value) ∈ view.shownEntries parent entries := by
  refine View.mem_shownEntries.mpr ⟨(key, value), member, ?_⟩
  rw [View.shown?_of_declared declared, revealed, kept]
  rfl

/-- A mapping visited in a walked value shows the entries of a mapping visited in the
value by the same path, which passes revealed fields only. -/
theorem source_of_walk {shown : List (String × Tree)}
    (visits : Visits kind field (view.walk kind field tree) path above parent shown) :
    ∃ entries, Visits kind field tree path above parent entries ∧
      (∀ passed ∈ above, view.filter.reveals passed = true) ∧
      shown = view.shownEntries parent entries := by
  induction tree generalizing kind field path above with
  | null | bool value | number value | text value =>
      simp only [View.walk] at visits
      cases visits
  | sequence items inductionHypothesis =>
      cases kind with
      | scalar | map =>
          simp only [View.walk] at visits
          cases visits
      | array =>
          rw [View.walk_sequence_array] at visits
          cases visits with
          | item listed below =>
              rw [List.getElem?_map, Option.map_eq_some_iff] at listed
              obtain ⟨item, itemListed, rfl⟩ := listed
              obtain ⟨entries, source, revealed, same⟩ :=
                inductionHypothesis item (List.mem_of_getElem? itemListed) below
              exact ⟨entries, .item itemListed source, revealed, same⟩
      | grid =>
          rw [View.walk_sequence_grid] at visits
          cases visits with
          | row listed below =>
              rw [List.getElem?_map, Option.map_eq_some_iff] at listed
              obtain ⟨row, rowListed, rfl⟩ := listed
              obtain ⟨entries, source, revealed, same⟩ :=
                inductionHypothesis row (List.mem_of_getElem? rowListed) below
              exact ⟨entries, .row rowListed source, revealed, same⟩
  | mapping entries inductionHypothesis =>
      cases kind with
      | scalar =>
          have declares := visits.field_declares
          rw [View.walk_mapping_scalar view field entries declares] at visits
          cases visits with
          | here _ => exact ⟨entries, .here declares, by simp, rfl⟩
          | entry declared member below =>
              obtain ⟨source, sourceMember, rfl, revealed, -⟩ := source_of_shown declared member
              obtain ⟨found, visited, passes, same⟩ :=
                inductionHypothesis _ sourceMember below
              refine ⟨found, .entry declared sourceMember visited, ?_, same⟩
              exact List.forall_mem_cons.mpr ⟨revealed, passes⟩
      | map =>
          rw [View.walk_mapping_map] at visits
          cases visits with
          | value member below =>
              obtain ⟨entry, entryMember, same⟩ := List.mem_map.mp member
              obtain ⟨rfl, rfl⟩ := Prod.mk.inj same
              obtain ⟨found, visited, passes, shows⟩ :=
                inductionHypothesis entry entryMember below
              exact ⟨found, .value entryMember visited, passes, shows⟩
      | array | grid =>
          simp only [View.walk] at visits
          cases visits

/-- A mapping below revealed fields of which something is shown is visited in the walked
value by the same path, and keeps that value populated. -/
theorem walk (visits : Visits kind field tree path above parent entries)
    (revealed : ∀ passed ∈ above, view.filter.reveals passed = true)
    (shows : view.shownEntries parent entries ≠ []) :
    Visits kind field (view.walk kind field tree) path above parent
        (view.shownEntries parent entries) ∧
      (view.walk kind field tree).isPopulated = true := by
  induction visits with
  | here declares =>
      rw [View.walk_mapping_scalar _ _ _ declares]
      exact ⟨.here declares, by simpa using shows⟩
  | @entry field entries key value position child path above parent found declared member below
      inductionHypothesis =>
      obtain ⟨childRevealed, passes⟩ := List.forall_mem_cons.mp revealed
      obtain ⟨visited, populated⟩ := inductionHypothesis passes shows
      have kept : view.keeps child (view.walk child.kind child value) = true := by
        rw [View.keeps, populated, Bool.or_true]
      have shown := mem_shown declared member childRevealed kept
      rw [View.walk_mapping_scalar _ _ _ (List.ne_nil_of_mem (mem_children_of_lookup declared))]
      exact ⟨.entry declared shown visited, by simpa using List.ne_nil_of_mem shown⟩
  | @value field entries key value path above parent found member below inductionHypothesis =>
      obtain ⟨visited, -⟩ := inductionHypothesis revealed shows
      have walked : (key, view.walk .scalar field value) ∈
          entries.map fun entry => (entry.1, view.walk .scalar field entry.2) :=
        List.mem_map.mpr ⟨(key, value), member, rfl⟩
      rw [View.walk_mapping_map]
      exact ⟨.value walked visited, by simpa using List.ne_nil_of_mem member⟩
  | @item field items index item path above parent found listed below inductionHypothesis =>
      obtain ⟨visited, populated⟩ := inductionHypothesis revealed shows
      have walked : (items.map (view.walk .scalar field))[index]? =
          some (view.walk .scalar field item) := by
        rw [List.getElem?_map, listed, Option.map_some]
      rw [View.walk_sequence_array, Tree.isPopulated_sequence]
      exact ⟨.item walked visited,
        List.any_eq_true.mpr ⟨_, List.mem_of_getElem? walked, populated⟩⟩
  | @row field rows index row path above parent found listed below inductionHypothesis =>
      obtain ⟨visited, populated⟩ := inductionHypothesis revealed shows
      have walked : (rows.map (view.walk .array field))[index]? =
          some (view.walk .array field row) := by
        rw [List.getElem?_map, listed, Option.map_some]
      rw [View.walk_sequence_grid, Tree.isPopulated_sequence]
      exact ⟨.row walked visited,
        List.any_eq_true.mpr ⟨_, List.mem_of_getElem? walked, populated⟩⟩

end Field.Visits

end FieldGuide
