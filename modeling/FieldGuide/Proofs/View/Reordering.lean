import FieldGuide.Field.Edit
import FieldGuide.Proofs.Snippets
import FieldGuide.Proofs.View.DistinctKeys

/-!
# The order of an example

A view puts entries in declared order, so that the order in which an example happens to give
them should not be seen. This module says which reorderings of an example leave its entries
to the view: those of walked mappings, at any depth, that keep the order among the undeclared
keys the view shows. The main statement is that the views and snippets of an example with
distinct keys are the same after any of them. Two entries of one declared key would show
their order, since the declared position does not tell them apart.
-/

namespace FieldGuide

/-- Whether an entry of a mapping that is walked against `parent` is shown where the example
has it: its key names no field and is not removed. -/
def ViewOptions.followsExample (options : ViewOptions) (parent : Field)
    (entry : String × Tree) : Bool :=
  (parent.lookup? entry.1).isNone && !options.strips entry.1

/-- Values arranged as `kind` says, with elements that `field` describes, which differ only in
the order of entries of mappings walked against children. Of such a mapping, the values of a
declared key are related as values of the field that it names, the values of other keys are
the same, and undeclared keys keep their order unless they are removed. -/
inductive Reordered (options : ViewOptions) : Kind → Field → Tree → Tree → Prop
  | same (kind field tree) : Reordered options kind field tree tree
  | mapping {field left changed right} (declares : field.children ≠ [])
      (keys : left.map Prod.fst = changed.map Prod.fst)
      (declared : ∀ pair ∈ left.zip changed, ∀ position child,
        field.lookup? pair.1.1 = some (position, child) →
          Reordered options child.kind child pair.1.2 pair.2.2)
      (undeclared : ∀ pair ∈ left.zip changed,
        field.lookup? pair.1.1 = none → pair.1.2 = pair.2.2)
      (permuted : changed.Perm right)
      (inOrder : changed.filter (options.followsExample field) =
        right.filter (options.followsExample field)) :
      Reordered options .scalar field (.mapping left) (.mapping right)
  | map {field left right} (keys : left.map Prod.fst = right.map Prod.fst)
      (values : ∀ pair ∈ left.zip right, Reordered options .scalar field pair.1.2 pair.2.2) :
      Reordered options .map field (.mapping left) (.mapping right)
  | array {field left right} (lengths : left.length = right.length)
      (items : ∀ pair ∈ left.zip right, Reordered options .scalar field pair.1 pair.2) :
      Reordered options .array field (.sequence left) (.sequence right)
  | grid {field left right} (lengths : left.length = right.length)
      (rows : ∀ pair ∈ left.zip right, Reordered options .array field pair.1 pair.2) :
      Reordered options .grid field (.sequence left) (.sequence right)

/-- A mapping in another order, with its values left as they are. -/
theorem Reordered.of_perm {options : ViewOptions} {field : Field}
    {left right : List (String × Tree)} (declares : field.children ≠ [])
    (permuted : left.Perm right) (inOrder : left.filter (options.followsExample field) =
      right.filter (options.followsExample field)) :
    Reordered options .scalar field (.mapping left) (.mapping right) := by
  have unchanged : ∀ pair ∈ left.zip left, pair.1 = pair.2 := by
    have related : List.Forall₂ Eq left left := List.forall₂_refl left
    exact fun _ member => (List.forall₂_iff_zip.mp related).2 member
  refine .mapping declares rfl ?_ ?_ permuted inOrder
  · intro pair member position child _
    rw [unchanged pair member]
    exact .same _ _ _
  · intro pair member _
    rw [unchanged pair member]

/-- Examples that differ only in the order of entries of walked mappings. The mapping of a
scalar root is walked even when the root declares nothing. -/
inductive ExampleReordered (options : ViewOptions) (root : Field) : Tree → Tree → Prop
  | value {left right} (value : Reordered options root.kind root left right) :
      ExampleReordered options root left right
  | bare {left right} (scalar : root.kind = .scalar) (childless : root.children = [])
      (permuted : left.Perm right)
      (inOrder : left.filter (options.followsExample root) =
        right.filter (options.followsExample root)) :
      ExampleReordered options root (.mapping left) (.mapping right)

namespace View

section Pairs

/-- Lists have the same images when their members do, place by place. -/
theorem map_eq_of_zip {α β γ : Type} {first : α → γ} {second : β → γ} {left : List α}
    {right : List β} (lengths : left.length = right.length)
    (same : ∀ pair ∈ left.zip right, first pair.1 = second pair.2) :
    left.map first = right.map second := by
  have related : List.Forall₂ (fun value other => first value = second other) left right :=
    List.forall₂_iff_zip.mpr ⟨lengths, fun member => same _ member⟩
  rwa [← List.forall₂_eq_eq_eq, List.forall₂_map_left_iff, List.forall₂_map_right_iff]

variable {left right : List (String × Tree)} (keys : left.map Prod.fst = right.map Prod.fst)
include keys

/-- Mappings with the same keys have equally many entries. -/
theorem length_eq_of_keys : left.length = right.length := by
  simpa using congrArg List.length keys

/-- Entries at one place of mappings with the same keys have one key. -/
theorem key_eq_of_mem_zip {pair : (String × Tree) × (String × Tree)}
    (member : pair ∈ left.zip right) : pair.1.1 = pair.2.1 := by
  rw [← List.forall₂_eq_eq_eq, List.forall₂_map_left_iff, List.forall₂_map_right_iff] at keys
  exact (List.forall₂_iff_zip.mp keys).2 member

end Pairs

variable {view : View} {parent : Field} {left right : List (String × Tree)}

/-- Of entries whose keys name no field, those are shown that follow the example. -/
theorem filterMap_shown?_eq_followsExample {entries : List (String × Tree)}
    (undeclared : ∀ entry ∈ entries, parent.lookup? entry.1 = none) :
    entries.filterMap (view.shown? parent) =
      entries.filter (view.options.followsExample parent) := by
  rw [filterMap_shown?_of_undeclared undeclared]
  apply List.filter_congr
  intro entry member
  rw [ViewOptions.followsExample, undeclared entry member]
  rfl

/-- Reordering a mapping with distinct keys leaves at each declared rank the entry that is
there. -/
theorem filter_rank_eq_of_perm (distinct : (left.map Prod.fst).Nodup)
    (permuted : left.Perm right) {place : Nat} (declared : place < parent.children.length) :
    (left.filter fun entry => parent.rank entry.1 = place) =
      right.filter fun entry => parent.rank entry.1 = place := by
  have permutedHere := permuted.filter fun entry => decide (parent.rank entry.1 = place)
  -- All entries of the rank are one entry, so that the reordering cannot be seen.
  have onlyOne : ∀ first ∈ left.filter (fun entry => parent.rank entry.1 = place),
      ∀ second ∈ right.filter (fun entry => parent.rank entry.1 = place), first = second := by
    intro first firstMember second secondMember
    obtain ⟨firstIn, firstRank⟩ := List.mem_filter.mp firstMember
    obtain ⟨secondIn, secondRank⟩ := List.mem_filter.mp (permutedHere.mem_iff.mpr secondMember)
    rw [decide_eq_true_eq] at firstRank secondRank
    have sameKey : first.1 = second.1 :=
      Field.eq_of_rank_eq (Field.rank_lt_iff.mp (firstRank ▸ declared))
        (Field.rank_lt_iff.mp (secondRank ▸ declared)) (firstRank.trans secondRank.symm)
    exact List.inj_on_of_nodup_map distinct firstIn secondIn sameKey
  have anyOrder (entries : List (String × Tree)) : entries.Pairwise fun _ _ => True :=
    List.pairwise_of_forall fun _ _ => trivial
  exact List.Perm.eq_of_pairwise
    (fun first second firstMember secondMember _ _ =>
      onlyOne first firstMember second secondMember)
    (anyOrder _) (anyOrder _) permutedHere

/-- What is shown of a mapping with distinct keys does not depend on the order of its
entries, except for undeclared keys that are not removed. -/
theorem shownEntries_eq_of_perm (distinct : (left.map Prod.fst).Nodup)
    (permuted : left.Perm right)
    (inOrder : left.filter (view.options.followsExample parent) =
      right.filter (view.options.followsExample parent)) :
    view.shownEntries parent left = view.shownEntries parent right := by
  refine orderedBy_eq_of_filter fun place => ?_
  rw [filter_filterMap_shown?, filter_filterMap_shown?]
  by_cases declared : place < parent.children.length
  · rw [filter_rank_eq_of_perm distinct permuted declared]
  · have undeclared (entries : List (String × Tree)) :
        ∀ entry ∈ entries.filter fun entry => parent.rank entry.1 = place,
          parent.lookup? entry.1 = none := by
      intro entry member
      have here : parent.rank entry.1 = place := by simpa using (List.mem_filter.mp member).2
      by_contra found
      exact declared (here ▸ Field.rank_lt_iff.mpr found)
    rw [filterMap_shown?_eq_followsExample (undeclared left),
      filterMap_shown?_eq_followsExample (undeclared right), List.filter_comm, inOrder,
      List.filter_comm]

/-- What is shown of a mapping does not change with values that are walked to the same. -/
theorem shownEntries_eq_of_values (keys : left.map Prod.fst = right.map Prod.fst)
    (declared : ∀ pair ∈ left.zip right, ∀ position child,
      parent.lookup? pair.1.1 = some (position, child) →
        view.walk child.kind child pair.1.2 = view.walk child.kind child pair.2.2)
    (undeclared : ∀ pair ∈ left.zip right,
      parent.lookup? pair.1.1 = none → pair.1.2 = pair.2.2) :
    view.shownEntries parent left = view.shownEntries parent right := by
  have sameShown : left.map (view.shown? parent) = right.map (view.shown? parent) := by
    refine map_eq_of_zip (length_eq_of_keys keys) fun pair member => ?_
    obtain ⟨⟨key, old⟩, ⟨other, new⟩⟩ := pair
    obtain rfl : key = other := key_eq_of_mem_zip keys member
    cases found : parent.lookup? key with
    | none =>
        obtain rfl : old = new := undeclared _ member found
        rfl
    | some place =>
        obtain ⟨position, child⟩ := place
        have leftDeclared : parent.lookup? (key, old).1 = some (position, child) := found
        have rightDeclared : parent.lookup? (key, new).1 = some (position, child) := found
        have walked := declared _ member position child found
        rw [shown?_of_declared leftDeclared, shown?_of_declared rightDeclared, walked]
  have selected := congrArg (List.filterMap id) sameShown
  rw [List.filterMap_map, List.filterMap_map] at selected
  exact congrArg (orderedBy _) selected

/-- Reordered values are walked to the same. -/
theorem walk_eq_of_reordered {kind : Kind} {field : Field} {left right : Tree}
    (distinct : left.hasDistinctKeys = true)
    (reordered : Reordered view.options kind field left right) :
    view.walk kind field left = view.walk kind field right := by
  induction reordered with
  | same => rfl
  | @mapping field left changed right declares keys declared undeclared permuted inOrder
      inductionHypothesis =>
      obtain ⟨distinctKeys, values⟩ := Tree.hasDistinctKeys_mapping.mp distinct
      have below : view.shownEntries field left = view.shownEntries field changed := by
        refine shownEntries_eq_of_values keys (fun pair member position child found => ?_)
          undeclared
        exact inductionHypothesis pair member position child found
          (values _ (List.of_mem_zip member).1)
      rw [walk_mapping_scalar _ _ _ declares, walk_mapping_scalar _ _ _ declares, below,
        shownEntries_eq_of_perm (keys ▸ distinctKeys) permuted inOrder]
  | @map field left right keys values inductionHypothesis =>
      obtain ⟨-, distinctValues⟩ := Tree.hasDistinctKeys_mapping.mp distinct
      rw [walk_mapping_map, walk_mapping_map]
      refine congrArg Tree.mapping (map_eq_of_zip (length_eq_of_keys keys) fun pair member => ?_)
      exact Prod.ext (key_eq_of_mem_zip keys member)
        (inductionHypothesis pair member (distinctValues _ (List.of_mem_zip member).1))
  | @array field left right lengths items inductionHypothesis =>
      have distinctItems := Tree.hasDistinctKeys_sequence.mp distinct
      rw [walk_sequence_array, walk_sequence_array]
      refine congrArg Tree.sequence (map_eq_of_zip lengths fun pair member => ?_)
      exact inductionHypothesis pair member (distinctItems _ (List.of_mem_zip member).1)
  | @grid field left right lengths rows inductionHypothesis =>
      have distinctRows := Tree.hasDistinctKeys_sequence.mp distinct
      rw [walk_sequence_grid, walk_sequence_grid]
      refine congrArg Tree.sequence (map_eq_of_zip lengths fun pair member => ?_)
      exact inductionHypothesis pair member (distinctRows _ (List.of_mem_zip member).1)

/-- A reordered example has the same view. -/
theorem apply_eq_of_reordered {root : Field} {left right : Tree}
    (distinct : left.hasDistinctKeys = true)
    (reordered : ExampleReordered view.options root left right) :
    view.apply root left = view.apply root right := by
  cases reordered with
  | value value =>
      have walked := walk_eq_of_reordered distinct value
      by_cases scalar : root.kind = .scalar
      · rw [scalar] at value
        cases value with
        | same => rfl
        | mapping declares =>
            rw [apply_of_declares _ _ _ declares, apply_of_declares _ _ _ declares, walked]
      · rw [apply_of_not_scalar _ _ _ scalar, apply_of_not_scalar _ _ _ scalar, walked]
  | bare scalar childless permuted inOrder =>
      have keys := (Tree.hasDistinctKeys_mapping.mp distinct).1
      rw [apply_mapping_scalar _ _ _ scalar, apply_mapping_scalar _ _ _ scalar,
        shownEntries_eq_of_perm keys permuted inOrder]

end View

namespace Snippets

/-- Examples with distinct keys that differ only in the order of entries of walked mappings
have the same views and the same snippets. -/
theorem ofExample_eq_of_reordered {options : ViewOptions} {config : Field} {left right : Tree}
    (distinct : left.hasDistinctKeys = true)
    (reordered : ExampleReordered options config left right) :
    (∀ filter, View.apply ⟨filter, options⟩ config left =
        View.apply ⟨filter, options⟩ config right) ∧
      ∀ {leftShown rightShown : Datum}, leftShown.toTree = .ok left →
        rightShown.toTree = .ok right → ∀ role nested, ∃ snippets,
          ofExample role config nested leftShown options = .ok snippets ∧
            ofExample role config nested rightShown options = .ok snippets := by
  have sameView (filter : Filter) :
      View.apply ⟨filter, options⟩ config left = View.apply ⟨filter, options⟩ config right :=
    @View.apply_eq_of_reordered ⟨filter, options⟩ config left right distinct reordered
  refine ⟨sameView, fun leftEncodes rightEncodes role nested => ⟨_, ?_,
    ofExample_of_toTree rightEncodes role config nested options⟩⟩
  have sameTree (filter : Filter) : shownTree role config nested ⟨filter, options⟩ left =
      shownTree role config nested ⟨filter, options⟩ right := by
    rw [shownTree, shownTree, sameView]
  rw [ofExample_of_toTree leftEncodes, sameTree, sameTree]

/-- What a server declares about its certificate. -/
def certificate : Field := .ofChildren "tls" [.ofType "cert" .string, .ofType "key" .string]

/-- A server and its address. -/
def server : Field := .root [.ofType "url" .string, certificate]

/-- A server with its key before its certificate, or after it, and a note of its own. -/
def serverWith (tls : List (String × Tree)) : List (String × Tree) :=
  [("type", .text "http"), ("tls", .mapping tls), ("note", .null), ("url", .text "u")]

/-- The server turned around, also in what it says about its certificate, has the same
snippets. -/
theorem ofExample_serverWith :
    let keyFirst := [("key", Tree.text "k"), ("cert", Tree.text "c")]
    let left := Tree.mapping (serverWith keyFirst)
    let right := Tree.mapping (serverWith keyFirst.reverse).reverse
    let text := "input:\n  url: u\n  tls:\n    cert: c\n    key: k\n  note: null\n"
    left.hasDistinctKeys = true ∧ ExampleReordered {} server left right ∧
      ofExample .input server true (Datum.ofTree left) {} = .ok ⟨text, text⟩ ∧
        ofExample .input server true (Datum.ofTree right) {} = .ok ⟨text, text⟩ := by
  intro keyFirst left right text
  have inner : Reordered {} .scalar certificate (.mapping keyFirst) (.mapping keyFirst.reverse) :=
    .of_perm (List.cons_ne_nil _ _) (List.reverse_perm _).symm rfl
  have places : ∀ pair ∈ (serverWith keyFirst).zip (serverWith keyFirst.reverse),
      pair.1 = pair.2 ∨
        pair = (("tls", .mapping keyFirst), ("tls", .mapping keyFirst.reverse)) := by
    simp [serverWith]
  have keys : (serverWith keyFirst).map Prod.fst = (serverWith keyFirst.reverse).map Prod.fst :=
    rfl
  have turned : (serverWith keyFirst.reverse).Perm (serverWith keyFirst.reverse).reverse :=
    (List.reverse_perm _).symm
  have reordered : ExampleReordered {} server left right := by
    refine .value (.mapping (List.cons_ne_nil _ _) keys ?_ ?_ turned rfl)
    · intro pair member position child declared
      rcases places pair member with unchanged | rfl
      · rw [unchanged]
        exact .same _ _ _
      · obtain ⟨-, rfl⟩ := Prod.mk.inj (Option.some.inj declared)
        exact inner
    · intro pair member undeclared
      rcases places pair member with unchanged | rfl
      · rw [unchanged]
      · cases undeclared
  have distinct : left.hasDistinctKeys = true := by decide
  have encodes (tree : Tree) (distinct : tree.hasDistinctKeys = true) :
      (Datum.ofTree tree).toTree = .ok tree := Datum.toTree_ofTree_iff.mpr distinct
  have shown : ofExample .input server true (Datum.ofTree left) {} = .ok ⟨text, text⟩ := by
    rw [ofExample_of_toTree (encodes left distinct)]
    exact congrArg Except.ok (by decide)
  obtain ⟨snippets, first, second⟩ := (ofExample_eq_of_reordered distinct reordered).2
    (encodes left distinct) (encodes right (by decide)) .input true
  obtain rfl := Except.ok.inj (first.symm.trans shown)
  exact ⟨distinct, reordered, first, second⟩

end Snippets

end FieldGuide
