import FieldGuide.Proofs.Example.Datum
import Mathlib.Data.List.Basic

/-!
# Parts of example data

An example is taken apart into a part of it and the frames around the part. This module shows that
encoding goes along with this: the part has one place in the tree, which is the same for all parts
and holds what the part encodes to alone. Only a later entry with the same key can take the place
away, and the tree is then the same whatever the part is.
-/

namespace FieldGuide

/-- A tree around a part of it: the part is one item, or the value of one entry. -/
inductive Tree.Frame
  | item (before after : List Tree)
  | entry (before : List (String × Tree)) (key : String) (after : List (String × Tree))

namespace Tree

/-- The tree that a frame makes of a part. -/
def Frame.fill : Frame → Tree → Tree
  | .item before after, part => .sequence (before ++ part :: after)
  | .entry before key after, part => .mapping (before ++ (key, part) :: after)

/-- The tree that frames make of a part, the outermost frame first. -/
def within (frames : List Frame) (part : Tree) : Tree := frames.foldr Frame.fill part

/-- Frames are filled by what other frames make of a part. -/
theorem within_append (outer inner : List Frame) (part : Tree) :
    within (outer ++ inner) part = within outer (within inner part) :=
  List.foldr_append

/-- Different parts fill frames to different trees. -/
theorem within_injective (frames : List Frame) : Function.Injective (within frames) := by
  induction frames with
  | nil => exact Function.injective_id
  | cons frame rest inductionHypothesis =>
      have filled : Function.Injective frame.fill := by
        intro left right equal
        cases frame with
        | item | entry => simpa [Frame.fill] using equal
      exact filled.comp inductionHypothesis

end Tree

/-- A datum around a part of it that is no key: the part is an item, the value of an entry or
field, or the content of a variant or a part of this content. -/
inductive Datum.Frame
  | item (before after : List Datum)
  | value (before : List (Datum × Datum)) (key : Datum) (after : List (Datum × Datum))
  | field (before : List (String × Datum)) (name : String) (after : List (String × Datum))
  | content (name : String)
  | tupleItem (name : String) (before after : List Datum)
  | recordField (name : String) (before : List (String × Datum)) (fieldName : String)
      (after : List (String × Datum))

namespace Datum

/-- The datum that a frame makes of a part. -/
def Frame.fill : Frame → Datum → Datum
  | .item before after, part => .sequence (before ++ part :: after)
  | .value before key after, part => .mapping (before ++ (key, part) :: after)
  | .field before name after, part => .record (before ++ (name, part) :: after)
  | .content name, part => .variant name part
  | .tupleItem name before after, part => .tupleVariant name (before ++ part :: after)
  | .recordField name before fieldName after, part =>
      .recordVariant name (before ++ (fieldName, part) :: after)

/-- The datum that frames make of a part, the outermost frame first. -/
def within (frames : List Frame) (part : Datum) : Datum := frames.foldr Frame.fill part

/-- Whether both data are described and the first draft equals the second as a key. -/
def SameKey (left right : Datum) : Prop :=
  ∃ leftDraft rightDraft, left.toDraft = .ok leftDraft ∧ right.toDraft = .ok rightDraft ∧
    (leftDraft == rightDraft) = true

/-- Texts are the same key when they are equal. -/
theorem sameKey_text {left right : String} : SameKey (.text left) (.text right) ↔ left = right := by
  constructor
  · rintro ⟨_, _, ⟨⟩, ⟨⟩, equal⟩
    rw [Draft.beq_text] at equal
    exact beq_iff_eq.mp equal
  · rintro rfl
    exact ⟨.text left, .text left, rfl, rfl, (Draft.beq_text _ _).trans (beq_self_eq_true left)⟩

/-- Whether an entry or field after the part has the same key, or the key of an earlier entry that
is also the key of the part. -/
def Frame.Repeats : Frame → Prop
  | .value before key after => ∃ later ∈ after, SameKey later.1 key ∨
      ∃ earlier ∈ before, SameKey key earlier.1 ∧ SameKey later.1 earlier.1
  | .field _ name after | .recordField _ _ name after => name ∈ after.map Prod.fst
  | .item _ _ | .content _ | .tupleItem _ _ _ => False

end Datum

namespace Draft

/-- Whether what a function makes of a draft has a tree with one place for the tree of the draft,
or, where the draft is replaced, the same tree for all drafts. -/
def HasPlace (replaced : Prop) (make : Draft → Draft) : Prop :=
  ∀ part tree, (make part).toTree = .ok tree →
    (∃ content, part.toTree = .ok content ∧ ∃ around, ∀ other otherContent,
      other.toTree = .ok otherContent →
        (make other).toTree = .ok (Tree.within around otherContent)) ∨
    replaced ∧ ∀ other, (make other).toTree = .ok tree

/-- The condition for being replaced may be weakened. -/
theorem HasPlace.mono {replaced weaker : Prop} {make : Draft → Draft}
    (place : HasPlace replaced make) (weakens : replaced → weaker) : HasPlace weaker make :=
  fun part tree encoded => (place part tree encoded).imp_right fun same => ⟨weakens same.1, same.2⟩

/-- A draft itself has the whole tree as its place. -/
theorem hasPlace_id : HasPlace False id := fun _ tree encoded =>
  .inl ⟨tree, encoded, [], fun _ _ otherEncoded => otherEncoded⟩

/-- A place in a place is a place. -/
theorem HasPlace.comp {outerReplaced innerReplaced : Prop} {outer inner : Draft → Draft}
    (outerPlace : HasPlace outerReplaced outer) (innerPlace : HasPlace innerReplaced inner) :
    HasPlace (outerReplaced ∨ innerReplaced) (outer ∘ inner) := by
  intro part tree encoded
  rcases outerPlace (inner part) tree encoded with ⟨middle, inside, around, placed⟩ | same
  · rcases innerPlace part middle inside with ⟨content, encodes, below, placedBelow⟩ | same
    · refine .inl ⟨content, encodes, around ++ below, fun other otherContent otherEncoded => ?_⟩
      rw [Tree.within_append]
      exact placed _ _ (placedBelow other otherContent otherEncoded)
    · -- The outer place is filled by the same tree, whatever stands in the inner one.
      have filled : tree = Tree.within around middle :=
        Except.ok.inj (encoded.symm.trans (placed _ _ inside))
      exact .inr ⟨.inr same.1, fun other => filled ▸ placed _ _ (same.2 other)⟩
  · exact .inr ⟨.inl same.1, fun other => same.2 (inner other)⟩

/-- An item of a sequence has its place among the items. -/
theorem hasPlace_sequence (before after : List Draft) :
    HasPlace False fun part => .sequence (before ++ part :: after) := by
  intro part tree encoded
  obtain ⟨trees, members, rfl⟩ := bind_pure_eq_ok.mp encoded
  rw [toTrees_eq_mapM] at members
  obtain ⟨earlier, content, later, first, one, others, rfl⟩ := mapM_around_eq_ok.mp members
  refine .inl ⟨content, one, [.item earlier later], fun other otherContent otherEncoded => ?_⟩
  refine bind_pure_eq_ok.mpr ⟨earlier ++ otherContent :: later, ?_, rfl⟩
  rw [toTrees_eq_mapM]
  exact mapM_around_eq_ok.mpr ⟨earlier, otherContent, later, first, otherEncoded, others, rfl⟩

/-- The value of an entry has its place under the key of the entry. -/
theorem hasPlace_entry (before : List (Draft × Draft)) (key : Draft)
    (after : List (Draft × Draft)) :
    HasPlace False fun part => .mapping (before ++ (key, part) :: after) := by
  intro part tree encoded
  obtain ⟨pairs, members, rfl⟩ := bind_pure_eq_ok.mp encoded
  rw [toTreeEntries_eq_mapM] at members
  obtain ⟨earlier, pair, later, first, one, others, rfl⟩ := mapM_around_eq_ok.mp members
  obtain ⟨text, keyed, inside⟩ := bind_eq_ok.mp one
  obtain ⟨content, valued, rfl⟩ := bind_pure_eq_ok.mp inside
  refine .inl ⟨content, valued, [.entry earlier text later], fun other otherContent
    otherEncoded => bind_pure_eq_ok.mpr ⟨earlier ++ (text, otherContent) :: later, ?_, rfl⟩⟩
  rw [toTreeEntries_eq_mapM]
  refine mapM_around_eq_ok.mpr ⟨earlier, (text, otherContent), later, first, ?_, others, rfl⟩
  exact bind_eq_ok.mpr ⟨text, keyed, bind_pure_eq_ok.mpr ⟨otherContent, otherEncoded, rfl⟩⟩

/-- A value among entries that are collected has its place under its key, unless it is
replaced. -/
theorem hasPlace_collected (before : List (Draft × Draft)) (key : Draft)
    (after : List (Draft × Draft)) :
    HasPlace (Keyed.Replaces before key after)
      fun part => .mapping (Keyed.collect (before ++ (key, part) :: after)) := by
  rcases Keyed.holdsAt_collect before key after with
    ⟨name, earlier, later, placed⟩ | ⟨replaced, entries, same⟩
  · simp only [placed]
    exact (hasPlace_entry earlier name later).mono False.elim
  · simp only [same]
    exact fun _ tree encoded => .inr ⟨replaced, fun _ => encoded⟩

/-- The content of a tagged value has its place under the key of the tag. -/
theorem hasPlace_tagged (tag : String) : HasPlace False (.tagged tag) := by
  intro part tree encoded
  obtain ⟨content, inside, rfl⟩ := bind_pure_eq_ok.mp encoded
  exact .inl ⟨content, inside, [.entry [] (variantKey tag) []],
    fun other otherContent otherEncoded => bind_pure_eq_ok.mpr ⟨otherContent, otherEncoded, rfl⟩⟩

end Draft

namespace Datum

/-- Whether what a function makes of a datum has a draft only if the datum has one, which then has
a place in the tree unless it is replaced. -/
def Opens (replaced : Prop) (fill : Datum → Datum) : Prop :=
  ∀ part draft, (fill part).toDraft = .ok draft → ∃ inner make,
    part.toDraft = .ok inner ∧ Draft.HasPlace replaced make ∧ ∀ other otherInner,
      other.toDraft = .ok otherInner → (fill other).toDraft = .ok (make otherInner)

variable {replaced outerReplaced innerReplaced : Prop}

/-- The condition for being replaced may be weakened, for a part of a datum as well. -/
theorem Opens.mono {weaker : Prop} {fill : Datum → Datum} (opens : Opens replaced fill)
    (weakens : replaced → weaker) : Opens weaker fill := by
  intro part draft described
  obtain ⟨inner, make, inside, place, follows⟩ := opens part draft described
  exact ⟨inner, make, inside, place.mono weakens, follows⟩

/-- Only the draft of what is made counts. -/
theorem Opens.congr {fill other : Datum → Datum} (opens : Opens replaced fill)
    (same : ∀ part, (other part).toDraft = (fill part).toDraft) : Opens replaced other := by
  intro part draft described
  rw [same] at described
  obtain ⟨inner, make, inside, place, follows⟩ := opens part draft described
  exact ⟨inner, make, inside, place, fun part inner inside =>
    (same part).trans (follows part inner inside)⟩

/-- A datum is its own part. -/
theorem opens_id : Opens False id := fun _ draft described =>
  ⟨draft, id, described, Draft.hasPlace_id, fun _ _ otherDescribed => otherDescribed⟩

/-- A part of a part is a part. -/
theorem Opens.comp {outer inner : Datum → Datum} (outerOpens : Opens outerReplaced outer)
    (innerOpens : Opens innerReplaced inner) :
    Opens (outerReplaced ∨ innerReplaced) (outer ∘ inner) := by
  intro part draft described
  obtain ⟨middle, outerMake, inside, outerPlace, outerFollows⟩ :=
    outerOpens (inner part) draft described
  obtain ⟨content, innerMake, innermost, innerPlace, innerFollows⟩ :=
    innerOpens part middle inside
  exact ⟨content, outerMake ∘ innerMake, innermost, outerPlace.comp innerPlace,
    fun other otherInner otherInside =>
      outerFollows _ _ (innerFollows other otherInner otherInside)⟩

/-- An item is a part of a sequence. -/
theorem opens_item (before after : List Datum) : Opens False (Frame.item before after).fill := by
  intro part draft described
  obtain ⟨drafts, members, rfl⟩ := bind_pure_eq_ok.mp described
  rw [toDrafts_eq_mapM] at members
  obtain ⟨earlier, inner, later, first, one, others, rfl⟩ := mapM_around_eq_ok.mp members
  refine ⟨inner, _, one, Draft.hasPlace_sequence earlier later,
    fun other otherInner otherInside => bind_pure_eq_ok.mpr ⟨_, ?_, rfl⟩⟩
  rw [toDrafts_eq_mapM]
  exact mapM_around_eq_ok.mpr ⟨earlier, otherInner, later, first, otherInside, others, rfl⟩

/-- The key of an entry is described apart from its value. -/
theorem toDraft_key {entry : Datum × Datum} {described : Draft × Draft}
    (made : toDraftEntry entry = .ok described) : entry.1.toDraft = .ok described.1 := by
  obtain ⟨key, keyed, inside⟩ := bind_eq_ok.mp made
  obtain ⟨value, -, rfl⟩ := bind_pure_eq_ok.mp inside
  exact keyed

/-- A key is replaced among drafts only by that of a later entry. -/
theorem repeats_of_replaces {before after : List (Datum × Datum)} {key : Datum}
    {earlier later : List (Draft × Draft)} {keyDraft : Draft}
    (first : before.mapM toDraftEntry = .ok earlier) (keyed : key.toDraft = .ok keyDraft)
    (others : after.mapM toDraftEntry = .ok later)
    (replaces : Keyed.Replaces earlier keyDraft later) :
    (Frame.value before key after).Repeats := by
  obtain ⟨next, member, equal⟩ := replaces
  obtain ⟨entry, listed, made⟩ := exists_mem_of_mapM others member
  refine ⟨entry, listed, equal.imp (fun equal => ?_) ?_⟩
  · exact ⟨_, _, toDraft_key made, keyed, equal⟩
  · rintro ⟨old, oldMember, equals, equal⟩
    obtain ⟨oldEntry, oldListed, oldMade⟩ := exists_mem_of_mapM first oldMember
    exact ⟨oldEntry, oldListed, ⟨_, _, keyed, toDraft_key oldMade, equals⟩,
      ⟨_, _, toDraft_key made, toDraft_key oldMade, equal⟩⟩

/-- The value of an entry is a part of a map, unless a later entry has its key. -/
theorem opens_value (before : List (Datum × Datum)) (key : Datum)
    (after : List (Datum × Datum)) :
    Opens (Frame.value before key after).Repeats (Frame.value before key after).fill := by
  intro part draft described
  obtain ⟨drafts, members, rfl⟩ := bind_pure_eq_ok.mp described
  rw [toDraftEntries_eq_mapM] at members
  obtain ⟨earlier, entry, later, first, one, others, rfl⟩ := mapM_around_eq_ok.mp members
  obtain ⟨keyDraft, keyed, inside⟩ := bind_eq_ok.mp one
  obtain ⟨inner, valued, rfl⟩ := bind_pure_eq_ok.mp inside
  have place := (Draft.hasPlace_collected earlier keyDraft later).mono
    (repeats_of_replaces first keyed others)
  refine ⟨inner, _, valued, place,
    fun other otherInner otherInside => bind_pure_eq_ok.mpr ⟨_, ?_, rfl⟩⟩
  rw [toDraftEntries_eq_mapM]
  refine mapM_around_eq_ok.mpr ⟨earlier, (keyDraft, otherInner), later, first, ?_, others, rfl⟩
  exact bind_eq_ok.mpr ⟨keyDraft, keyed, bind_pure_eq_ok.mpr ⟨otherInner, otherInside, rfl⟩⟩

/-- The content is a part of a variant. -/
theorem opens_content (name : String) : Opens False (Frame.content name).fill := by
  intro part draft described
  obtain ⟨⟨⟩, checked, onward⟩ := bind_eq_ok.mp described
  obtain ⟨inner, inside, rfl⟩ := bind_pure_eq_ok.mp onward
  refine ⟨inner, .tagged name, inside, Draft.hasPlace_tagged name, ?_⟩
  exact fun other otherInner otherInside =>
    bind_eq_ok.mpr ⟨(), checked, bind_pure_eq_ok.mpr ⟨otherInner, otherInside, rfl⟩⟩

/-- Fields repeat a key when two of them have one name. -/
theorem repeats_fieldEntry {before after : List (String × Datum)} {name : String}
    (repeats : (Frame.value (before.map fieldEntry) (.text name) (after.map fieldEntry)).Repeats) :
    name ∈ after.map Prod.fst := by
  obtain ⟨_, member, equal⟩ := repeats
  obtain ⟨later, listed, rfl⟩ := List.mem_map.mp member
  have named : later.1 = name := by
    rcases equal with equal | ⟨_, earlierMember, equals, equal⟩
    · exact sameKey_text.mp equal
    · obtain ⟨earlier, -, rfl⟩ := List.mem_map.mp earlierMember
      exact (sameKey_text.mp equal).trans (sameKey_text.mp equals).symm
  exact List.mem_map.mpr ⟨later, listed, named⟩

/-- The value of a field is a part of a record, unless a later field has its name. -/
theorem opens_field (before : List (String × Datum)) (name : String)
    (after : List (String × Datum)) :
    Opens (Frame.field before name after).Repeats (Frame.field before name after).fill := by
  have opens := (opens_value (before.map fieldEntry) (.text name) (after.map fieldEntry)).mono
    repeats_fieldEntry
  refine opens.congr fun part => ?_
  change (record (before ++ (name, part) :: after)).toDraft = _
  rw [toDraft_record, List.map_append, List.map_cons]
  rfl

/-- The name and the content of a variant with content: the items of a tuple are a sequence, and
named fields a record. -/
def content? : Datum → Option (String × Datum)
  | .variant name content => some (name, content)
  | .tupleVariant name items => some (name, .sequence items)
  | .recordVariant name fields => some (name, .record fields)
  | _ => none

/-- A variant is described by its name and its content. -/
theorem toDraft_of_content? {datum content : Datum} {name : String}
    (carries : datum.content? = some (name, content)) :
    datum.toDraft = (variant name content).toDraft := by
  cases datum with
  | variant | tupleVariant | recordVariant =>
      cases carries
      simp only [toDraft, bind_assoc, pure_bind]
  | _ => cases carries

/-- A part that any frame is put around is a part of the whole, unless the frame repeats its
key. -/
theorem opens_fill (frame : Frame) : Opens frame.Repeats frame.fill := by
  cases frame with
  | item before after => exact opens_item before after
  | value before key after => exact opens_value before key after
  | field before name after => exact opens_field before name after
  | content name => exact opens_content name
  | tupleItem name before after =>
      have opens := ((opens_content name).comp (opens_item before after)).mono or_self_iff.mp
      exact opens.congr fun _ => toDraft_of_content? rfl
  | recordField name before fieldName after =>
      have opens := ((opens_content name).comp (opens_field before fieldName after)).mono
        fun repeats => repeats.resolve_left id
      exact opens.congr fun _ => toDraft_of_content? rfl

/-- A part is a part of the whole at any depth, unless a frame repeats its key. -/
theorem opens_within (frames : List Frame) :
    Opens (∃ frame ∈ frames, frame.Repeats) (within frames) := by
  induction frames with
  | nil => exact opens_id.mono False.elim
  | cons frame rest inductionHypothesis =>
      have opens := (opens_fill frame).comp inductionHypothesis
      exact opens.mono (List.exists_mem_cons_iff _ _ _).mpr

/-- Whether an example shows the tree of the part in frames at one place, for every part that has
one. -/
def Places (frames : List Frame) (around : List Tree.Frame) : Prop :=
  ∀ part content, part.toTree = .ok content →
    (within frames part).toTree = .ok (Tree.within around content)

/-- Whether an example has the same tree for every part in frames that has one, where a frame
repeats the key of what is in it. -/
structure Ignores (frames : List Frame) (tree : Tree) : Prop where
  repeats : ∃ frame ∈ frames, frame.Repeats
  same : ∀ part content, part.toTree = .ok content → (within frames part).toTree = .ok tree

/-- What is shown at a place is not ignored. -/
theorem Places.not_ignores {frames : List Frame} {around : List Tree.Frame} {tree : Tree}
    (placed : Places frames around) : ¬ Ignores frames tree := by
  intro ignored
  have each (content : Tree) (part : Datum) (encoded : part.toTree = .ok content) :
      Tree.within around content = tree :=
    Except.ok.inj ((placed part content encoded).symm.trans (ignored.same part content encoded))
  have equal := (each .null .absent rfl).trans (each (.bool true) (.bool true) rfl).symm
  cases Tree.within_injective around equal

/-- A part of an example that has a tree has one itself, which stands at one place, unless the
example ignores the part for a later entry with its key. -/
theorem placed_or_ignored {frames : List Frame} {part : Datum} {tree : Tree}
    (encoded : (within frames part).toTree = .ok tree) :
    (∃ content, part.toTree = .ok content ∧
      ∃ around, Places frames around ∧ tree = Tree.within around content) ∨
      Ignores frames tree := by
  obtain ⟨draft, described, settled⟩ := bind_eq_ok.mp encoded
  obtain ⟨inner, make, inside, place, follows⟩ := opens_within frames part draft described
  obtain rfl : make inner = draft :=
    Except.ok.inj ((follows part inner inside).symm.trans described)
  rcases place inner tree settled with ⟨content, innermost, around, placed⟩ | ⟨repeats, same⟩
  · refine .inl ⟨content, bind_eq_ok.mpr ⟨inner, inside, innermost⟩, around, ?_, ?_⟩
    · intro other otherContent otherEncoded
      obtain ⟨otherInner, otherInside, otherSettled⟩ := bind_eq_ok.mp otherEncoded
      exact bind_eq_ok.mpr ⟨make otherInner, follows other otherInner otherInside,
        placed otherInner otherContent otherSettled⟩
    · exact Except.ok.inj (settled.symm.trans (placed inner content innermost))
  · refine .inr ⟨repeats, fun other otherContent otherEncoded => ?_⟩
    obtain ⟨otherInner, otherInside, -⟩ := bind_eq_ok.mp otherEncoded
    exact bind_eq_ok.mpr ⟨make otherInner, follows other otherInner otherInside, same otherInner⟩

end Datum

end FieldGuide
