import FieldGuide.Example.Datum
import FieldGuide.Proofs.Except
import Mathlib.Data.List.Lex

/-!
# Refused keys

A draft has a tree when the keys of all its mappings are scalar. The encoder stops at the first
key that is not, while it goes through items and entries. This module says which key that is
without going through anything: of all keys that are not scalar, the one at the least path of
positions. A key stands at the path of its entry, and so comes before the keys in the value.
-/

namespace FieldGuide

namespace Draft

/-- Whether a key has a text: it is a text, a boolean or a number. -/
def isScalar : Draft → Bool
  | .text _ | .bool _ | .number _ => true
  | .null | .sequence _ | .mapping _ | .tagged _ _ => false

/-- The positions of items and entries lead to a key of a mapping, at any depth below items,
values and tags. -/
inductive KeyAt : Draft → List Nat → Draft → Prop
  | own {entries position key value} (listed : entries[position]? = some (key, value)) :
      KeyAt (.mapping entries) [position] key
  | value {entries position key value path found}
      (listed : entries[position]? = some (key, value)) (below : KeyAt value path found) :
      KeyAt (.mapping entries) (position :: path) found
  | item {items position item path found} (listed : items[position]? = some item)
      (below : KeyAt item path found) : KeyAt (.sequence items) (position :: path) found
  | content {tag content path found} (below : KeyAt content path found) :
      KeyAt (.tagged tag content) path found

/-- Of keys at paths, the key that is not scalar at the least path. -/
structure FirstRefused (keyAt : List Nat → Draft → Prop) (path : List Nat) (key : Draft) :
    Prop where
  stands : keyAt path key
  refused : key.isScalar = false
  first : ∀ other otherKey, keyAt other otherKey → otherKey.isScalar = false → path ≤ other

/-- Whether a computation returns when all keys at some paths are scalar, and names the first
that is not otherwise. -/
def Settles {α : Type} (keyAt : List Nat → Draft → Prop) : Except EncodeError α → Prop
  | .ok _ => ∀ path key, keyAt path key → key.isScalar = true
  | .error reason => ∃ path key, FirstRefused keyAt path key ∧ reason = .keyNotScalar key

namespace Settles

variable {α β : Type} {keyAt other earlier later : List Nat → Draft → Prop}
  {outcome : Except EncodeError α}

/-- Only the keys and their paths count. -/
theorem congr (settles : Settles keyAt outcome)
    (same : ∀ path key, other path key ↔ keyAt path key) : Settles other outcome := by
  obtain rfl : other = keyAt := funext fun path => funext fun key => propext (same path key)
  exact settles

/-- A function of the result makes no difference. -/
theorem map (settles : Settles keyAt outcome) (make : α → β) :
    Settles keyAt (outcome >>= fun value => pure (make value)) := by
  cases outcome with
  | ok value => exact settles
  | error reason => exact settles

/-- Keys keep their order below a position. -/
theorem under (settles : Settles keyAt outcome) (position : Nat) :
    Settles (fun path key => ∃ below, path = position :: below ∧ keyAt below key) outcome := by
  cases outcome with
  | ok value =>
      rintro _ key ⟨below, rfl, stands⟩
      exact settles below key stands
  | error reason =>
      obtain ⟨path, key, first, named⟩ := settles
      refine ⟨position :: path, key, ⟨⟨path, rfl, first.stands⟩, first.refused, ?_⟩, named⟩
      rintro _ otherKey ⟨below, rfl, stands⟩ refused
      exact List.cons_le_cons position (first.first below otherKey stands refused)

/-- A computation that goes on after another one checks its keys after those of the other. -/
theorem bind {next : α → Except EncodeError β} (first : Settles earlier outcome)
    (onward : ∀ value, Settles later (next value))
    (order : ∀ path key, earlier path key → ∀ other otherKey, later other otherKey →
      path ≤ other) :
    Settles (fun path key => earlier path key ∨ later path key) (outcome >>= next) := by
  cases outcome with
  | error reason =>
      obtain ⟨path, key, least, named⟩ := first
      refine ⟨path, key, ⟨.inl least.stands, least.refused, ?_⟩, named⟩
      rintro other otherKey (stands | stands) refused
      · exact least.first other otherKey stands refused
      · exact order path key least.stands other otherKey stands
  | ok value =>
      have rest := onward value
      rw [ok_bind]
      cases going : next value with
      | ok result =>
          rw [going] at rest
          rintro path key (stands | stands)
          · exact first path key stands
          · exact rest path key stands
      | error reason =>
          rw [going] at rest
          obtain ⟨path, key, least, named⟩ := rest
          refine ⟨path, key, ⟨.inr least.stands, least.refused, ?_⟩, named⟩
          rintro other otherKey (stands | stands) refused
          · rw [first other otherKey stands] at refused
            cases refused
          · exact least.first other otherKey stands refused

end Settles

/-- A key has a text when it is scalar. -/
theorem settles_keyText (path : List Nat) (key : Draft) :
    Settles (fun other otherKey => other = path ∧ otherKey = key) key.keyText := by
  cases key with
  | text value | bool value | number value =>
      rintro _ _ ⟨-, rfl⟩
      rfl
  | null | sequence items | mapping entries | tagged tag content =>
      refine ⟨path, _, ⟨⟨rfl, rfl⟩, rfl, ?_⟩, rfl⟩
      rintro _ _ ⟨rfl, -⟩ -
      exact le_refl _

/-- Whether something holds of one of some parts at its position, the first of them standing at
`position`. -/
def HoldsAmong {α : Type} (holds : Nat → α → Prop) (position : Nat) (parts : List α) : Prop :=
  ∃ offset part, parts[offset]? = some part ∧ holds (position + offset) part

/-- Nothing holds of one of no parts. -/
theorem not_holdsAmong_nil {α : Type} {holds : Nat → α → Prop} {position : Nat} :
    ¬ HoldsAmong holds position [] := by
  rintro ⟨offset, part, listed, -⟩
  cases listed

/-- What holds of one of some parts holds of the first or of one of the others. -/
theorem holdsAmong_cons {α : Type} {holds : Nat → α → Prop} {position : Nat} {part : α}
    {rest : List α} :
    HoldsAmong holds position (part :: rest) ↔
      holds position part ∨ HoldsAmong holds (position + 1) rest := by
  constructor
  · rintro ⟨offset, other, listed, held⟩
    cases offset with
    | zero =>
        obtain rfl := Option.some.inj listed
        exact .inl held
    | succ offset =>
        refine .inr ⟨offset, other, listed, ?_⟩
        rwa [Nat.add_right_comm]
  · rintro (held | ⟨offset, other, listed, held⟩)
    · exact ⟨0, part, rfl, held⟩
    · refine ⟨offset + 1, other, listed, ?_⟩
      rwa [Nat.add_right_comm] at held

/-- Whether a path leads to a key in an item or a value at a position. -/
def KeyInside (path : List Nat) (key : Draft) (position : Nat) (part : Draft) : Prop :=
  ∃ below, path = position :: below ∧ KeyAt part below key

/-- Whether a path leads to the key of an entry at a position or to a key in its value. -/
def KeyOfEntry (path : List Nat) (key : Draft) (position : Nat) (entry : Draft × Draft) : Prop :=
  path = [position] ∧ key = entry.1 ∨ KeyInside path key position entry.2

/-- The keys in a sequence are those in its items. -/
theorem keyAt_sequence {items : List Draft} {path : List Nat} {key : Draft} :
    KeyAt (.sequence items) path key ↔ HoldsAmong (KeyInside path key) 0 items := by
  constructor
  · intro stands
    cases stands with
    | @item _ position item below _ listed inside =>
        exact ⟨position, item, listed, below, by rw [Nat.zero_add], inside⟩
  · rintro ⟨offset, item, listed, below, rfl, inside⟩
    rw [Nat.zero_add]
    exact .item listed inside

/-- The keys in a mapping are the keys of its entries and those in their values. -/
theorem keyAt_mapping {entries : List (Draft × Draft)} {path : List Nat} {key : Draft} :
    KeyAt (.mapping entries) path key ↔ HoldsAmong (KeyOfEntry path key) 0 entries := by
  constructor
  · intro stands
    cases stands with
    | @own _ position _ value listed =>
        exact ⟨position, (key, value), listed, .inl ⟨by rw [Nat.zero_add], rfl⟩⟩
    | @value _ position name value below _ listed inside =>
        exact ⟨position, (name, value), listed, .inr ⟨below, by rw [Nat.zero_add], inside⟩⟩
  · rintro ⟨offset, entry, listed, ⟨rfl, rfl⟩ | ⟨below, rfl, inside⟩⟩
    · rw [Nat.zero_add]
      exact .own listed
    · rw [Nat.zero_add]
      exact .value listed inside

/-- The path to the key of an entry or to one in its value starts with the position of the
entry. -/
theorem KeyOfEntry.starts {path : List Nat} {key : Draft} {position : Nat}
    {entry : Draft × Draft} (stands : KeyOfEntry path key position entry) :
    ∃ below, path = position :: below := by
  rcases stands with ⟨rfl, -⟩ | ⟨below, rfl, -⟩
  · exact ⟨[], rfl⟩
  · exact ⟨below, rfl⟩

/-- A path that starts with a position comes before those that start with a later one. -/
theorem le_of_starts {path other : List Nat} {position offset : Nat}
    (starts : ∃ below, path = position :: below)
    (otherStarts : ∃ below, other = (position + 1 + offset) :: below) : path ≤ other := by
  obtain ⟨below, rfl⟩ := starts
  obtain ⟨otherBelow, rfl⟩ := otherStarts
  have before : position < position + 1 + offset := by omega
  exact le_of_lt (List.cons_lt_cons_iff.mpr (.inl before))

mutual

/-- A draft has a tree when the keys of all its mappings are scalar, and is refused for the first
that is not otherwise. -/
theorem settles_toTree : ∀ draft : Draft, Settles draft.KeyAt draft.toTree
  | .null | .bool _ | .number _ | .text _ => fun _ _ stands => nomatch stands
  | .sequence items =>
      ((settles_toTrees 0 items).map Tree.sequence).congr fun _ _ => keyAt_sequence
  | .mapping entries =>
      ((settles_toTreeEntries 0 entries).map Tree.mapping).congr fun _ _ => keyAt_mapping
  | .tagged tag content => by
      refine ((settles_toTree content).map (Tree.under · (variantKey tag))).congr fun path key => ?_
      constructor
      · rintro ⟨⟩
        assumption
      · exact .content

/-- Items have trees when the keys in all of them are scalar. -/
theorem settles_toTrees (position : Nat) : ∀ items : List Draft,
    Settles (fun path key => HoldsAmong (KeyInside path key) position items) (toTrees items)
  | [] => fun _ _ stands => absurd stands not_holdsAmong_nil
  | item :: rest => by
      refine (((settles_toTree item).under position).bind
        (fun tree => (settles_toTrees (position + 1) rest).map (tree :: ·)) ?_).congr
        fun path key => holdsAmong_cons
      rintro _ key ⟨below, rfl, -⟩ other otherKey ⟨offset, part, -, otherBelow, rfl, -⟩
      exact le_of_starts ⟨below, rfl⟩ ⟨otherBelow, rfl⟩

/-- Entries have trees under the texts of their keys when these and the keys in all values are
scalar. -/
theorem settles_toTreeEntries (position : Nat) : ∀ entries : List (Draft × Draft),
    Settles (fun path key => HoldsAmong (KeyOfEntry path key) position entries)
      (toTreeEntries entries)
  | [] => fun _ _ stands => absurd stands not_holdsAmong_nil
  | (key, value) :: rest => by
      have onward (text : String) : Settles
          (fun path found => KeyInside path found position value ∨
            HoldsAmong (KeyOfEntry path found) (position + 1) rest)
          (do
            let value ← toTree value
            return (text, value) :: (← toTreeEntries rest)) := by
        refine ((settles_toTree value).under position).bind
          (fun tree => (settles_toTreeEntries (position + 1) rest).map ((text, tree) :: ·)) ?_
        rintro _ _ ⟨below, rfl, -⟩ other otherKey ⟨offset, entry, -, stands⟩
        exact le_of_starts ⟨below, rfl⟩ stands.starts
      refine ((settles_keyText [position] key).bind onward ?_).congr fun path found => ?_
      · rintro _ _ ⟨rfl, -⟩ other otherKey (⟨below, rfl, -⟩ | ⟨offset, entry, -, stands⟩)
        · exact List.cons_le_cons position (not_lt.mp (List.not_lt_nil below))
        · exact le_of_starts ⟨[], rfl⟩ stands.starts
      · rw [holdsAmong_cons, KeyOfEntry, or_assoc]

end

/-- A path to a key has the position of its entry at least. -/
theorem KeyAt.path_ne_nil {draft : Draft} {path : List Nat} {key : Draft}
    (stands : KeyAt draft path key) : path ≠ [] := by
  induction stands with
  | own | value | item => exact List.cons_ne_nil _ _
  | content _ inductionHypothesis => exact inductionHypothesis

/-- A path leads to one key. -/
theorem KeyAt.unique {draft : Draft} {path : List Nat} {key other : Draft}
    (stands : KeyAt draft path key) (otherStands : KeyAt draft path other) : key = other := by
  induction stands with
  | own listed =>
      cases otherStands with
      | own otherListed => exact congrArg Prod.fst (Option.some.inj (listed.symm.trans otherListed))
      | value _ below => exact absurd rfl below.path_ne_nil
  | value listed below inductionHypothesis =>
      cases otherStands with
      | own _ => exact absurd rfl below.path_ne_nil
      | value otherListed otherBelow =>
          obtain ⟨-, rfl⟩ := Prod.mk.inj (Option.some.inj (listed.symm.trans otherListed))
          exact inductionHypothesis otherBelow
  | item listed _ inductionHypothesis =>
      cases otherStands with
      | item otherListed otherBelow =>
          obtain rfl := Option.some.inj (listed.symm.trans otherListed)
          exact inductionHypothesis otherBelow
  | content _ inductionHypothesis =>
      cases otherStands with
      | content otherBelow => exact inductionHypothesis otherBelow

/-- There is one first key that is not scalar, if there is any. -/
theorem FirstRefused.unique {draft : Draft} {path other : List Nat} {key otherKey : Draft}
    (first : FirstRefused draft.KeyAt path key)
    (otherFirst : FirstRefused draft.KeyAt other otherKey) : key = otherKey := by
  obtain rfl : path = other := le_antisymm
    (first.first other otherKey otherFirst.stands otherFirst.refused)
    (otherFirst.first path key first.stands first.refused)
  exact first.stands.unique otherFirst.stands

/-- A draft is refused for its first key that is not scalar. -/
theorem toTree_eq_error_iff {draft : Draft} {reason : EncodeError} :
    draft.toTree = .error reason ↔
      ∃ path key, FirstRefused draft.KeyAt path key ∧ reason = .keyNotScalar key := by
  have settles := settles_toTree draft
  cases encoded : draft.toTree with
  | ok tree =>
      rw [encoded] at settles
      constructor
      · intro failed
        cases failed
      · rintro ⟨path, key, first, -⟩
        have refused := first.refused
        rw [settles path key first.stands] at refused
        cases refused
  | error given =>
      rw [encoded] at settles
      obtain ⟨path, key, first, rfl⟩ := settles
      constructor
      · intro same
        exact ⟨path, key, first, (Except.error.inj same).symm⟩
      · rintro ⟨other, otherKey, otherFirst, rfl⟩
        rw [first.unique otherFirst]

/-- Where a key is not scalar there is a first one. -/
theorem exists_firstRefused_iff {draft : Draft} :
    (∃ path key, FirstRefused draft.KeyAt path key) ↔
      ∃ path key, draft.KeyAt path key ∧ key.isScalar = false := by
  constructor
  · rintro ⟨path, key, first⟩
    exact ⟨path, key, first.stands, first.refused⟩
  · rintro ⟨path, key, stands, refused⟩
    have settles := settles_toTree draft
    cases encoded : draft.toTree with
    | ok tree =>
        rw [encoded] at settles
        rw [settles path key stands] at refused
        cases refused
    | error reason =>
        rw [encoded] at settles
        obtain ⟨path, key, first, -⟩ := settles
        exact ⟨path, key, first⟩

end Draft

namespace Datum

/-- A datum fails to encode when it has no draft, for the same reason, or when a mapping of its
draft has a key that is not scalar; it is then refused for the first of these, in the order of
positions. There is no other way to fail. -/
theorem refused_iff (datum : Datum) :
    ((∃ reason, datum.toTree = .error reason) ↔
        (∃ reason, datum.toDraft = .error reason) ∨
          ∃ draft, datum.toDraft = .ok draft ∧
            ∃ path key, draft.KeyAt path key ∧ key.isScalar = false) ∧
      ∀ reason, datum.toTree = .error reason ↔
        datum.toDraft = .error reason ∨
          ∃ draft, datum.toDraft = .ok draft ∧
            ∃ path key, Draft.FirstRefused draft.KeyAt path key ∧
              reason = .keyNotScalar key := by
  have named (reason : EncodeError) : datum.toTree = .error reason ↔
      datum.toDraft = .error reason ∨ ∃ draft, datum.toDraft = .ok draft ∧
        ∃ path key, Draft.FirstRefused draft.KeyAt path key ∧ reason = .keyNotScalar key := by
    rw [toTree, bind_eq_error]
    simp only [Draft.toTree_eq_error_iff]
  refine ⟨?_, named⟩
  simp only [named, exists_or, ← Draft.exists_firstRefused_iff]
  refine or_congr_right ?_
  constructor
  · rintro ⟨_, draft, described, path, key, first, -⟩
    exact ⟨draft, described, path, key, first⟩
  · rintro ⟨draft, described, path, key, first⟩
    exact ⟨_, draft, described, path, key, first, rfl⟩

end Datum

end FieldGuide
