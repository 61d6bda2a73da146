import FieldGuide.Proofs.Json.Numeral
import FieldGuide.Proofs.Json.Parts
import FieldGuide.Proofs.Keyed
import FieldGuide.Proofs.Text.Scan

/-!
# Documents that text can hold

Not every document is read from a text: the reader stops at a limit of nesting, has no numerals
for infinities, and keeps each key of an object once. This module says which documents are left,
and that every document that is read is one of them, whatever the text is.
-/

namespace FieldGuide

namespace Json

/-- Whether a document can be read inside as many arrays and objects as the level says: it stays
below the limit, has only finite numbers, and repeats no key. -/
structure IsReadable (document : Json) (level : Nat) : Prop where
  depth : level + document.depth < Reader.levelLimit
  finite : Number.AllFinite document.numbers
  distinctKeys : document.hasDistinctKeys = true

section Parts

variable {document part : Json} {level : Nat}

/-- The parts of a readable document are readable one level further in. -/
theorem IsReadable.of_mem_parts (readable : document.IsReadable level)
    (member : part ∈ document.parts) : part.IsReadable (level + 1) where
  depth := by
    have less := depth_lt_of_mem_parts member
    have limited := readable.depth
    omega
  finite number inside := by
    refine readable.finite number ?_
    rw [numbers_eq_flatMap_parts (ne_number_of_mem_parts member)]
    exact List.mem_flatMap.mpr ⟨part, member, inside⟩
  distinctKeys := (hasDistinctKeys_iff.mp readable.distinctKeys).2 part member

/-- A document that is no number is readable when its parts are, one level further in, and it
repeats no key itself. -/
theorem IsReadable.of_parts (within : level + 1 < Reader.levelLimit)
    (notNumber : ∀ value, document ≠ .number value) (distinct : document.keys.Nodup)
    (each : ∀ part ∈ document.parts, part.IsReadable (level + 1)) :
    document.IsReadable level where
  depth := by
    have bounded : depthItems document.parts ≤ Reader.levelLimit - 1 - (level + 1) :=
      depthItems_le fun part member => by
        have limited := (each part member).depth
        omega
    have deepest := document.depth_le_depthItems_parts
    omega
  finite number inside := by
    rw [numbers_eq_flatMap_parts notNumber] at inside
    obtain ⟨part, member, holds⟩ := List.mem_flatMap.mp inside
    exact (each part member).finite number holds
  distinctKeys := hasDistinctKeys_iff.mpr ⟨distinct, fun part member =>
    (each part member).distinctKeys⟩

/-- An array is readable when its items are, one level further in. -/
theorem isReadable_array {items : List Json} (within : level + 1 < Reader.levelLimit)
    (each : ∀ item ∈ items, item.IsReadable (level + 1)) : (Json.array items).IsReadable level :=
  .of_parts within (fun _ => nofun) .nil each

/-- The object of members that are set one after another is readable when their values are, one
level further in. -/
theorem isReadable_object {members : List (String × Json)}
    (within : level + 1 < Reader.levelLimit)
    (each : ∀ member ∈ members, member.2.IsReadable (level + 1)) :
    (Json.object (Keyed.collect members)).IsReadable level := by
  have values := Keyed.forall_collect (fun _ : String => True) (·.IsReadable (level + 1))
    fun member inside => ⟨trivial, each member inside⟩
  exact .of_parts within (fun _ => nofun)
    (Keyed.keysDiffer_iff_nodup.mp (Keyed.keysDiffer_collect members))
    (List.forall_mem_map.mpr fun member inside => (values member inside).2)

/-- A document without depth is readable below the limit when its numbers are finite. -/
theorem isReadable_of_depth (within : level < Reader.levelLimit) (flat : document.depth = 0)
    (finite : Number.AllFinite document.numbers) : document.IsReadable level where
  depth := by omega
  finite := finite
  distinctKeys := by
    cases document with
    | array | object => cases flat
    | null | bool | number | string => rfl

end Parts

namespace Reader

open FieldGuide.Text
open Scan (Yields yields_pure yields_failure yields_bind yields_lift yields_deeper)

/-- A number that is read is finite. -/
theorem yields_number : number.Yields fun value => value.isFinite = true :=
  yields_bind fun _ => yields_lift fun _ => Number.isFinite_of_ofJsonNumeral?

/-- A value is finished by the blanks after it. -/
theorem yields_finished {holds : Json → Prop} {document : Json} (held : holds document) :
    (do let read ← (pure document : Scan Json); skipBlanks; return read).Yields holds :=
  (yields_pure held).bind fun _ held => yields_bind fun _ => yields_pure held

/-- What stands between brackets has what every value one level further in has. -/
theorem yields_entered {α : Type} {bracket : Char} {level : Nat} {inside : Nat → Scan α}
    {holds : α → Prop}
    (each : level + 1 < levelLimit → (inside (level + 1)).Yields holds) :
    (do Scan.eat bracket; let inner ← Scan.deeper levelLimit level; skipBlanks; inside inner :
      Scan α).Yields holds := by
  refine yields_bind fun _ => (yields_deeper levelLimit level).bind fun inner entered =>
    yields_bind fun _ => ?_
  obtain ⟨rfl, within⟩ := entered
  exact each within

/-- Values, items and members are readable, whatever fuel they are read with. -/
theorem yields_isReadable (fuel : Nat) :
    (∀ level, level < levelLimit → (value fuel level).Yields fun document =>
      document.IsReadable level) ∧
      (∀ level, level < levelLimit → (items fuel level).Yields fun items =>
        ∀ item ∈ items, item.IsReadable level) ∧
      ∀ level, level < levelLimit → (members fuel level).Yields fun members =>
        ∀ member ∈ members, member.2.IsReadable level := by
  induction fuel with
  | zero =>
      exact ⟨fun _ _ => yields_failure, fun _ _ => yields_failure, fun _ _ => yields_failure⟩
  | succ fuel inductionHypothesis =>
      obtain ⟨valueReadable, itemsReadable, membersReadable⟩ := inductionHypothesis
      refine ⟨fun level within => ?_, fun level within => ?_, fun level within => ?_⟩
      · rw [value]
        refine yields_bind fun _ => yields_bind fun next? => ?_
        split
        · refine yields_entered fun inside => yields_bind fun closed => ?_
          split
          · exact yields_finished
              (.of_parts inside (fun _ => nofun) .nil (List.forall_mem_nil _))
          · exact (membersReadable _ inside).bind fun members each =>
              yields_finished (isReadable_object inside each)
        · refine yields_entered fun inside => yields_bind fun closed => ?_
          split
          · exact yields_finished (isReadable_array inside (List.forall_mem_nil _))
          · exact (itemsReadable _ inside).bind fun items each =>
              yields_finished (isReadable_array inside each)
        · exact yields_bind fun _ => yields_finished
            (isReadable_of_depth within rfl (List.forall_mem_nil _))
        · exact yields_bind fun _ => yields_finished
            (isReadable_of_depth within rfl (List.forall_mem_nil _))
        · exact yields_bind fun _ => yields_finished
            (isReadable_of_depth within rfl (List.forall_mem_nil _))
        · exact yields_bind fun _ => yields_finished
            (isReadable_of_depth within rfl (List.forall_mem_nil _))
        · exact yields_number.bind fun value finite => yields_finished
            (isReadable_of_depth within rfl (List.forall_mem_singleton.mpr finite))
      · rw [items]
        refine (valueReadable level within).bind fun item readable => yields_bind fun more => ?_
        split
        · exact (itemsReadable level within).bind fun rest each =>
            yields_pure (List.forall_mem_cons.mpr ⟨readable, each⟩)
        · exact yields_bind fun _ => yields_pure (List.forall_mem_singleton.mpr readable)
      · rw [members]
        refine yields_bind fun _ => yields_bind fun key => yields_bind fun _ =>
          yields_bind fun _ => (valueReadable level within).bind fun item readable =>
            yields_bind fun more => ?_
        split
        · exact (membersReadable level within).bind fun rest each =>
            yields_pure (List.forall_mem_cons.mpr ⟨readable, each⟩)
        · exact yields_bind fun _ => yields_pure (List.forall_mem_singleton.mpr readable)

end Reader

/-- A document that is read is readable, whatever the text is. -/
theorem isReadable_of_read? {text : String} {document : Json}
    (read : read? text = some document) : document.IsReadable 0 :=
  ((Reader.yields_isReadable _).1 0 (by decide)).of_whole? read

end Json

end FieldGuide
