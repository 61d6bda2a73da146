import FieldGuide.Proofs.Json.Decode
import FieldGuide.Proofs.Json.Readable

/-!
# Documents that need no more than others

A document covers another one that is nested no deeper, holds no other numbers and repeats no key
if it repeats none itself. What a reader takes from a document and a writer writes again is covered
by that document if the same is true of its parts. So nothing that could be read becomes too deep,
or gets a number or keys that cannot be read, by being written again.
-/

namespace FieldGuide

namespace Json

/-- Whether a document is nested no deeper than another one, holds no other numbers, and repeats a
key only if the other one does. -/
structure Covers (document written : Json) : Prop where
  depth : written.depth ≤ document.depth
  numbers : written.numbers ⊆ document.numbers
  distinctKeys : document.hasDistinctKeys = true → written.hasDistinctKeys = true

section Covers

variable {document written : Json}

/-- A document covers itself. -/
theorem Covers.refl (document : Json) : document.Covers document :=
  ⟨Nat.le_refl _, List.Subset.refl _, id⟩

/-- What a readable document covers is readable. -/
theorem Covers.isReadable {level : Nat} (covers : document.Covers written)
    (readable : document.IsReadable level) : written.IsReadable level where
  depth := Nat.lt_of_le_of_lt (Nat.add_le_add_left covers.depth level) readable.depth
  finite number member := readable.finite number (covers.numbers member)
  distinctKeys := covers.distinctKeys readable.distinctKeys

/-- An array or an object covers one that is no number and repeats no key itself if its parts cover
those of the other. -/
theorem Covers.of_parts (inside : 0 < document.depth)
    (notNumber : ∀ value, written ≠ .number value) (distinct : written.keys.Nodup)
    (each : ∀ piece ∈ written.parts, ∃ part ∈ document.parts, part.Covers piece) :
    document.Covers written where
  depth := by
    rw [depth_eq_depthItems_parts inside]
    refine Nat.le_trans written.depth_le_depthItems_parts (Nat.succ_le_succ (depthItems_le ?_))
    intro piece member
    obtain ⟨part, present, covers⟩ := each piece member
    exact Nat.le_trans covers.depth (depth_le_depthItems present)
  numbers := by
    intro number found
    rw [numbers_eq_flatMap_parts notNumber] at found
    obtain ⟨piece, member, holds⟩ := List.mem_flatMap.mp found
    obtain ⟨part, present, covers⟩ := each piece member
    rw [numbers_eq_flatMap_parts (ne_number_of_mem_parts present)]
    exact List.mem_flatMap.mpr ⟨part, present, covers.numbers holds⟩
  distinctKeys := by
    intro documentDistinct
    refine hasDistinctKeys_iff.mpr ⟨distinct, fun piece member => ?_⟩
    obtain ⟨part, present, covers⟩ := each piece member
    exact covers.distinctKeys ((hasDistinctKeys_iff.mp documentDistinct).2 part present)

/-- A document covers every text. -/
theorem covers_string (document : Json) (text : String) : document.Covers (.string text) :=
  ⟨Nat.zero_le _, List.nil_subset _, fun _ => rfl⟩

/-- A document covers every truth value. -/
theorem covers_bool (document : Json) (value : Bool) : document.Covers (.bool value) :=
  ⟨Nat.zero_le _, List.nil_subset _, fun _ => rfl⟩

/-- What every document covers is covered by one of some documents. -/
theorem exists_covers {parts : List Json} (filled : parts ≠ [])
    (every : ∀ document : Json, document.Covers written) :
    ∃ part ∈ parts, part.Covers written := by
  obtain ⟨part, present⟩ := List.exists_mem_of_ne_nil parts filled
  exact ⟨part, present, every part⟩

end Covers

/-- Whether what is written for a value is covered by each document the value is read from. -/
def Condenses {α : Type} (decode : Json → Decoded α) (encode : α → Json) : Prop :=
  ∀ document value, decode document = .ok value → document.Covers (encode value)

/-- Texts are written as they were read. -/
theorem condenses_decodeString : Condenses decodeString .string :=
  fun document text _ => document.covers_string text

/-- Documents are written as they were read. -/
theorem condenses_documents : Condenses .ok id := by
  intro document value read
  obtain rfl := Except.ok.inj read
  exact .refl document

/-- An array covers another one if its items cover those of the other. -/
theorem Covers.array {items others : List Json}
    (each : ∀ item ∈ others, ∃ part ∈ items, part.Covers item) :
    (Json.array items).Covers (.array others) :=
  .of_parts (Nat.succ_pos _) (fun _ => nofun) .nil each

/-- A pair of texts is written as it was read. -/
theorem condenses_decodeStringPair :
    Condenses decodeStringPair fun pair => .array [.string pair.1, .string pair.2] := by
  intro document pair read
  cases document with
  | array items =>
      cases items with
      | nil => cases read
      | cons first rest =>
          refine .array fun piece member => ⟨first, List.mem_cons_self, ?_⟩
          obtain rfl | rfl : piece = .string pair.1 ∨ piece = .string pair.2 := by
            simpa using member
          all_goals exact first.covers_string _
  | null | bool | number | string | object => cases read

/-- A list is written as it was read if its items are. -/
theorem Condenses.decodeList {α : Type} {decode : Json → Decoded α} {encode : α → Json}
    (each : Condenses decode encode) :
    Condenses (Json.decodeList decode) fun values => .array (values.map encode) := by
  intro document values read
  cases document with
  | array items =>
      refine .array fun piece member => ?_
      obtain ⟨value, present, rfl⟩ := List.mem_map.mp member
      obtain ⟨part, listed, decoded⟩ := exists_mem_of_mapM read present
      exact ⟨part, listed, each part value decoded⟩
  | null | bool | number | string | object => cases read

/-- Whether a list is covered by a document of some, unless it is empty. -/
def ListCovered (parts items : List Json) : Prop :=
  items ≠ [] → ∃ part ∈ parts, part.Covers (.array items)

/-- An empty list needs nothing. -/
theorem listCovered_nil (parts : List Json) : ListCovered parts [] := fun filled =>
  absurd rfl filled

/-- A list is covered by a document that covers it. -/
theorem Covers.list {parts items : List Json} {part : Json} (covers : part.Covers (.array items))
    (present : part ∈ parts) : ListCovered parts items := fun _ => ⟨part, present, covers⟩

/-- Whether each member of an object is covered by a document of a list. -/
def EachCovered (parts : List Json) (members : List (String × Json)) : Prop :=
  ∀ key value, (key, value) ∈ members → ∃ part ∈ parts, part.Covers value

namespace EachCovered

variable {parts : List Json} {members others : List (String × Json)} {key : String}

/-- An object without members needs nothing. -/
theorem nil : EachCovered parts [] := nofun

/-- Members are covered one by one. -/
theorem cons {value : Json} (first : ∃ part ∈ parts, part.Covers value)
    (rest : EachCovered parts members) : EachCovered parts ((key, value) :: members) := by
  intro name other member
  rcases List.mem_cons.mp member with same | after
  · obtain ⟨rfl, rfl⟩ := Prod.mk.inj same
    exact first
  · exact rest name other after

/-- Members are covered when those before and after a place are. -/
theorem append (first : EachCovered parts members) (second : EachCovered parts others) :
    EachCovered parts (members ++ others) := by
  intro name value member
  rcases List.mem_append.mp member with before | after
  · exact first name value before
  · exact second name value after

/-- A list that is left out when it is empty is covered if the list is. -/
theorem listMember {items : List Json} (covered : ListCovered parts items) :
    EachCovered parts (Json.listMember key items) := by
  rw [Json.listMember]
  split
  · exact nil
  · next filled => exact cons (covered fun empty => filled (List.isEmpty_iff.mpr empty)) nil

/-- A text that is left out when it is empty is covered if there is a part. -/
theorem textMember {text : String} (filled : parts ≠ []) :
    EachCovered parts (Json.textMember key text) := by
  rw [Json.textMember]
  split
  · exact nil
  · exact cons (exists_covers filled fun part => part.covers_string text) nil

/-- A document that is left out when there is none is covered if it is a part. -/
theorem optionMember {document : Option Json} (present : ∀ given ∈ document, given ∈ parts) :
    EachCovered parts (document.toList.map fun given => (key, given)) := by
  cases document with
  | none => exact nil
  | some given => exact cons ⟨given, present given rfl, .refl given⟩ nil

/-- An object that repeats no key itself is covered by a document with parts that cover its
members. -/
theorem object {document : Json} (filled : document.parts ≠ [])
    (distinct : (members.map Prod.fst).Nodup) (each : EachCovered document.parts members) :
    document.Covers (.object members) := by
  obtain ⟨part, present⟩ := List.exists_mem_of_ne_nil _ filled
  refine .of_parts (depth_pos_of_mem_parts present) (fun _ => nofun) distinct fun piece member => ?_
  obtain ⟨⟨name, value⟩, inside, rfl⟩ := List.mem_map.mp member
  exact each name value inside

end EachCovered

end Json

end FieldGuide
