import FieldGuide.Json.Decode
import FieldGuide.Proofs.Except
import FieldGuide.Proofs.Json.Parts

/-!
# Decoding what was written

A record is written member by member and read back by assigning the members one after
another. This module states what assigning one member must do for that, for each way in which
a member is written: always, or only when it has something to say. In the other direction, what
a record is read as follows from what assigning one part of any document does.
-/

namespace FieldGuide

namespace Json

/-- Whether a choice lists each of its values, under a name of its own. -/
structure Choice.IsFaithful {α : Type} (choice : Choice α) : Prop where
  complete : ∀ value, value ∈ choice.values
  apart : ∀ left right, choice.name left = choice.name right → left = right

/-- A faithful choice finds each value by its name. -/
theorem decodeChoice_name {α : Type} {choice : Choice α} (faithful : choice.IsFaithful)
    (value : α) : decodeChoice choice (.string (choice.name value)) = .ok value := by
  rw [decodeChoice, Choice.ofName]
  cases found : choice.values.find? fun other => choice.name other == choice.name value with
  | none =>
      have named := List.find?_eq_none.mp found value (faithful.complete value)
      simp at named
  | some other =>
      have named := List.find?_some found
      rw [faithful.apart other value (by simpa using named)]

/-- A list is read item by item. -/
theorem decodeList_map {α β : Type} {decode : Json → Decoded β} {encode : α → Json}
    {change : α → β} {items : List α}
    (each : ∀ item ∈ items, decode (encode item) = .ok (change item)) :
    decodeList decode (.array (items.map encode)) = .ok (items.map change) := by
  rw [decodeList, mapM_eq_ok, List.forall₂_map_left_iff, List.forall₂_map_right_iff,
    List.forall₂_same]
  exact each

/-- Each value in a list that is read is read from a part of the document. -/
theorem exists_part_of_decodeList {α : Type} {decode : Json → Decoded α} {document : Json}
    {values : List α} (read : decodeList decode document = .ok values) {value : α}
    (member : value ∈ values) : ∃ part ∈ document.parts, decode part = .ok value := by
  cases document with
  | array items => exact exists_mem_of_mapM read member
  | null | bool | number | string | object => cases read

/-- Only null is lost where a document may be absent. -/
theorem bind_decodeOptional_eq_iff {document : Option Json} :
    document.bind decodeOptional = document ↔ document ≠ some .null := by
  cases document with
  | none => simp
  | some given => cases given <;> simp [decodeOptional]

/-- Documents are read as they are. -/
theorem decodeList_documents (items : List Json) :
    decodeList Except.ok (.array items) = .ok items := by
  simpa using @decodeList_map Json Json Except.ok id id items fun _ _ => rfl

/-- Texts are read back. -/
theorem decodeList_strings (texts : List String) :
    decodeList decodeString (.array (texts.map .string)) = .ok texts := by
  simpa using @decodeList_map String String decodeString .string id texts fun _ _ => rfl

/-- Pairs of texts are read back. -/
theorem decodeList_stringPairs (pairs : List (String × String)) :
    decodeList decodeStringPair
        (.array (pairs.map fun (first, second) => .array [.string first, .string second])) =
      .ok pairs := by
  simpa using @decodeList_map _ _ decodeStringPair
    (fun (first, second) => .array [.string first, .string second]) id pairs fun _ _ => rfl

namespace Record

variable {α : Type} {record : Record α} {value middle filled : α}
  {given others : List (String × Json)} {slot : String}

/-- Whether assigning members, first to last, turns one value into another. -/
def Assigns (record : Record α) (given : List (String × Json)) (value filled : α) : Prop :=
  given.foldlM (fun value (slot, document) => record.assign value slot document) value =
    .ok filled

namespace Assigns

/-- Without members nothing changes. -/
theorem nil : record.Assigns [] value value := rfl

/-- The first member is assigned before the rest. -/
theorem cons {document : Json} (first : record.assign value slot document = .ok middle)
    (rest : record.Assigns given middle filled) :
    record.Assigns ((slot, document) :: given) value filled := by
  rw [Assigns, List.foldlM_cons]
  exact bind_eq_ok.mpr ⟨middle, first, rest⟩

/-- Members that stand after others are assigned after them. -/
theorem append (first : record.Assigns given value middle)
    (second : record.Assigns others middle filled) :
    record.Assigns (given ++ others) value filled := by
  rw [Assigns, List.foldlM_append]
  exact bind_eq_ok.mpr ⟨middle, first, second⟩

/-- A list that is left out when it is empty is assigned like one that is not, if nothing
changes where it is empty. -/
theorem listMember {items : List Json}
    (assigned : record.assign value slot (.array items) = .ok filled)
    (absent : items = [] → filled = value) :
    record.Assigns (Json.listMember slot items) value filled := by
  rw [Json.listMember]
  cases items with
  | nil => exact absent rfl ▸ nil
  | cons item rest => exact cons assigned nil

/-- A text that is left out when it is empty is assigned like one that is not, if nothing
changes where it is empty. -/
theorem textMember {text : String}
    (assigned : record.assign value slot (.string text) = .ok filled)
    (absent : text = "" → filled = value) :
    record.Assigns (Json.textMember slot text) value filled := by
  rw [Json.textMember]
  by_cases empty : text.isEmpty = true
  · rw [if_pos empty, absent (String.isEmpty_iff.mp empty)]
    exact nil
  · rw [if_neg empty]
    exact cons assigned nil

/-- A document that is left out when there is none is assigned like one that is there, if
nothing changes where there is none. -/
theorem optionMember {document : Option Json}
    (assigned : ∀ given ∈ document, record.assign value slot given = .ok filled)
    (absent : document = none → filled = value) :
    record.Assigns (document.toList.map fun given => (slot, given)) value filled := by
  cases document with
  | none => exact absent rfl ▸ nil
  | some given => exact cons (assigned given rfl) nil

end Assigns

/-- An object that assigns a value and gives what is required is read as the value. -/
theorem decode_object (assigned : record.Assigns given record.blank value)
    (complete : ∀ slot ∈ record.required, slot ∈ given.map Prod.fst) :
    record.decode (.object given) = .ok value := by
  have noneMissing : record.missing? (given.map Prod.fst) = none := by
    rw [missing?, List.find?_eq_none]
    intro slot required
    simpa using complete slot required
  have assignedAll : record.assignAll given = .ok value := assigned
  rw [decode, assignedAll]
  simp [bind, Except.bind, noneMissing]

section Parts

variable {holds : α → Prop} {document part : Json}

/-- What is read as a record is read by assigning some of the document's parts to its slots, and
all that is required is given. -/
theorem exists_given_of_decode (read : record.decode document = .ok value) :
    ∃ given : List (String × Json), record.Assigns given record.blank value ∧
      (∀ slot part, (slot, part) ∈ given → part ∈ document.parts) ∧
      ∀ slot ∈ record.required, slot ∈ given.map Prod.fst := by
  have complete {given : List (String × Json)}
      (noneMissing : record.missing? (given.map Prod.fst) = none) :
      ∀ slot ∈ record.required, slot ∈ given.map Prod.fst := by
    intro slot required
    have present := List.find?_eq_none.mp noneMissing slot required
    simpa using present
  cases document with
  | object members =>
      rw [decode] at read
      obtain ⟨result, assigned, checked⟩ := bind_eq_ok.mp read
      split at checked
      · cases checked
      · next noneMissing =>
          obtain rfl := Except.ok.inj checked
          exact ⟨members, assigned, fun slot part => List.mem_map_of_mem, complete noneMissing⟩
  | array items =>
      rw [decode] at read
      obtain ⟨result, assigned, checked⟩ := bind_eq_ok.mp read
      split at checked
      · cases checked
      · next noneMissing =>
          split at checked
          · cases checked
          · obtain rfl := Except.ok.inj checked
            exact ⟨record.slots.zip items, assigned,
              fun slot part member => (List.of_mem_zip member).2, complete noneMissing⟩
  | null | bool | number | string => cases read

/-- A record that requires a slot is read from a document with parts. -/
theorem parts_ne_nil_of_decode (required : slot ∈ record.required)
    (read : record.decode document = .ok value) : document.parts ≠ [] := by
  obtain ⟨given, -, fromParts, complete⟩ := exists_given_of_decode read
  obtain ⟨⟨_, part⟩, member, rfl⟩ := List.mem_map.mp (complete slot required)
  exact List.ne_nil_of_mem (fromParts _ part member)

/-- What a record is read as has what a blank record has and what assigning a part of the
document keeps. -/
theorem decode_preserves
    (kept : ∀ value slot part next, part ∈ document.parts → holds value →
      record.assign value slot part = .ok next → holds next)
    (blank : holds record.blank) (read : record.decode document = .ok value) : holds value := by
  obtain ⟨given, assigned, fromParts, -⟩ := exists_given_of_decode read
  refine foldlM_preserves (fun value item next member => ?_) blank assigned
  exact kept value item.1 item.2 next (fromParts _ _ member)

/-- What a record is read as has what assigning a part of the document to a required slot brings
about and what assigning one to any slot keeps. -/
theorem decode_establishes (required : slot ∈ record.required)
    (established : ∀ value part next, part ∈ document.parts →
      record.assign value slot part = .ok next → holds next)
    (kept : ∀ value slot part next, part ∈ document.parts → holds value →
      record.assign value slot part = .ok next → holds next)
    (read : record.decode document = .ok value) : holds value := by
  obtain ⟨given, assigned, fromParts, complete⟩ := exists_given_of_decode read
  obtain ⟨⟨_, part⟩, present, rfl⟩ := List.mem_map.mp (complete slot required)
  refine foldlM_establishes present (fun value next => ?_) (fun value item next member => ?_)
    assigned
  · exact established value part next (fromParts _ _ present)
  · exact kept value item.1 item.2 next (fromParts _ _ member)

end Parts

end Record

end Json

end FieldGuide
