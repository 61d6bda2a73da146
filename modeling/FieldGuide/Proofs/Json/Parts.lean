import FieldGuide.Json.Basic
import Mathlib.Data.List.Nodup

/-!
# What a document holds

A document holds its parts: the items of an array, or the values of an object. This module says
how deep a document is, which numbers it holds and whether it repeats a key in terms of its parts.
-/

namespace FieldGuide

namespace Json

/-- The documents directly inside a document. -/
def parts : Json → List Json
  | .array items => items
  | .object members => members.map Prod.snd
  | .null | .bool _ | .number _ | .string _ => []

/-- The keys of an object. -/
def keys : Json → List String
  | .object members => members.map Prod.fst
  | .null | .bool _ | .number _ | .string _ | .array _ => []

mutual

/-- The numbers in a document. -/
def numbers : Json → List Number
  | .number value => [value]
  | .array items => numbersOfItems items
  | .object members => numbersOfMembers members
  | .null | .bool _ | .string _ => []

/-- The numbers in items. -/
def numbersOfItems : List Json → List Number
  | [] => []
  | item :: rest => numbers item ++ numbersOfItems rest

/-- The numbers in the values of members. -/
def numbersOfMembers : List (String × Json) → List Number
  | [] => []
  | (_, value) :: rest => numbers value ++ numbersOfMembers rest

end

mutual

/-- Whether no object in a document repeats a key. -/
def hasDistinctKeys : Json → Bool
  | .array items => allHaveDistinctKeys items
  | .object members => decide (members.map Prod.fst).Nodup && valuesHaveDistinctKeys members
  | _ => true

/-- Whether no object in the documents repeats a key. -/
def allHaveDistinctKeys : List Json → Bool
  | [] => true
  | item :: rest => hasDistinctKeys item && allHaveDistinctKeys rest

/-- Whether no object in the values of members repeats a key. -/
def valuesHaveDistinctKeys : List (String × Json) → Bool
  | [] => true
  | (_, value) :: rest => hasDistinctKeys value && valuesHaveDistinctKeys rest

end

variable {document part : Json}

/-- A document with parts is no number. -/
theorem ne_number_of_mem_parts (member : part ∈ document.parts) (value : Number) :
    document ≠ .number value := by
  rintro rfl
  cases member

section Depth

/-- No item lies deeper than all items together. -/
theorem depth_le_depthItems {item : Json} {items : List Json} (member : item ∈ items) :
    item.depth ≤ depthItems items := by
  induction items with
  | nil => cases member
  | cons first rest inductionHypothesis =>
      rw [depthItems]
      rcases List.mem_cons.mp member with rfl | below
      · exact Nat.le_max_left _ _
      · exact Nat.le_trans (inductionHypothesis below) (Nat.le_max_right _ _)

/-- Items lie no deeper than a bound on each of them. -/
theorem depthItems_le {items : List Json} {bound : Nat}
    (each : ∀ item ∈ items, item.depth ≤ bound) : depthItems items ≤ bound := by
  induction items with
  | nil => exact Nat.zero_le _
  | cons item rest inductionHypothesis =>
      obtain ⟨first, others⟩ := List.forall_mem_cons.mp each
      exact Nat.max_le.mpr ⟨first, inductionHypothesis others⟩

/-- Members lie as deep as their values. -/
theorem depthMembers_eq_depthItems (members : List (String × Json)) :
    depthMembers members = depthItems (members.map Prod.snd) := by
  induction members with
  | nil => rfl
  | cons member rest inductionHypothesis =>
      rw [depthMembers, inductionHypothesis, List.map_cons, depthItems]

/-- An array or an object is one level deeper than its parts. -/
theorem depth_eq_depthItems_parts (inside : 0 < document.depth) :
    document.depth = depthItems document.parts + 1 := by
  cases document with
  | array items => rfl
  | object members => rw [depth, parts, depthMembers_eq_depthItems]
  | null | bool | number | string => cases inside

/-- A document is at most one level deeper than its parts. -/
theorem depth_le_depthItems_parts (document : Json) :
    document.depth ≤ depthItems document.parts + 1 := by
  rcases Nat.eq_zero_or_pos document.depth with flat | inside
  · rw [flat]
    exact Nat.zero_le _
  · exact Nat.le_of_eq (depth_eq_depthItems_parts inside)

/-- A document with parts is an array or an object. -/
theorem depth_pos_of_mem_parts (member : part ∈ document.parts) : 0 < document.depth := by
  cases document with
  | array | object => exact Nat.succ_pos _
  | null | bool | number | string => cases member

/-- A part is less deep than the document. -/
theorem depth_lt_of_mem_parts (member : part ∈ document.parts) : part.depth < document.depth := by
  rw [depth_eq_depthItems_parts (depth_pos_of_mem_parts member)]
  exact Nat.lt_succ_of_le (depth_le_depthItems member)

end Depth

section Numbers

/-- Items are looked through one by one. -/
theorem numbersOfItems_eq_flatMap (items : List Json) :
    numbersOfItems items = items.flatMap numbers := by
  induction items with
  | nil => rfl
  | cons item rest inductionHypothesis =>
      rw [numbersOfItems, inductionHypothesis, List.flatMap_cons]

/-- Members are looked through by their values. -/
theorem numbersOfMembers_eq_numbersOfItems (members : List (String × Json)) :
    numbersOfMembers members = numbersOfItems (members.map Prod.snd) := by
  induction members with
  | nil => rfl
  | cons member rest inductionHypothesis =>
      rw [numbersOfMembers, inductionHypothesis, List.map_cons, numbersOfItems]

/-- A document that is not a number itself holds the numbers of its parts. -/
theorem numbers_eq_flatMap_parts (notNumber : ∀ value, document ≠ .number value) :
    document.numbers = document.parts.flatMap numbers := by
  cases document with
  | number value => exact absurd rfl (notNumber value)
  | array items => rw [numbers, parts, numbersOfItems_eq_flatMap]
  | object members =>
      rw [numbers, parts, numbersOfMembers_eq_numbersOfItems, numbersOfItems_eq_flatMap]
  | null | bool | string => rfl

end Numbers

section Keys

/-- Whether documents repeat a key depends on each of them. -/
theorem allHaveDistinctKeys_eq_all (items : List Json) :
    allHaveDistinctKeys items = items.all hasDistinctKeys := by
  induction items with
  | nil => rfl
  | cons item rest inductionHypothesis =>
      rw [allHaveDistinctKeys, inductionHypothesis, List.all_cons]

/-- Whether the values of members repeat a key depends on each value. -/
theorem valuesHaveDistinctKeys_eq_all (members : List (String × Json)) :
    valuesHaveDistinctKeys members = (members.map Prod.snd).all hasDistinctKeys := by
  induction members with
  | nil => rfl
  | cons member rest inductionHypothesis =>
      rw [valuesHaveDistinctKeys, inductionHypothesis, List.map_cons, List.all_cons]

/-- A document repeats no key when it has distinct keys itself and its parts repeat none. -/
theorem hasDistinctKeys_iff :
    document.hasDistinctKeys = true ↔
      document.keys.Nodup ∧ ∀ part ∈ document.parts, part.hasDistinctKeys = true := by
  cases document with
  | array items => simp [hasDistinctKeys, keys, parts, allHaveDistinctKeys_eq_all]
  | object members =>
      rw [hasDistinctKeys, Bool.and_eq_true, decide_eq_true_iff, valuesHaveDistinctKeys_eq_all,
        List.all_eq_true]
      rfl
  | null | bool | number | string => simp [hasDistinctKeys, keys, parts]

/-- A list that is left out when it is empty has at most its own key. -/
theorem keys_listMember (key : String) (items : List Json) :
    ((listMember key items).map Prod.fst).Sublist [key] := by
  rw [listMember]
  split
  · exact List.nil_sublist _
  · exact List.Sublist.refl _

/-- A text that is left out when it is empty has at most its own key. -/
theorem keys_textMember (key text : String) :
    ((textMember key text).map Prod.fst).Sublist [key] := by
  rw [textMember]
  split
  · exact List.nil_sublist _
  · exact List.Sublist.refl _

/-- A document that is left out when there is none has at most its own key. -/
theorem keys_optionMember (key : String) (document : Option Json) :
    ((document.toList.map fun given => (key, given)).map Prod.fst).Sublist [key] := by
  cases document with
  | none => exact List.nil_sublist _
  | some given => exact List.Sublist.refl _

end Keys

end Json

end FieldGuide
