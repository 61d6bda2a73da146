import FieldGuide.Proofs.Example.Tree
import FieldGuide.Proofs.Keyed
import Mathlib.Data.List.Nodup

/-!
# Trees with distinct keys

A mapping of a tree may repeat a key. This module holds the trees in which none does,
at any depth: there, the entries of a mapping are exactly what looking keys up finds.
-/

namespace FieldGuide.Tree

mutual

/-- Whether no mapping in a tree repeats a key. -/
def hasDistinctKeys : Tree → Bool
  | .sequence items => allHaveDistinctKeys items
  | .mapping entries =>
      decide (entries.map Prod.fst).Nodup && valuesHaveDistinctKeys entries
  | _ => true

/-- Whether no mapping in any of the trees repeats a key. -/
def allHaveDistinctKeys : List Tree → Bool
  | [] => true
  | item :: rest => hasDistinctKeys item && allHaveDistinctKeys rest

/-- Whether no mapping in the value of any entry repeats a key. -/
def valuesHaveDistinctKeys : List (String × Tree) → Bool
  | [] => true
  | (_, value) :: rest => hasDistinctKeys value && valuesHaveDistinctKeys rest

end

/-- A sequence has distinct keys when its items have. -/
theorem hasDistinctKeys_sequence {items : List Tree} :
    (sequence items).hasDistinctKeys = true ↔
      ∀ item ∈ items, item.hasDistinctKeys = true := by
  rw [hasDistinctKeys]
  induction items with
  | nil => simp [allHaveDistinctKeys]
  | cons item rest inductionHypothesis =>
      rw [allHaveDistinctKeys, Bool.and_eq_true, inductionHypothesis, List.forall_mem_cons]

/-- A mapping has distinct keys when its own keys differ and its values have distinct
keys. -/
theorem hasDistinctKeys_mapping {entries : List (String × Tree)} :
    (mapping entries).hasDistinctKeys = true ↔
      (entries.map Prod.fst).Nodup ∧ ∀ entry ∈ entries, entry.2.hasDistinctKeys = true := by
  have values : valuesHaveDistinctKeys entries = true ↔
      ∀ entry ∈ entries, entry.2.hasDistinctKeys = true := by
    induction entries with
    | nil => simp [valuesHaveDistinctKeys]
    | cons entry rest inductionHypothesis =>
        rw [valuesHaveDistinctKeys, Bool.and_eq_true, inductionHypothesis, List.forall_mem_cons]
  rw [hasDistinctKeys, Bool.and_eq_true, decide_eq_true_iff, values]

/-- A tree under a key has distinct keys when the tree has. -/
theorem hasDistinctKeys_under (tree : Tree) (key : String) :
    (tree.under key).hasDistinctKeys = tree.hasDistinctKeys := by
  simp [under, hasDistinctKeys, valuesHaveDistinctKeys]

section Entries

variable {entries : List (String × Tree)} {key : String} {value other : Tree}

/-- Two entries with one key are the same where keys are distinct. -/
theorem value_eq_of_mem (distinct : (entries.map Prod.fst).Nodup)
    (member : (key, value) ∈ entries) (otherMember : (key, other) ∈ entries) :
    value = other :=
  congrArg Prod.snd (List.inj_on_of_nodup_map distinct member otherMember rfl)

/-- Where keys are distinct, looking the key of an entry up finds its value. -/
theorem lookup_of_mem (distinct : (entries.map Prod.fst).Nodup)
    (member : (key, value) ∈ entries) : entries.lookup key = some value := by
  cases found : entries.lookup key with
  | none =>
      have differs := List.lookup_eq_none_iff.mp found (key, value) member
      simp at differs
  | some other => rw [value_eq_of_mem distinct (Keyed.mem_of_lookup found) member]

end Entries

end FieldGuide.Tree
