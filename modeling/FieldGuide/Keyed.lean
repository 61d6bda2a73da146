/-!
# Keyed lists

This module sets the value of a key in a list of entries. An entry that is there
keeps its place, and a new one comes last, so that the list keeps the order in which
its keys first appeared.
-/

namespace FieldGuide.Keyed

variable {κ β : Type} [BEq κ]

/-- Sets the value of a key. -/
def put (key : κ) (value : β) : List (κ × β) → List (κ × β)
  | [] => [(key, value)]
  | (name, old) :: rest =>
      if key == name then (name, value) :: rest else (name, old) :: put key value rest

/-- The entries that setting one key after another leaves. -/
def collect (entries : List (κ × β)) : List (κ × β) :=
  entries.foldl (fun collected (key, value) => put key value collected) []

/-- A key has the value it was set to. -/
theorem lookup_put_self [LawfulBEq κ] (key : κ) (value : β) (entries : List (κ × β)) :
    (put key value entries).lookup key = some value := by
  induction entries with
  | nil => simp [put]
  | cons entry rest inductionHypothesis =>
      obtain ⟨name, old⟩ := entry
      by_cases same : key = name
      · simp [put, same]
      · simp [put, inductionHypothesis, List.lookup_cons, beq_false_of_ne same]

/-- Setting a key leaves the values of the others. -/
theorem lookup_put_of_ne [LawfulBEq κ] {key other : κ} (differ : other ≠ key) (value : β)
    (entries : List (κ × β)) : (put key value entries).lookup other = entries.lookup other := by
  induction entries with
  | nil => simp [put, List.lookup_cons, beq_false_of_ne differ]
  | cons entry rest inductionHypothesis =>
      obtain ⟨name, old⟩ := entry
      by_cases same : key = name
      · subst same
        simp [put, List.lookup_cons, beq_false_of_ne differ]
      · simp [put, same, inductionHypothesis, List.lookup_cons]

end FieldGuide.Keyed
