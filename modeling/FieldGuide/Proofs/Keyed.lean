import FieldGuide.Keyed
import Mathlib.Data.List.Induction
import Mathlib.Data.List.Basic

/-!
# Keys set one after another

Setting a key adds it only when no key in the list equals it. A list that was collected
entry by entry therefore has distinct keys, and a list with distinct keys is collected
unchanged. Equality of keys need not be symmetric: a key is compared with those before it.
Where it is lawful, collecting leaves each key at its first place with its last value.
-/

namespace FieldGuide.Keyed

variable {κ β : Type} [BEq κ]

/-- Whether no key equals one before it. -/
def keysDiffer (keys : List κ) : Bool :=
  decide (keys.Pairwise fun earlier later => (later == earlier) = false)

/-- Keys differ when each equals none before it. -/
theorem keysDiffer_iff {keys : List κ} :
    keysDiffer keys = true ↔ keys.Pairwise fun earlier later => (later == earlier) = false :=
  decide_eq_true_iff

/-- Keys with a lawful equality differ when none of them stands twice. -/
theorem keysDiffer_iff_nodup [LawfulBEq κ] {keys : List κ} :
    keysDiffer keys = true ↔ keys.Nodup := by
  simp only [keysDiffer_iff, List.Nodup, beq_eq_false_iff_ne, ne_comm]

/-- What looking a key up finds is an entry. -/
theorem mem_of_lookup [LawfulBEq κ] {key : κ} {value : β} {entries : List (κ × β)}
    (found : entries.lookup key = some value) : (key, value) ∈ entries := by
  obtain ⟨before, after, split, -⟩ := List.lookup_eq_some_iff.mp found
  rw [split]
  exact List.mem_append_right before List.mem_cons_self

/-- Setting a key keeps the keys that are there and adds one that none of them equals. -/
theorem keys_put (key : κ) (value : β) (entries : List (κ × β)) :
    (put key value entries).map Prod.fst =
      if (entries.map Prod.fst).any (key == ·) then entries.map Prod.fst
      else entries.map Prod.fst ++ [key] := by
  induction entries with
  | nil => rfl
  | cons entry rest inductionHypothesis =>
      obtain ⟨name, old⟩ := entry
      by_cases equal : (key == name) = true
      · simp [put, equal]
      · rw [put, if_neg equal, List.map_cons, inductionHypothesis]
        simp only [List.map_cons, List.any_cons, Bool.eq_false_iff.mpr equal, Bool.false_or]
        split <;> rfl

/-- Setting a key keeps keys distinct. -/
theorem keysDiffer_put {key : κ} {value : β} {entries : List (κ × β)}
    (differ : keysDiffer (entries.map Prod.fst) = true) :
    keysDiffer ((put key value entries).map Prod.fst) = true := by
  rw [keys_put]
  split
  · exact differ
  · rename_i absent
    rw [keysDiffer_iff, List.pairwise_append]
    refine ⟨keysDiffer_iff.mp differ, List.pairwise_singleton _ _, ?_⟩
    intro earlier member later last
    rw [List.mem_singleton.mp last]
    exact Bool.eq_false_iff.mpr fun equal => absent (List.any_eq_true.mpr ⟨earlier, member, equal⟩)

/-- Setting a key repeats none, where equality of keys is lawful. -/
theorem nodup_put [LawfulBEq κ] {key : κ} {value : β} {entries : List (κ × β)}
    (distinct : (entries.map Prod.fst).Nodup) :
    ((put key value entries).map Prod.fst).Nodup :=
  keysDiffer_iff_nodup.mp (keysDiffer_put (keysDiffer_iff_nodup.mpr distinct))

/-- Collecting entries sets one key after another. -/
theorem collect_eq_foldl (entries : List (κ × β)) :
    collect entries = entries.foldl (fun collected entry => put entry.1 entry.2 collected) [] :=
  rfl

/-- The entries that setting keys leaves have distinct keys. -/
theorem keysDiffer_collect (entries : List (κ × β)) :
    keysDiffer ((collect entries).map Prod.fst) = true := by
  have run (collected : List (κ × β)) (differ : keysDiffer (collected.map Prod.fst) = true) :
      keysDiffer ((entries.foldl (fun collected entry => put entry.1 entry.2 collected)
        collected).map Prod.fst) = true := by
    induction entries generalizing collected with
    | nil => exact differ
    | cons entry rest inductionHypothesis => exact inductionHypothesis _ (keysDiffer_put differ)
  rw [collect_eq_foldl]
  exact run [] (keysDiffer_iff.mpr .nil)

/-- The keys and values that setting a key leaves are those that were there and the new
ones. -/
theorem forall_put {keep : κ → Prop} {hold : β → Prop} {key : κ} {value : β}
    {entries : List (κ × β)} (kept : keep key) (held : hold value)
    (all : ∀ entry ∈ entries, keep entry.1 ∧ hold entry.2) :
    ∀ entry ∈ put key value entries, keep entry.1 ∧ hold entry.2 := by
  induction entries with
  | nil => simp [put, kept, held]
  | cons entry rest inductionHypothesis =>
      obtain ⟨name, old⟩ := entry
      obtain ⟨first, others⟩ := List.forall_mem_cons.mp all
      rw [put]
      split
      · exact List.forall_mem_cons.mpr ⟨⟨first.1, held⟩, others⟩
      · exact List.forall_mem_cons.mpr ⟨first, inductionHypothesis others⟩

/-- The values that setting a key leaves are those that were there and the new one. -/
theorem forall_value_put {hold : β → Prop} {value : β} {entries : List (κ × β)}
    (held : hold value) (all : ∀ entry ∈ entries, hold entry.2) (key : κ) :
    ∀ entry ∈ put key value entries, hold entry.2 := by
  have each := @forall_put _ _ _ (fun _ => True) hold key value entries trivial held
    fun entry member => ⟨trivial, all entry member⟩
  exact fun entry member => (each entry member).2

/-- Every key and value of collected entries is one of an entry. -/
theorem forall_collect (keep : κ → Prop) (hold : β → Prop) {entries : List (κ × β)}
    (all : ∀ entry ∈ entries, keep entry.1 ∧ hold entry.2) :
    ∀ entry ∈ collect entries, keep entry.1 ∧ hold entry.2 := by
  have run (collected : List (κ × β)) (kept : ∀ entry ∈ collected, keep entry.1 ∧ hold entry.2) :
      ∀ entry ∈ entries.foldl (fun collected entry => put entry.1 entry.2 collected) collected,
        keep entry.1 ∧ hold entry.2 := by
    induction entries generalizing collected with
    | nil => exact kept
    | cons entry rest inductionHypothesis =>
        obtain ⟨first, others⟩ := List.forall_mem_cons.mp all
        exact inductionHypothesis others _ (forall_put first.1 first.2 kept)
  rw [collect_eq_foldl]
  exact run [] (List.forall_mem_nil _)

/-- Setting a key that none equals adds an entry at the end. -/
theorem put_of_absent {key : κ} {value : β} {entries : List (κ × β)}
    (absent : ∀ entry ∈ entries, (key == entry.1) = false) :
    put key value entries = entries ++ [(key, value)] := by
  induction entries with
  | nil => rfl
  | cons entry rest inductionHypothesis =>
      obtain ⟨name, old⟩ := entry
      obtain ⟨first, others⟩ := List.forall_mem_cons.mp absent
      rw [put, if_neg (by simp [first]), inductionHypothesis others, List.cons_append]

/-- Entries with distinct keys are collected unchanged. -/
theorem collect_of_keysDiffer {entries : List (κ × β)}
    (differ : keysDiffer (entries.map Prod.fst) = true) : collect entries = entries := by
  have run (rest collected : List (κ × β))
      (apart : ((collected ++ rest).map Prod.fst).Pairwise
        fun earlier later => (later == earlier) = false) :
      rest.foldl (fun collected entry => put entry.1 entry.2 collected) collected =
        collected ++ rest := by
    induction rest generalizing collected with
    | nil => exact (List.append_nil collected).symm
    | cons entry rest inductionHypothesis =>
        have absent : ∀ other ∈ collected, (entry.1 == other.1) = false := by
          rw [List.map_append, List.pairwise_append] at apart
          intro other member
          exact apart.2.2 other.1 (List.mem_map_of_mem member) entry.1 List.mem_cons_self
        rw [List.append_cons] at apart ⊢
        rw [List.foldl_cons, put_of_absent absent]
        exact inductionHypothesis (collected ++ [entry]) apart
  rw [collect_eq_foldl]
  exact run entries [] (keysDiffer_iff.mp differ)

/-- Setting a key in the entries that are left by a test of keys leaves the same entries as
testing them after it. -/
theorem put_filter [LawfulBEq κ] (keep : κ → Bool) (key : κ) (value : β)
    (entries : List (κ × β)) :
    (put key value entries).filter (fun entry => keep entry.1) =
      if keep key then put key value (entries.filter fun entry => keep entry.1)
      else entries.filter fun entry => keep entry.1 := by
  induction entries with
  | nil => cases kept : keep key <;> simp [put, kept]
  | cons entry rest inductionHypothesis =>
      obtain ⟨name, old⟩ := entry
      by_cases same : key = name
      · subst same
        cases kept : keep key <;> simp [put, kept]
      · rw [put, if_neg (by simpa using same), List.filter_cons, List.filter_cons,
          inductionHypothesis]
        cases keep name <;> cases keep key <;> simp [put, same]

/-- Entries whose keys pass a test are collected like all entries, and those among them kept. -/
theorem collect_filter [LawfulBEq κ] (keep : κ → Bool) (entries : List (κ × β)) :
    collect (entries.filter fun entry => keep entry.1) =
      (collect entries).filter fun entry => keep entry.1 := by
  have run (collected : List (κ × β)) :
      (entries.filter fun entry => keep entry.1).foldl
          (fun collected entry => put entry.1 entry.2 collected)
          (collected.filter fun entry => keep entry.1) =
        (entries.foldl (fun collected entry => put entry.1 entry.2 collected) collected).filter
          fun entry => keep entry.1 := by
    induction entries generalizing collected with
    | nil => rfl
    | cons entry rest inductionHypothesis =>
        rw [List.foldl_cons, ← inductionHypothesis, put_filter, List.filter_cons]
        split <;> rfl
  rw [collect_eq_foldl, collect_eq_foldl]
  exact run []

/-- Each key of some entries once, where it first stands, with the value that stands last under
it. -/
def lastValues (entries : List (κ × β)) : List (κ × β) :=
  (entries.map Prod.fst).eraseDups.filterMap fun key =>
    (entries.reverse.lookup key).map fun value => (key, value)

/-- The last entry is set after the others. -/
theorem collect_concat (entries : List (κ × β)) (key : κ) (value : β) :
    collect (entries ++ [(key, value)]) = put key value (collect entries) := by
  rw [collect_eq_foldl, List.foldl_append]
  rfl

/-- Collected entries have each key once, where it first stands. -/
theorem keys_collect [LawfulBEq κ] (entries : List (κ × β)) :
    (collect entries).map Prod.fst = (entries.map Prod.fst).eraseDups := by
  induction entries using List.reverseRecOn with
  | nil => rfl
  | append_singleton entries entry inductionHypothesis =>
      have present : ((entries.map Prod.fst).eraseDups.any (entry.1 == ·)) = true ↔
          entry.1 ∈ entries.map Prod.fst := by
        rw [List.any_beq, List.contains_iff_mem, List.mem_eraseDups]
      rw [collect_concat, keys_put, inductionHypothesis, List.map_append, List.map_singleton,
        List.eraseDups_append, List.removeAll, List.filter_singleton, List.elem_eq_mem]
      by_cases listed : entry.1 ∈ entries.map Prod.fst
      · rw [if_pos (present.mpr listed), decide_eq_true listed]
        exact (List.append_nil _).symm
      · rw [if_neg (mt present.mp listed), decide_eq_false listed]
        rfl

/-- A key of collected entries has the value that stands last under it. -/
theorem lookup_collect [LawfulBEq κ] (entries : List (κ × β)) (key : κ) :
    (collect entries).lookup key = entries.reverse.lookup key := by
  induction entries using List.reverseRecOn with
  | nil => rfl
  | append_singleton entries entry inductionHypothesis =>
      obtain ⟨name, value⟩ := entry
      rw [collect_concat, List.reverse_concat]
      by_cases same : key = name
      · subst same
        rw [lookup_put_self, List.lookup_cons_self]
      · rw [lookup_put_of_ne same, inductionHypothesis, List.lookup_cons,
          beq_false_of_ne same]

/-- Entries with distinct keys are told by their keys and what looking these up finds. -/
theorem filterMap_lookup [LawfulBEq κ] {entries : List (κ × β)}
    (distinct : (entries.map Prod.fst).Nodup) :
    (entries.map Prod.fst).filterMap (fun key =>
      (entries.lookup key).map fun value => (key, value)) = entries := by
  induction entries with
  | nil => rfl
  | cons entry rest inductionHypothesis =>
      obtain ⟨name, value⟩ := entry
      obtain ⟨absent, others⟩ := List.nodup_cons.mp distinct
      have onward : (rest.map Prod.fst).filterMap (fun key =>
          (((name, value) :: rest).lookup key).map fun value => (key, value)) = rest := by
        refine (List.filterMap_congr fun key member => ?_).trans (inductionHypothesis others)
        have differ : key ≠ name := fun same => absent (same ▸ member)
        rw [List.lookup_cons, beq_false_of_ne differ]
      rw [List.map_cons, List.filterMap_cons, List.lookup_cons_self, onward]
      rfl

/-- Collecting entries leaves each key where it first stands, with its last value. -/
theorem collect_eq_lastValues [LawfulBEq κ] (entries : List (κ × β)) :
    collect entries = lastValues entries := by
  have distinct := keysDiffer_iff_nodup.mp (keysDiffer_collect entries)
  rw [← filterMap_lookup distinct, keys_collect, lastValues]
  simp only [lookup_collect]

/-- Whether entries made with a value hold it at one place, under a key. -/
def HoldsAt (key : κ) (make : β → List (κ × β)) : Prop :=
  ∃ before after, ∀ value, make value = before ++ (key, value) :: after

/-- An entry before them moves the place by one. -/
theorem HoldsAt.cons {α : Type} {key : α} {make : β → List (α × β)} (holds : HoldsAt key make)
    (entry : α × β) : HoldsAt key fun value => entry :: make value := by
  obtain ⟨before, after, placed⟩ := holds
  exact ⟨entry :: before, after, fun value => congrArg (entry :: ·) (placed value)⟩

/-- A value that is set stands under its key, or under one that is there and that its key
equals. -/
theorem holdsAt_put (key : κ) (entries : List (κ × β)) :
    ∃ name, (name = key ∨ (key == name) = true ∧ ∃ entry ∈ entries, entry.1 = name) ∧
      HoldsAt name fun value => put key value entries := by
  induction entries with
  | nil => exact ⟨key, .inl rfl, [], [], fun _ => rfl⟩
  | cons entry rest inductionHypothesis =>
      obtain ⟨name, old⟩ := entry
      by_cases equal : (key == name) = true
      · refine ⟨name, .inr ⟨equal, (name, old), List.mem_cons_self, rfl⟩, [], rest, fun value => ?_⟩
        simp only [put, if_pos equal, List.nil_append]
      · obtain ⟨found, named, holds⟩ := inductionHypothesis
        refine ⟨found, named.imp_right ?_, ?_⟩
        · rintro ⟨same, entry, member, here⟩
          exact ⟨same, entry, List.mem_cons_of_mem _ member, here⟩
        · simp only [put, if_neg equal]
          exact holds.cons (name, old)

/-- Setting another key leaves a value where it stands, or replaces it when the other key equals
the one that it stands under. -/
theorem HoldsAt.put {name : κ} {make : β → List (κ × β)} (holds : HoldsAt name make) (key : κ)
    (other : β) :
    HoldsAt name (fun value => put key other (make value)) ∨
      (key == name) = true ∧ ∃ entries, ∀ value, Keyed.put key other (make value) = entries := by
  obtain ⟨before, after, placed⟩ := holds
  simp only [placed]
  clear placed
  induction before with
  | nil =>
      by_cases equal : (key == name) = true
      · refine .inr ⟨equal, (name, other) :: after, fun value => ?_⟩
        rw [List.nil_append, Keyed.put, if_pos equal]
      · refine .inl ⟨[], Keyed.put key other after, fun value => ?_⟩
        simp only [List.nil_append, Keyed.put, if_neg equal]
  | cons entry rest inductionHypothesis =>
      obtain ⟨first, old⟩ := entry
      simp only [List.cons_append, Keyed.put]
      split
      · exact .inl ⟨(first, other) :: rest, after, fun value => rfl⟩
      · rcases inductionHypothesis with kept | ⟨equal, entries, same⟩
        · exact .inl (kept.cons (first, old))
        · exact .inr ⟨equal, (first, old) :: entries, fun value =>
            congrArg ((first, old) :: ·) (same value)⟩

/-- Setting more keys leaves a value where it stands, or one of them replaces it. -/
theorem HoldsAt.foldl_put {name : κ} {make : β → List (κ × β)} (holds : HoldsAt name make)
    (entries : List (κ × β)) :
    HoldsAt name (fun value =>
        entries.foldl (fun collected entry => Keyed.put entry.1 entry.2 collected) (make value)) ∨
      (∃ later ∈ entries, (later.1 == name) = true) ∧ ∃ kept, ∀ value,
        entries.foldl (fun collected entry => Keyed.put entry.1 entry.2 collected) (make value) =
          kept := by
  induction entries generalizing make with
  | nil => exact .inl holds
  | cons entry rest inductionHypothesis =>
      rcases holds.put entry.1 entry.2 with stays | ⟨equal, entries, same⟩
      · refine (inductionHypothesis stays).imp_right ?_
        rintro ⟨⟨later, member, equal⟩, same⟩
        exact ⟨⟨later, List.mem_cons_of_mem entry member, equal⟩, same⟩
      · -- The other keys are set in entries that the value is no longer part of.
        refine .inr ⟨⟨entry, List.mem_cons_self, equal⟩,
          rest.foldl (fun collected entry => Keyed.put entry.1 entry.2 collected) entries,
          fun value => ?_⟩
        rw [List.foldl_cons, same value]

/-- Whether an entry after a key equals it, or a key before it that it equals itself. -/
def Replaces (before : List (κ × β)) (key : κ) (after : List (κ × β)) : Prop :=
  ∃ later ∈ after, (later.1 == key) = true ∨
    ∃ earlier ∈ before, (key == earlier.1) = true ∧ (later.1 == earlier.1) = true

/-- A value among entries stands at one place in what is collected, unless a later one replaces
it. -/
theorem holdsAt_collect (before : List (κ × β)) (key : κ) (after : List (κ × β)) :
    (∃ name, HoldsAt name fun value => collect (before ++ (key, value) :: after)) ∨
      Replaces before key after ∧
        ∃ kept, ∀ value, collect (before ++ (key, value) :: after) = kept := by
  obtain ⟨name, named, holds⟩ := holdsAt_put key (collect before)
  simp only [collect_eq_foldl, List.foldl_append, List.foldl_cons] at holds ⊢
  rcases holds.foldl_put after with stays | ⟨⟨later, member, equal⟩, same⟩
  · exact .inl ⟨name, stays⟩
  · refine .inr ⟨⟨later, member, ?_⟩, same⟩
    rcases named with rfl | ⟨equals, entry, listed, rfl⟩
    · exact .inl equal
    · have given := forall_collect (fun first => ∃ earlier ∈ before, earlier.1 = first)
        (fun _ : β => True) fun earlier member => ⟨⟨earlier, member, rfl⟩, trivial⟩
      obtain ⟨⟨earlier, earlierMember, here⟩, -⟩ := given entry listed
      exact .inr ⟨earlier, earlierMember, here ▸ equals, here ▸ equal⟩

end FieldGuide.Keyed
