import Mathlib.Data.List.Forall2

/-!
# Computations that may fail

A sequence of computations returns a result exactly when each of them does. What each of them
keeps holds of the result.
-/

namespace FieldGuide

variable {ε α β : Type}

/-- A computation after one that returns gets its result. -/
theorem ok_bind (value : α) (next : α → Except ε β) : (Except.ok value >>= next) = next value :=
  rfl

/-- Two computations in sequence return when the first does and the second does on its
result. -/
theorem bind_eq_ok {first : Except ε α} {next : α → Except ε β} {result : β} :
    (first >>= next) = .ok result ↔ ∃ value, first = .ok value ∧ next value = .ok result := by
  cases first with
  | error reason => simp [bind, Except.bind]
  | ok value => simp [bind, Except.bind]

/-- Two computations in sequence fail when the first does, or the second does on its result. -/
theorem bind_eq_error {first : Except ε α} {next : α → Except ε β} {reason : ε} :
    (first >>= next) = .error reason ↔
      first = .error reason ∨ ∃ value, first = .ok value ∧ next value = .error reason := by
  cases first with
  | error given => simp [bind, Except.bind]
  | ok value => simp [bind, Except.bind]

/-- A computation followed by a function returns the function of its result. -/
theorem bind_pure_eq_ok {first : Except ε α} {make : α → β} {result : β} :
    (first >>= fun value => pure (make value)) = .ok result ↔
      ∃ value, first = .ok value ∧ make value = result := by
  rw [bind_eq_ok]
  simp [pure, Except.pure]

/-- Computations for the items of a list return when each of them does, with its result. -/
theorem mapM_eq_ok {each : α → Except ε β} {items : List α} {results : List β} :
    items.mapM each = .ok results ↔
      List.Forall₂ (fun item result => each item = .ok result) items results := by
  constructor
  · intro run
    induction items generalizing results with
    | nil =>
        obtain rfl := Except.ok.inj run
        exact .nil
    | cons item rest inductionHypothesis =>
        rw [List.mapM_cons] at run
        obtain ⟨result, one, onward⟩ := bind_eq_ok.mp run
        obtain ⟨others, remaining, rfl⟩ := bind_pure_eq_ok.mp onward
        exact .cons one (inductionHypothesis remaining)
  · intro each
    induction each with
    | nil => rfl
    | cons one _ inductionHypothesis =>
        rw [List.mapM_cons, one, ok_bind]
        exact bind_pure_eq_ok.mpr ⟨_, inductionHypothesis, rfl⟩

/-- Each of the results of computations for the items of a list is the result for one of them. -/
theorem exists_mem_of_mapM {each : α → Except ε β} {items : List α} {results : List β}
    (run : items.mapM each = .ok results) {result : β} (member : result ∈ results) :
    ∃ item ∈ items, each item = .ok result := by
  induction items generalizing results with
  | nil =>
      obtain rfl := Except.ok.inj run
      cases member
  | cons first rest inductionHypothesis =>
      rw [List.mapM_cons] at run
      obtain ⟨head, one, onward⟩ := bind_eq_ok.mp run
      obtain ⟨tail, others, rfl⟩ := bind_pure_eq_ok.mp onward
      rcases List.mem_cons.mp member with rfl | after
      · exact ⟨first, List.mem_cons_self, one⟩
      · obtain ⟨item, listed, computed⟩ := inductionHypothesis others after
        exact ⟨item, List.mem_cons_of_mem _ listed, computed⟩

/-- Computations for the items of a list return when the one for an item and those for the items
before and after it do. -/
theorem mapM_around_eq_ok {each : α → Except ε β} {before after : List α} {item : α}
    {results : List β} :
    (before ++ item :: after).mapM each = .ok results ↔
      ∃ earlier result later, before.mapM each = .ok earlier ∧ each item = .ok result ∧
        after.mapM each = .ok later ∧ earlier ++ result :: later = results := by
  rw [List.mapM_append, List.mapM_cons]
  constructor
  · intro run
    obtain ⟨earlier, first, onward⟩ := bind_eq_ok.mp run
    obtain ⟨rest, inside, rfl⟩ := bind_pure_eq_ok.mp onward
    obtain ⟨result, one, after⟩ := bind_eq_ok.mp inside
    obtain ⟨later, others, rfl⟩ := bind_pure_eq_ok.mp after
    exact ⟨earlier, result, later, first, one, others, rfl⟩
  · rintro ⟨earlier, result, later, first, one, others, rfl⟩
    exact bind_eq_ok.mpr ⟨earlier, first, bind_pure_eq_ok.mpr ⟨_, bind_eq_ok.mpr
      ⟨result, one, bind_pure_eq_ok.mpr ⟨later, others, rfl⟩⟩, rfl⟩⟩

/-- A property that each step keeps holds of what the steps end with. -/
theorem foldlM_preserves {holds : β → Prop} {step : β → α → Except ε β} {items : List α}
    {start result : β}
    (kept : ∀ value item next, item ∈ items → holds value → step value item = .ok next →
      holds next)
    (held : holds start) (run : items.foldlM step start = .ok result) : holds result := by
  induction items generalizing start with
  | nil =>
      obtain rfl := Except.ok.inj run
      exact held
  | cons item rest inductionHypothesis =>
      rw [List.foldlM_cons] at run
      obtain ⟨next, first, others⟩ := bind_eq_ok.mp run
      exact inductionHypothesis
        (fun value other after member => kept value other after (List.mem_cons_of_mem _ member))
        (kept start item next List.mem_cons_self held first) others

/-- A property that one step brings about and that each step keeps holds of what the steps end
with. -/
theorem foldlM_establishes {holds : β → Prop} {step : β → α → Except ε β} {items : List α}
    {item : α} {start result : β} (member : item ∈ items)
    (established : ∀ value next, step value item = .ok next → holds next)
    (kept : ∀ value other next, other ∈ items → holds value → step value other = .ok next →
      holds next)
    (run : items.foldlM step start = .ok result) : holds result := by
  obtain ⟨before, after, rfl⟩ := List.append_of_mem member
  rw [List.foldlM_append] at run
  obtain ⟨middle, -, onward⟩ := bind_eq_ok.mp run
  rw [List.foldlM_cons] at onward
  obtain ⟨next, brought, others⟩ := bind_eq_ok.mp onward
  refine foldlM_preserves (fun value other after later => ?_) (established middle next brought)
    others
  exact kept value other after (List.mem_append_right _ (List.mem_cons_of_mem _ later))

/-- A computation returns what is left of it when reasons for failure are dropped. -/
theorem toOption_eq_some {first : Except ε α} {result : α} :
    first.toOption = some result ↔ first = .ok result := by
  cases first <;> simp [Except.toOption]

end FieldGuide
