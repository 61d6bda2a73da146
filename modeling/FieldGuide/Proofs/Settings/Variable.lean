import FieldGuide.Proofs.Settings.Overlay
import FieldGuide.Proofs.Text.Scan
import FieldGuide.Settings.Variable
import Mathlib.Data.List.Basic
import Mathlib.Data.Option.Basic

/-!
# Layers from environment variables

Whatever the text of a variable is, its value is sound, and so is the layer of the variable.
Variables of other applications have no layer.
-/

namespace FieldGuide.Variable

open FieldGuide.Text
open FieldGuide.Text.Scan (Yields yields_pure yields_failure yields_bind)

/-! ## Values -/

/-- A word that is read as a natural number fits 64 bits. -/
theorem lt_of_unsigned? {word : List Char} {value : Nat} (read : unsigned? word = some value) :
    value < twoTo 64 := by
  simp only [unsigned?, Option.bind_eq_bind, Option.bind_eq_some_iff] at read
  obtain ⟨number, -, _, fits, same⟩ := read
  obtain rfl := Option.some.inj same
  exact (Option.guard_eq_some' _).mp fits

/-- A word that is read as a negative number is not above zero. -/
theorem le_of_negative? {word : List Char} {value : Int} (read : negative? word = some value) :
    value ≤ 0 := by
  unfold negative? at read
  split at read
  · simp only [Option.bind_eq_bind, Option.bind_eq_some_iff] at read
    obtain ⟨number, -, _, -, same⟩ := read
    obtain rfl := Option.some.inj same
    omega
  · cases read

/-- The value of a word is sound. -/
theorem sound_ofWord (word : List Char) : (ofWord word).Sound := by
  rw [ofWord]
  split
  · exact .float
  · next read => exact .unsigned (lt_of_unsigned? read)
  · next read => exact .signed (Int.lt_of_le_of_lt (le_of_negative? read) (by decide))
  · exact .text

/-- Values, items and entries are sound, whatever fuel they are read with. -/
theorem yields_sound (fuel : Nat) :
    (value fuel).Yields Setting.Sound ∧
      (items fuel).Yields (fun settings => ∀ setting ∈ settings, setting.Sound) ∧
      ∀ read, Setting.Sound (.table read) →
        (entries fuel read).Yields fun entries => Setting.Sound (.table entries) := by
  induction fuel with
  | zero => exact ⟨yields_failure, yields_failure, fun _ _ => yields_failure⟩
  | succ fuel inductionHypothesis =>
      obtain ⟨valueSound, itemsSound, entriesSound⟩ := inductionHypothesis
      refine ⟨?_, ?_, fun read readSound => ?_⟩
      · -- Every kind of value is followed by the same blanks.
        have finish (setting : Setting) (sound : setting.Sound) :
            (do Scan.skipWhile isGap; return setting : Scan Setting).Yields Setting.Sound :=
          yields_bind fun _ => yields_pure sound
        rw [value]
        refine yields_bind fun _ => yields_bind fun truth? => ?_
        dsimp only
        split
        · exact (yields_pure .bool).bind finish
        · refine yields_bind fun next? => ?_
          split
          · refine yields_bind fun _ => (entriesSound [] .empty).bind ?_
            exact fun entries sound => (yields_pure sound).bind finish
          · refine yields_bind fun _ => itemsSound.bind ?_
            exact fun items each => (yields_pure (.list each)).bind finish
          · exact yields_bind fun _ => (yields_pure .text).bind finish
          · refine yields_bind fun _ => yields_bind fun c => yields_bind fun _ => ?_
            exact (yields_pure .text).bind finish
          · exact yields_bind fun word => (yields_pure (sound_ofWord _)).bind finish
      · rw [items]
        refine yields_bind fun closed => ?_
        split
        · exact yields_pure nofun
        · refine valueSound.bind fun item sound => yields_bind fun more => ?_
          split
          · exact itemsSound.bind fun rest each =>
              yields_pure (List.forall_mem_cons.mpr ⟨sound, each⟩)
          · exact yields_bind fun _ => yields_pure (List.forall_mem_singleton.mpr sound)
      · rw [entries]
        refine yields_bind fun closed => ?_
        split
        · exact yields_pure readSound
        · refine yields_bind fun _ => yields_bind fun name => yields_bind fun _ =>
            yields_bind fun _ => valueSound.bind fun setting sound => yields_bind fun more => ?_
          have put := readSound.put name sound
          split
          · exact entriesSound _ put
          · exact yields_bind fun _ => yields_pure put

/-- The value of a variable is sound. -/
theorem sound_ofText (text : List Char) : (ofText text).Sound := by
  rw [ofText]
  cases read : (value (2 * text.length + 2)).whole? text with
  | none => exact .text
  | some setting => exact (yields_sound _).1.of_whole? read

/-! ## Layers -/

/-- The layers of the variables of an environment, in its order. -/
def layers (environment : List (String × String)) : List Setting :=
  (Keyed.collect environment).filterMap fun (name, value) => layer? name value

/-- The layer of an environment has those of its variables one after another. -/
theorem layer_eq (environment : List (String × String)) :
    layer environment = (layers environment).foldl Setting.overlaid (.table []) := rfl

/-- The layers of variables are sound. -/
theorem sound_of_mem_layers {environment : List (String × String)} :
    ∀ layer ∈ layers environment, layer.Sound := by
  intro layer member
  obtain ⟨⟨name, value⟩, -, read⟩ := List.mem_filterMap.mp member
  obtain ⟨keys, -, rfl⟩ := Option.map_eq_some_iff.mp read
  exact (sound_ofText value.toList).under keys

/-- Whether a variable is named as one of the application. -/
def belongs (name : String) : Bool := (dropNamePrefix? (trim name.toList)).isSome

/-- The variables of other applications have no layers. -/
theorem layers_filter_belongs (environment : List (String × String)) :
    layers (environment.filter fun entry => belongs entry.1) = layers environment := by
  rw [layers, Keyed.collect_filter, List.filterMap_filter]
  refine List.filterMap_congr fun (name, value) _ => ?_
  split
  · rfl
  · next other =>
      rw [Bool.not_eq_true, belongs, Option.isSome_eq_false_iff, Option.isNone_iff_eq_none] at other
      simp [layer?, path?, other]

end FieldGuide.Variable
