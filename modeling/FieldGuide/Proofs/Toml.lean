import FieldGuide.Proofs.Settings.Overlay
import FieldGuide.Proofs.Text.Scan
import FieldGuide.Toml.Reader
import Mathlib.Data.Option.Basic

/-!
# Sound documents

Every change that a reader makes to a table under construction keeps it sound: keys are only
set when they are new or to replace a table that grows. A document that is read is therefore a
sound table, whatever its text is.
-/

namespace FieldGuide.Toml

open FieldGuide.Text.Scan (Yields yields_pure yields_failure yields_bind yields_lift yields_any)

/-! ## Tables under construction -/

/-- A node whose tables have distinct keys and whose values are sound. -/
inductive Node.Sound : Node → Prop
  | value {setting : Setting} (sound : setting.Sound) : Sound (.value setting)
  | table {isImplicit isDotted : Bool} {entries : List (String × Node)}
      (distinct : (entries.map Prod.fst).Nodup) (each : ∀ entry ∈ entries, Sound entry.2) :
      Sound (.table isImplicit isDotted entries)
  | tables {elements : List Node} (each : ∀ element ∈ elements, Sound element) :
      Sound (.tables elements)

/-- Entries with distinct keys and sound nodes. -/
structure Entries.Sound (entries : Entries) : Prop where
  distinct : (entries.map Prod.fst).Nodup
  each : ∀ entry ∈ entries, entry.2.Sound

namespace Entries

/-- No entries are sound. -/
theorem sound_nil : Sound [] := ⟨.nil, nofun⟩

/-- Setting a key to a sound node keeps entries sound. -/
theorem Sound.put {entries : Entries} (sound : Sound entries) (key : String) {node : Node}
    (nodeSound : node.Sound) : Sound (Keyed.put key node entries) :=
  ⟨Keyed.nodup_put sound.distinct, Keyed.forall_value_put nodeSound sound.each key⟩

/-- The node of a key is sound. -/
theorem Sound.of_lookup {entries : Entries} (sound : Sound entries) {key : String} {node : Node}
    (found : entries.lookup key = some node) : node.Sound :=
  sound.each _ (Keyed.mem_of_lookup found)

/-- The table of sound entries is sound. -/
theorem Sound.node {entries : Entries} (sound : Sound entries) (isImplicit isDotted : Bool) :
    (Node.table isImplicit isDotted entries).Sound := .table sound.distinct sound.each

/-- The entries of a sound table are sound. -/
theorem sound_of_node {isImplicit isDotted : Bool} {entries : Entries}
    (sound : (Node.table isImplicit isDotted entries).Sound) : Sound entries := by
  cases sound with
  | table distinct each => exact ⟨distinct, each⟩

/-- A change that keeps the entries at the end of a path sound keeps all entries sound. -/
theorem sound_within {dotted : Bool} {change : Bool → Entries → Option Entries}
    (keeps : ∀ {isDotted entries result}, Sound entries →
      change isDotted entries = some result → Sound result)
    {path : List String} {isDotted : Bool} {entries result : Entries} (sound : Sound entries)
    (changed : within dotted change path isDotted entries = some result) : Sound result := by
  induction path generalizing isDotted entries result with
  | nil => exact keeps sound changed
  | cons key path inductionHypothesis =>
      rw [within] at changed
      split at changed
      · obtain ⟨below, inside, same⟩ := Option.bind_eq_some_iff.mp changed
        obtain rfl := Option.some.inj same
        exact sound.put key ((inductionHypothesis sound_nil inside).node _ _)
      · cases changed
      · next found =>
          obtain ⟨_, -, rest⟩ := Option.bind_eq_some_iff.mp changed
          obtain ⟨below, inside, same⟩ := Option.bind_eq_some_iff.mp rest
          obtain rfl := Option.some.inj same
          have before := sound_of_node (sound.of_lookup found)
          exact sound.put key ((inductionHypothesis before inside).node _ _)
      · next elements found =>
          split at changed
          · next last =>
              obtain ⟨below, inside, same⟩ := Option.bind_eq_some_iff.mp changed
              obtain rfl := Option.some.inj same
              cases sound.of_lookup found with
              | tables each =>
                  -- A path goes on in the last element of an array of tables.
                  have before := sound_of_node (each _ (List.mem_of_getLast? last))
                  refine sound.put key (.tables (List.forall_mem_append.mpr ⟨?_, ?_⟩))
                  · exact fun element member => each element (List.dropLast_subset elements member)
                  · exact List.forall_mem_singleton.mpr
                      ((inductionHypothesis before inside).node _ _)
          · cases changed

/-- Opening a table keeps entries sound. -/
theorem Sound.openTable {entries result : Entries} (sound : Sound entries) {path : List String}
    {key : String} (opened : entries.openTable path key = some result) : Sound result := by
  refine sound_within (fun before changed => ?_) sound opened
  split at changed
  · obtain rfl := Option.some.inj changed
    exact before.put key (sound_nil.node _ _)
  · next found =>
      obtain rfl := Option.some.inj changed
      exact before.put key ((sound_of_node (before.of_lookup found)).node _ _)
  · cases changed

/-- Opening an element of an array of tables keeps entries sound. -/
theorem Sound.openElement {entries result : Entries} (sound : Sound entries)
    {path : List String} {key : String} (opened : entries.openElement path key = some result) :
    Sound result := by
  have blank : ∀ element ∈ [Node.table false false []], element.Sound :=
    List.forall_mem_singleton.mpr (sound_nil.node _ _)
  refine sound_within (fun before changed => ?_) sound opened
  split at changed
  · obtain rfl := Option.some.inj changed
    exact before.put key (.tables blank)
  · next found =>
      obtain rfl := Option.some.inj changed
      cases before.of_lookup found with
      | tables each => exact before.put key (.tables (List.forall_mem_append.mpr ⟨each, blank⟩))
  · cases changed

/-- Setting a key to a sound value keeps entries sound. -/
theorem Sound.assign {entries result : Entries} (sound : Sound entries) {path : List String}
    {key : String} {value : Setting} (valueSound : value.Sound)
    (assigned : entries.assign path key value = some result) : Sound result := by
  refine sound_within (fun before changed => ?_) sound assigned
  simp only [Option.bind_eq_bind, Option.bind_eq_some_iff] at changed
  obtain ⟨_, -, _, -, same⟩ := changed
  obtain rfl := Option.some.inj same
  exact before.put key (.value valueSound)

/-- Setting a key in the table of the last header keeps entries sound. -/
theorem Sound.assignIn {entries result : Entries} (sound : Sound entries)
    {header path : List String} {key : String} {value : Setting} (valueSound : value.Sound)
    (assigned : entries.assignIn header path key value = some result) : Sound result :=
  sound_within (fun before changed => before.assign valueSound changed) sound assigned

end Entries

namespace Node

/-- The finished elements of an array of tables are those of its nodes. -/
theorem settings_eq_map (elements : List Node) : settings elements = elements.map setting := by
  induction elements with
  | nil => rfl
  | cons element rest inductionHypothesis => rw [settings, inductionHypothesis, List.map_cons]

/-- The finished entries of a table have its keys and the finished values of its nodes. -/
theorem entrySettings_eq_map (entries : List (String × Node)) :
    entrySettings entries = entries.map fun entry => (entry.1, entry.2.setting) := by
  induction entries with
  | nil => rfl
  | cons entry rest inductionHypothesis =>
      rw [entrySettings, inductionHypothesis, List.map_cons]

/-- The finished value of a sound node is sound. -/
theorem Sound.setting {node : Node} (sound : node.Sound) : node.setting.Sound := by
  induction sound with
  | value sound => exact sound
  | table distinct each inductionHypothesis =>
      rw [Node.setting, entrySettings_eq_map]
      refine .table (by simpa [Function.comp_def] using distinct) ?_
      exact List.forall_mem_map.mpr inductionHypothesis
  | tables each inductionHypothesis =>
      rw [Node.setting, settings_eq_map]
      exact .list (List.forall_mem_map.mpr inductionHypothesis)

end Node

/-- The finished table of sound entries is sound. -/
theorem Entries.Sound.setting {entries : Entries} (sound : Sound entries) :
    Setting.Sound (.table (Node.entrySettings entries)) := (sound.node false false).setting

/-! ## Readers -/

/-- An integer that is read fits 64 bits. -/
theorem sound_of_integer? {word : List Char} {setting : Setting}
    (read : integer? word = some setting) : setting.Sound := by
  have checked {value? : Option Int}
      (taken : (do
        let value ← value?
        guard (-(twoTo 63 : Int) ≤ value ∧ value < twoTo 63)
        return Setting.signed value) = some setting) : setting.Sound := by
    simp only [Option.bind_eq_bind, Option.bind_eq_some_iff] at taken
    obtain ⟨value, -, _, fits, same⟩ := taken
    obtain rfl := Option.some.inj same
    exact .signed ((Option.guard_eq_some' _).mp fits).2
  unfold integer? at read
  split at read <;> exact checked read

/-- A float that is read is sound. -/
theorem sound_of_float? {word : List Char} {setting : Setting}
    (read : float? word = some setting) : setting.Sound := by
  unfold float? at read
  dsimp only at read
  split at read
  · cases read
    exact .float
  split at read
  · cases read
    exact .float
  obtain ⟨whole, -, read⟩ := Option.bind_eq_some_iff.mp read
  obtain ⟨_, -, read⟩ := Option.bind_eq_some_iff.mp read
  have finish {exponent? : Option Int} {decimal : Int → Decimal}
      (taken : (do
        let exponent ← exponent?
        guard ((decimal exponent).toBinary64 ≠ .infinite false)
        return Setting.float (decimal exponent).toBinary64) = some setting) : setting.Sound := by
    simp only [Option.bind_eq_bind, Option.bind_eq_some_iff] at taken
    obtain ⟨exponent, -, _, -, same⟩ := taken
    obtain rfl := Option.some.inj same
    exact .float
  split at read
  · obtain ⟨digits, -, read⟩ := Option.bind_eq_some_iff.mp read
    exact finish read
  · exact finish read

/-- A date or time is a sound table. -/
theorem sound_moment (text : List Char) : (moment text).Sound :=
  .table (List.pairwise_singleton _ _) (List.forall_mem_singleton.mpr .text)

/-- The value of a word is sound. -/
theorem yields_word : word.Yields Setting.Sound := by
  rw [word]
  refine yields_bind fun word => ?_
  split
  · exact yields_pure .bool
  split
  · exact yields_pure .bool
  split
  · refine yields_bind fun rest => ?_
    split
    · dsimp only
      split
      · exact yields_bind fun _ => yields_pure (sound_moment _)
      · exact yields_pure (sound_moment _)
    · exact yields_pure (sound_moment _)
  · split
    · next read => exact yields_pure (sound_of_float? read)
    · exact yields_lift fun setting read => sound_of_integer? read

/-- Values, items and entries of inline tables are sound, whatever fuel they are read with. -/
theorem yields_sound (fuel : Nat) :
    (∀ level, (value fuel level).Yields Setting.Sound) ∧
      (∀ level, (items fuel level).Yields fun settings => ∀ setting ∈ settings, setting.Sound) ∧
      ∀ level entries, Entries.Sound entries →
        (inlineEntries fuel level entries).Yields Entries.Sound := by
  induction fuel with
  | zero =>
      exact ⟨fun _ => yields_failure, fun _ => yields_failure, fun _ _ _ => yields_failure⟩
  | succ fuel inductionHypothesis =>
      obtain ⟨valueSound, itemsSound, entriesSound⟩ := inductionHypothesis
      refine ⟨fun level => ?_, fun level => ?_, fun level entries before => ?_⟩
      · rw [value]
        refine yields_bind fun next? => ?_
        split
        · exact yields_bind fun _ => yields_pure .text
        · exact yields_bind fun _ => yields_pure .text
        · refine yields_bind fun _ => yields_bind fun level => (itemsSound level).bind ?_
          exact fun items each => yields_pure (.list each)
        · refine yields_bind fun _ => yields_bind fun level => yields_bind fun _ =>
            yields_bind fun closed => ?_
          split
          · exact yields_pure .empty
          · exact (entriesSound level [] Entries.sound_nil).bind fun entries sound =>
              yields_pure sound.setting
        · exact yields_word
      · rw [items]
        refine yields_bind fun _ => yields_bind fun closed => ?_
        split
        · exact yields_pure nofun
        · refine (valueSound level).bind fun item sound => yields_bind fun _ =>
            yields_bind fun more => ?_
          split
          · exact (itemsSound level).bind fun rest each =>
              yields_pure (List.forall_mem_cons.mpr ⟨sound, each⟩)
          · exact yields_bind fun _ => yields_pure (List.forall_mem_singleton.mpr sound)
      · rw [inlineEntries]
        refine yields_bind fun key => yields_bind fun _ => yields_bind fun _ =>
          (valueSound level).bind fun setting sound => ?_
        refine (yields_lift fun _ => before.assign sound).bind fun entries after =>
          yields_bind fun _ => yields_bind fun more => ?_
        split
        · exact entriesSound level entries after
        · exact yields_bind fun _ => yields_pure after

/-- A header keeps a document sound. -/
theorem yields_header {entries : Entries} (sound : entries.Sound) :
    (header entries).Yields fun opened => opened.2.Sound := by
  rw [header]
  refine yields_bind fun _ => yields_bind fun isElement => yields_bind fun key =>
    yields_bind fun _ => ?_
  split
  · exact yields_bind fun _ => (yields_lift fun _ => sound.openElement).bind fun entries opened =>
      yields_pure opened
  · exact (yields_lift fun _ => sound.openTable).bind fun entries opened => yields_pure opened

/-- The lines of a document keep it sound. -/
theorem yields_lines (fuel : Nat) (current : List String) {entries : Entries}
    (sound : entries.Sound) : (lines fuel current entries).Yields Entries.Sound := by
  induction fuel generalizing current entries with
  | zero => exact yields_failure
  | succ fuel inductionHypothesis =>
      rw [lines]
      refine yields_bind fun _ => yields_bind fun next? => ?_
      split
      · exact yields_pure sound
      · exact (yields_header sound).bind fun opened openedSound =>
          yields_bind fun _ => inductionHypothesis opened.1 openedSound
      · refine yields_bind fun key => yields_bind fun _ => yields_bind fun _ =>
          yields_bind fun rest => ((yields_sound _).1 0).bind fun setting settingSound => ?_
        exact (yields_lift fun _ => sound.assignIn settingSound).bind fun entries after =>
          yields_bind fun _ => inductionHypothesis current after

/-- A document that is read is a sound table. -/
theorem sound_of_read? {text : String} {entries : List (String × Setting)}
    (read : read? text = some entries) : Setting.Sound (.table entries) := by
  obtain ⟨built, taken, rfl⟩ := Option.map_eq_some_iff.mp read
  exact ((yields_lines _ [] Entries.sound_nil).of_whole? taken).setting

end FieldGuide.Toml
