import FieldGuide.Proofs.Except
import FieldGuide.Proofs.Settings.Variable
import FieldGuide.Proofs.Toml
import FieldGuide.Settings.Layers

/-!
# Settings leaf by leaf

Settings are read from four leaves of the merged layers. As long as every layer gives the
settings of examples as a table, each leaf has its value from the last layer that gives it one,
and nothing else in a layer counts.
-/

namespace FieldGuide

open Setting (over?)

/-- The single values among the settings. -/
inductive Leaf
  | nest
  | inlineFieldLimit
  | removeTypeField
  | typeField

namespace Leaf

/-- The keys that lead to a leaf. -/
def path : Leaf → List String
  | .nest => ["nest"]
  | .inlineFieldLimit => ["inline_field_limit"]
  | .removeTypeField => ["examples", "remove_type_field"]
  | .typeField => ["examples", "type_field"]

/-- The value that layers give a leaf: a variable if one does, else the file, else the
defaults. -/
def given? (leaf : Leaf) (file : Setting) (overrides : List Setting) : Option Setting :=
  (overrides.findSome? (Setting.leaf? leaf.path)).or
    ((file.leaf? leaf.path).or (Settings.defaultLayer.leaf? leaf.path))

end Leaf

namespace Setting

/-- Whether a layer is a table that has the settings of examples in a table, if at all. -/
def hasSections : Setting → Bool
  | .table entries => (entries.lookup "examples").all isTable
  | _ => false

/-- In a layer with sections, nothing but tables stands above a leaf. -/
theorem opens_of_hasSections {layer : Setting} (sections : layer.hasSections = true)
    (leaf : Leaf) : layer.opens leaf.path = true := by
  cases layer with
  | table entries =>
      cases leaf with
      | nest | inlineFieldLimit =>
          rw [Leaf.path, opens]
          cases entries.lookup _ <;> rfl
      | removeTypeField | typeField =>
          rw [hasSections] at sections
          rw [Leaf.path, opens]
          cases found : entries.lookup "examples" with
          | none => rfl
          | some below =>
              rw [found] at sections
              cases below with
              | table inner =>
                  show opens [_] (.table inner) = true
                  rw [opens]
                  cases inner.lookup _ <;> rfl
              | bool | unsigned | signed | float | text | list => cases sections
  | bool | unsigned | signed | float | text | list => cases sections

/-- What stands at a path of a sound value is sound. -/
theorem Sound.of_at? {path : List String} {setting value : Setting} (sound : setting.Sound)
    (found : setting.at? path = some value) : value.Sound := by
  induction path generalizing setting with
  | nil => exact Option.some.inj found ▸ sound
  | cons key path inductionHypothesis =>
      cases setting with
      | table entries =>
          obtain ⟨below, atKey, inside⟩ := Option.bind_eq_some_iff.mp found
          exact inductionHypothesis (sound.of_mem _ (Keyed.mem_of_lookup atKey)) inside
      | bool | unsigned | signed | float | text | list => cases found

end Setting

namespace Settings

/-- Where no two layers have a value, searching them finds the value of any of them. -/
theorem findSome?_of_apart {value? : Setting → Option Setting} {layers : List Setting}
    (apart : layers.Pairwise fun one other => value? one = none ∨ value? other = none)
    {layer : Setting} (member : layer ∈ layers) {value : Setting}
    (has : value? layer = some value) : layers.findSome? value? = some value := by
  induction layers with
  | nil => cases member
  | cons first rest inductionHypothesis =>
      obtain ⟨firstApart, restApart⟩ := List.pairwise_cons.mp apart
      rcases List.mem_cons.mp member with rfl | later
      · rw [List.findSome?_cons, has]
      · have absent : value? first = none :=
          (firstApart layer later).resolve_right (by simp [has])
        rw [List.findSome?_cons, absent]
        exact inductionHypothesis restApart later

/-! ## Reading -/

/-- Whether settings have a value at a leaf. -/
def Has (settings : Settings) : Leaf → Setting → Prop
  | .nest, .bool value => settings.nest = value
  | .inlineFieldLimit, .unsigned value => settings.inlineFieldLimit.toNat = value
  | .inlineFieldLimit, .signed value => (settings.inlineFieldLimit.toNat : Int) = value
  | .removeTypeField, .bool value => settings.examples.removeTypeField = value
  | .typeField, .text value => settings.examples.typeField = value
  | _, _ => False

section Has

variable {settings : Settings} {value : Setting}

/-- Nesting has one truth value. -/
theorem has_nest : settings.Has .nest value ↔ value = .bool settings.nest := by
  cases value <;> simp [Has, eq_comm]

/-- The limit has two spellings of one number. -/
theorem has_inlineFieldLimit : settings.Has .inlineFieldLimit value ↔
    value = .unsigned settings.inlineFieldLimit.toNat ∨
      value = .signed settings.inlineFieldLimit.toNat := by
  cases value <;> simp [Has, eq_comm]

/-- The removal of types has one truth value. -/
theorem has_removeTypeField : settings.Has .removeTypeField value ↔
    value = .bool settings.examples.removeTypeField := by
  cases value <;> simp [Has, eq_comm]

/-- The name of the type key is one text. -/
theorem has_typeField :
    settings.Has .typeField value ↔ value = .text settings.examples.typeField := by
  cases value <;> simp [Has, eq_comm]

end Has

/-- Reads settings from the values of the leaves. -/
def ofLeaves (values : Leaf → Setting) : Except SettingsError Settings := do
  let removeTypeField ← (values .removeTypeField).readBool Leaf.removeTypeField.path
  let typeField ← (values .typeField).readText Leaf.typeField.path
  let inlineFieldLimit ← (values .inlineFieldLimit).readSize Leaf.inlineFieldLimit.path
  let nest ← (values .nest).readBool Leaf.nest.path
  return { nest, inlineFieldLimit, examples := { removeTypeField, typeField } }

/-- What stands at a path of two keys stands in a table within a table. -/
theorem exists_tables {setting value : Setting} {key name : String}
    (found : setting.at? [key, name] = some value) :
    ∃ entries below, setting = .table entries ∧ entries.lookup key = some (.table below) ∧
      below.lookup name = some value := by
  cases setting with
  | table entries =>
      obtain ⟨inner, atKey, inside⟩ := Option.bind_eq_some_iff.mp found
      cases inner with
      | table below =>
          obtain ⟨last, atName, same⟩ := Option.bind_eq_some_iff.mp inside
          exact ⟨entries, below, rfl, atKey, atName.trans same⟩
      | bool | unsigned | signed | float | text | list => cases inside
  | bool | unsigned | signed | float | text | list => cases found

/-- Settings are read from the values that stand at the leaves. -/
theorem ofSetting_eq_ofLeaves {setting : Setting} {values : Leaf → Setting}
    (each : ∀ leaf : Leaf, setting.at? leaf.path = some (values leaf)) :
    ofSetting setting = ofLeaves values := by
  obtain ⟨entries, below, rfl, atExamples, atRemove⟩ := exists_tables (each .removeTypeField)
  have atType := each .typeField
  have atNest := each .nest
  have atLimit := each .inlineFieldLimit
  simp only [Leaf.path, Setting.at?, atExamples, Option.bind_some, Option.bind_fun_some]
    at atType atNest atLimit
  have options : ViewOptions.ofSetting ["examples"] (.table below) = (do
      let removeTypeField ← (values .removeTypeField).readBool Leaf.removeTypeField.path
      let typeField ← (values .typeField).readText Leaf.typeField.path
      return { removeTypeField, typeField }) := by
    rw [ViewOptions.ofSetting, Setting.slotValues]
    simp only [List.filterMap_cons, List.filterMap_nil, atRemove, atType, Option.map_some,
      ok_bind, List.foldlM_cons, List.foldlM_nil, ViewOptions.configure, bind_assoc, pure_bind]
    rfl
  rw [ofSetting, Setting.slotValues]
  simp only [List.filterMap_cons, List.filterMap_nil, atExamples, atLimit, atNest, Option.map_some,
    ok_bind, List.foldlM_cons, List.foldlM_nil, configure, bind_assoc, pure_bind, List.nil_append,
    options]
  rfl

/-- What is read as a truth value is one. -/
theorem eq_of_readBool {path : List String} {value : Setting} {result : Bool}
    (read : value.readBool path = .ok result) : value = .bool result := by
  cases value with
  | bool value => exact congrArg Setting.bool (Except.ok.inj read)
  | unsigned | signed | float | text | list | table => cases read

/-- What is read as a string is one. -/
theorem eq_of_readText {path : List String} {value : Setting} {result : String}
    (read : value.readText path = .ok result) : value = .text result := by
  cases value with
  | text value => exact congrArg Setting.text (Except.ok.inj read)
  | bool | unsigned | signed | float | list | table => cases read

/-- What is read as a size is a natural number, and if it is sound, the one that is read. -/
theorem eq_of_readSize {path : List String} {value : Setting} {result : UInt64}
    (read : value.readSize path = .ok result) :
    value.isTable = false ∧
      (value.Sound → value = .unsigned result.toNat ∨ value = .signed result.toNat) := by
  cases value with
  | unsigned value =>
      refine ⟨rfl, fun sound => .inl ?_⟩
      cases sound with
      | unsigned fits => rw [← Except.ok.inj read, UInt64.toNat_ofNat_of_lt' fits]
  | signed value =>
      refine ⟨rfl, fun sound => .inr ?_⟩
      cases value with
      | ofNat value =>
          cases sound with
          | signed fits =>
              have small : value < UInt64.size := by
                have wide : twoTo 63 < UInt64.size := by decide
                exact Nat.lt_trans (Int.ofNat_lt.mp fits) wide
              rw [← Except.ok.inj read, UInt64.toNat_ofNat_of_lt' small]
              rfl
      | negSucc value => cases read
  | bool | float | text | list | table => cases read

/-- Settings that are read from the values of the leaves have these values, and no value is a
table. -/
theorem has_of_ofLeaves {values : Leaf → Setting} {settings : Settings}
    (read : ofLeaves values = .ok settings) (leaf : Leaf) :
    (values leaf).isTable = false ∧
      ((values leaf).Sound → settings.Has leaf (values leaf)) := by
  rw [ofLeaves] at read
  obtain ⟨removeTypeField, readRemove, read⟩ := bind_eq_ok.mp read
  obtain ⟨typeField, readType, read⟩ := bind_eq_ok.mp read
  obtain ⟨inlineFieldLimit, readLimit, read⟩ := bind_eq_ok.mp read
  obtain ⟨nest, readNest, same⟩ := bind_eq_ok.mp read
  obtain rfl := Except.ok.inj same
  cases leaf with
  | nest =>
      have value := eq_of_readBool readNest
      exact ⟨value ▸ rfl, fun _ => has_nest.mpr value⟩
  | inlineFieldLimit =>
      obtain ⟨noTable, number⟩ := eq_of_readSize readLimit
      exact ⟨noTable, fun sound => has_inlineFieldLimit.mpr (number sound)⟩
  | removeTypeField =>
      have value := eq_of_readBool readRemove
      exact ⟨value ▸ rfl, fun _ => has_removeTypeField.mpr value⟩
  | typeField =>
      have value := eq_of_readText readType
      exact ⟨value ▸ rfl, fun _ => has_typeField.mpr value⟩

/-- Settings are read from the values that they have. -/
theorem ofLeaves_of_has {values : Leaf → Setting} {settings : Settings}
    (has : ∀ leaf, settings.Has leaf (values leaf)) : ofLeaves values = .ok settings := by
  have limit : (values .inlineFieldLimit).readSize Leaf.inlineFieldLimit.path =
      .ok settings.inlineFieldLimit := by
    rcases has_inlineFieldLimit.mp (has .inlineFieldLimit) with natural | integer
    · rw [natural]
      exact congrArg Except.ok UInt64.ofNat_toNat
    · rw [integer]
      exact congrArg Except.ok UInt64.ofNat_toNat
  rw [ofLeaves, has_removeTypeField.mp (has .removeTypeField), has_typeField.mp (has .typeField),
    has_nest.mp (has .nest), limit]
  rfl

/-! ## Gathering -/

/-- The layer of a file is sound. -/
theorem sound_of_fileLayer {file? : Option String} {file : Setting}
    (read : fileLayer file? = .ok file) : file.Sound := by
  cases file? with
  | none =>
      obtain rfl := Except.ok.inj read
      exact .empty
  | some text =>
      rw [fileLayer] at read
      split at read
      · next found =>
          obtain rfl := Except.ok.inj read
          exact Toml.sound_of_read? found
      · cases read

/-- The defaults are sound. -/
theorem sound_defaultLayer : defaultLayer.Sound := by
  refine .table (by decide) (List.forall_mem_cons.mpr ⟨.bool, List.forall_mem_cons.mpr
    ⟨.unsigned (by decide), List.forall_mem_singleton.mpr (.table (by decide) ?_)⟩⟩)
  exact List.forall_mem_cons.mpr ⟨.bool, List.forall_mem_singleton.mpr .text⟩

/-- The layers merged: the file over the defaults, and the environment over both. -/
def merged (file : Setting) (environment : List (String × String)) : Setting :=
  (defaultLayer.overlaid file).overlaid (Variable.layer environment)

section Merged

variable {file : Setting} {environment : List (String × String)} (sound : file.Sound)
  (sections : ∀ layer ∈ file :: Variable.layers environment, layer.hasSections = true)

include sound sections

/-- What the merged layers hold at a leaf depends on what each of them holds there. -/
theorem at?_merged (leaf : Leaf) :
    (merged file environment).at? leaf.path =
      over? (over? (defaultLayer.at? leaf.path) (file.at? leaf.path))
        (((Variable.layers environment).map (Setting.at? leaf.path)).foldl over? none) := by
  obtain ⟨fileSections, variableSections⟩ := List.forall_mem_cons.mp sections
  have opens {layer : Setting} (has : layer.hasSections = true) :
      layer.opens leaf.path = true := Setting.opens_of_hasSections has leaf
  have nothing : (Setting.table []).at? leaf.path = none := by cases leaf <;> rfl
  obtain ⟨baseOpens, base⟩ := Setting.overlaid_along sound
    (opens (rfl : defaultLayer.hasSections = true)) (opens fileSections)
  obtain ⟨laidSound, laidOpens, laid⟩ := Setting.foldl_overlaid_along
    (fun layer member => ⟨Variable.sound_of_mem_layers layer member,
      opens (variableSections layer member)⟩)
    .empty (opens (rfl : (Setting.table []).hasSections = true))
  rw [merged, Variable.layer_eq, (Setting.overlaid_along laidSound baseOpens laidOpens).2, base,
    laid, nothing]

/-- The merged layers hold something at each leaf, as the defaults do. -/
theorem exists_values : ∃ values : Leaf → Setting,
    ∀ leaf : Leaf, (merged file environment).at? leaf.path = some (values leaf) := by
  refine Classical.skolem.mp fun leaf => Option.ne_none_iff_exists'.mp fun absent => ?_
  rw [at?_merged sound sections, Setting.over?_eq_none, Setting.over?_eq_none] at absent
  cases leaf <;> cases absent.1.1

/-- A value of the merged layers that is no table is given by the layers, and sound. -/
theorem given?_of_merged {leaf : Leaf}
    (apart : (Variable.layers environment).Pairwise fun one other =>
      one.leaf? leaf.path = none ∨ other.leaf? leaf.path = none)
    {value : Setting} (found : (merged file environment).at? leaf.path = some value)
    (noTable : value.isTable = false) :
    leaf.given? file (Variable.layers environment) = some value ∧ value.Sound := by
  have leaf_of_at? {layer : Setting} (holds : layer.at? leaf.path = some value) :
      layer.leaf? leaf.path = some value := by
    simp [Setting.leaf?, holds, noTable]
  rw [at?_merged sound sections] at found
  rw [Leaf.given?]
  rcases Setting.of_over?_eq_leaf found noTable with laid | ⟨noVariable, base⟩
  · -- Variables are laid over nothing first, so that one of them has put the value there.
    rcases Setting.of_foldl_over?_eq_leaf laid noTable with given | ⟨-, ⟨⟩⟩
    obtain ⟨layer, member, holds⟩ := List.mem_map.mp given
    rw [findSome?_of_apart apart member (leaf_of_at? holds)]
    exact ⟨rfl, (Variable.sound_of_mem_layers layer member).of_at? holds⟩
  · have absent : (Variable.layers environment).findSome? (Setting.leaf? leaf.path) = none := by
      refine List.findSome?_eq_none_iff.mpr fun layer member => ?_
      have holds := (Setting.foldl_over?_eq_none.mp noVariable).2 _
        (List.mem_map_of_mem member)
      rw [Setting.leaf?, holds, Option.filter_none]
    rw [absent, Option.none_or]
    rcases Setting.of_over?_eq_leaf base noTable with holds | ⟨noFile, default⟩
    · rw [leaf_of_at? holds]
      exact ⟨rfl, sound.of_at? holds⟩
    · rw [Setting.leaf?, noFile, Option.filter_none, Option.none_or]
      exact ⟨leaf_of_at? default, sound_defaultLayer.of_at? default⟩

/-- Where no layer holds a table at a leaf, neither do the merged layers. -/
theorem holdsNoTable_merged {leaf : Leaf}
    (each : ∀ layer ∈ file :: Variable.layers environment,
      Setting.HoldsNoTable (layer.at? leaf.path)) :
    Setting.HoldsNoTable ((merged file environment).at? leaf.path) := by
  obtain ⟨fileHolds, variablesHold⟩ := List.forall_mem_cons.mp each
  have defaults : Setting.HoldsNoTable (defaultLayer.at? leaf.path) := by
    cases leaf <;> rintro _ ⟨⟩ <;> rfl
  rw [at?_merged sound sections]
  refine (defaults.over? fileHolds).over? (Setting.HoldsNoTable.foldl_over? nofun ?_)
  exact List.forall_mem_map.mpr variablesHold

end Merged

/-- Gathering reads the merged layers. -/
theorem gather_eq {file? : Option String} {file : Setting} (read : fileLayer file? = .ok file)
    (environment : List (String × String)) :
    gather file? environment = ofSetting (merged file environment) := by
  rw [gather, read, ok_bind, merged]

/-- Layers that hold the same at the leaves give the same settings, or fail alike. -/
theorem gather_eq_of_agree {file? otherFile? : Option String} {file otherFile : Setting}
    {environment otherEnvironment : List (String × String)} (read : fileLayer file? = .ok file)
    (otherRead : fileLayer otherFile? = .ok otherFile)
    (sections : ∀ layer ∈ file :: Variable.layers environment, layer.hasSections = true)
    (otherSections :
      ∀ layer ∈ otherFile :: Variable.layers otherEnvironment, layer.hasSections = true)
    (agree : ∀ leaf : Leaf, otherFile.at? leaf.path = file.at? leaf.path ∧
      (Variable.layers otherEnvironment).filterMap (Setting.at? leaf.path) =
        (Variable.layers environment).filterMap (Setting.at? leaf.path)) :
    gather otherFile? otherEnvironment = gather file? environment := by
  have sound := sound_of_fileLayer read
  obtain ⟨values, here⟩ := exists_values sound sections
  -- What is held at the leaves is all that both merged layers need to have in common.
  have there (leaf : Leaf) :
      (merged otherFile otherEnvironment).at? leaf.path = some (values leaf) := by
    rw [← here leaf, at?_merged sound sections, at?_merged (sound_of_fileLayer otherRead)
      otherSections, Setting.foldl_over?_map, Setting.foldl_over?_map, (agree leaf).1,
      (agree leaf).2]
  rw [gather_eq read, gather_eq otherRead, ofSetting_eq_ofLeaves here, ofSetting_eq_ofLeaves there]

/-- Where layers give the settings of examples in tables only and no two variables give one
leaf, gathered settings have at each leaf the value of the variable that gives it, else that of
the file, else the default. Where no layer holds a table at a leaf, settings that have these
values are what gathering returns. Nothing but the leaves counts, in the file or in variables;
variables of other applications do not count at all, and a missing file is no layer. -/
theorem gather_by_leaves {file? : Option String} {file : Setting}
    {environment : List (String × String)} (read : fileLayer file? = .ok file)
    (sections : ∀ layer ∈ file :: Variable.layers environment, layer.hasSections = true)
    (apart : ∀ leaf : Leaf, (Variable.layers environment).Pairwise fun one other =>
      one.leaf? leaf.path = none ∨ other.leaf? leaf.path = none) :
    (∀ settings, gather file? environment = .ok settings → ∀ leaf : Leaf, ∃ value,
        leaf.given? file (Variable.layers environment) = some value ∧ settings.Has leaf value) ∧
      ((∀ leaf : Leaf, ∀ layer ∈ file :: Variable.layers environment,
          Setting.HoldsNoTable (layer.at? leaf.path)) →
        ∀ settings, (∀ leaf : Leaf, ∃ value,
            leaf.given? file (Variable.layers environment) = some value ∧
              settings.Has leaf value) →
          gather file? environment = .ok settings) ∧
      (∀ otherFile? otherFile otherEnvironment, fileLayer otherFile? = .ok otherFile →
        (∀ layer ∈ otherFile :: Variable.layers otherEnvironment, layer.hasSections = true) →
        (∀ leaf : Leaf, otherFile.at? leaf.path = file.at? leaf.path ∧
          (Variable.layers otherEnvironment).filterMap (Setting.at? leaf.path) =
            (Variable.layers environment).filterMap (Setting.at? leaf.path)) →
        gather otherFile? otherEnvironment = gather file? environment) ∧
      gather file? (environment.filter fun entry => Variable.belongs entry.1) =
        gather file? environment ∧
      gather none environment = load environment := by
  have sound := sound_of_fileLayer read
  obtain ⟨values, each⟩ := exists_values sound sections
  refine ⟨fun settings gathered leaf => ?_, fun noTables settings has => ?_,
    fun _ _ _ otherRead otherSections agree => ?_, ?_, rfl⟩
  · rw [gather_eq read, ofSetting_eq_ofLeaves each] at gathered
    obtain ⟨noTable, has⟩ := has_of_ofLeaves gathered leaf
    obtain ⟨given, valueSound⟩ :=
      given?_of_merged sound sections (apart leaf) (each leaf) noTable
    exact ⟨values leaf, given, has valueSound⟩
  · rw [gather_eq read, ofSetting_eq_ofLeaves each]
    refine ofLeaves_of_has fun leaf => ?_
    have noTable := holdsNoTable_merged sound sections (noTables leaf) (values leaf) (each leaf)
    have given := (given?_of_merged sound sections (apart leaf) (each leaf) noTable).1
    obtain ⟨value, same, hasValue⟩ := has leaf
    obtain rfl := Option.some.inj (same.symm.trans given)
    exact hasValue
  · exact gather_eq_of_agree read otherRead sections otherSections agree
  · rw [gather_eq read, gather_eq read, merged, merged, Variable.layer_eq, Variable.layer_eq,
      Variable.layers_filter_belongs]

/-- A file that sets three leaves and a key that is none. -/
def bookFile : String :=
  "inline_field_limit = 10\nnest = false\ncolor = \"red\"\n\n" ++
    "[examples]\nremove_type_field = false\n"

/-- Variables that set two leaves, one of them also set by the file. -/
def bookVariables : List (String × String) :=
  [("HOME", "/root"), ("COMPONENT_DOCS_INLINE_FIELD_LIMIT", "2"),
    ("component_docs_examples__type_field", "kind")]

/-- The settings from the file and the variables. -/
def bookSettings : Settings where
  nest := false
  inlineFieldLimit := 2
  examples := { removeTypeField := false, typeField := "kind" }

/-- Each leaf is set on its own, and a variable for a key that is no leaf changes nothing. -/
theorem gather_by_leaves_book :
    ∃ file, fileLayer (some bookFile) = .ok file ∧
      gather (some bookFile) bookVariables = .ok bookSettings ∧
      (∀ leaf : Leaf, ∃ value,
        leaf.given? file (Variable.layers bookVariables) = some value ∧
          bookSettings.Has leaf value) ∧
      gather (some bookFile) (("COMPONENT_DOCS_COLOR", "red") :: bookVariables) =
        gather (some bookFile) bookVariables := by
  have parsed : (fileLayer (some bookFile)).toOption.any Setting.hasSections = true := by
    decide +kernel
  obtain ⟨file, found, fileSections⟩ := (Option.any_eq_true _ _).mp parsed
  have read := toOption_eq_some.mp found
  have gathered : gather (some bookFile) bookVariables = .ok bookSettings :=
    toOption_eq_some.mp (by decide +kernel)
  have layers : Variable.layers bookVariables =
      [.table [("inline_field_limit", .unsigned 2)],
        .table [("examples", .table [("type_field", .text "kind")])]] := rfl
  have more : Variable.layers (("COMPONENT_DOCS_COLOR", "red") :: bookVariables) =
      .table [("color", .text "red")] :: Variable.layers bookVariables := rfl
  have variableSections : ∀ layer ∈ Variable.layers bookVariables, layer.hasSections = true := by
    rw [layers]
    exact List.forall_mem_cons.mpr ⟨rfl, List.forall_mem_singleton.mpr rfl⟩
  have apart (leaf : Leaf) : (Variable.layers bookVariables).Pairwise fun one other =>
      one.leaf? leaf.path = none ∨ other.leaf? leaf.path = none := by
    rw [layers, List.pairwise_pair]
    cases leaf with
    | inlineFieldLimit => exact .inr rfl
    | nest | removeTypeField | typeField => exact .inl rfl
  obtain ⟨leaves, -, agree, -⟩ :=
    gather_by_leaves read (List.forall_mem_cons.mpr ⟨fileSections, variableSections⟩) apart
  refine ⟨file, read, gathered, leaves _ gathered, agree _ _ _ read ?_ fun leaf => ⟨rfl, ?_⟩⟩
  · rw [more]
    exact List.forall_mem_cons.mpr
      ⟨fileSections, List.forall_mem_cons.mpr ⟨rfl, variableSections⟩⟩
  · rw [more, List.filterMap_cons]
    cases leaf <;> rfl

end Settings

end FieldGuide
