import FieldGuide.Event
import FieldGuide.Settings.Basic
import FieldGuide.Settings.Variable
import FieldGuide.Toml.Reader

/-!
# Layers of settings

This module gathers settings from a file and the environment over the defaults. A
later layer replaces single values and is merged into tables; the merged table is
then read, its keys in alphabetical order.
-/

namespace FieldGuide

/-- The reasons why settings cannot be gathered. -/
inductive SettingsError
  | malformedFile
  | wrongType (path : List String) (found : Setting) (expected : String)
  | wrongValue (path : List String) (found : Setting) (expected : String)
  deriving Repr

namespace SettingsError

/-- The keys that lead to the value that is wrong. -/
def path : SettingsError → List String
  | .malformedFile => []
  | .wrongType path _ _ | .wrongValue path _ _ => path

/-- What is wrong with a value, if the error is about one. -/
def detail? : SettingsError → Option String
  | .malformedFile => none
  | .wrongType _ found expected =>
      some ("invalid type: found " ++ .ofList found.describe ++ ", expected " ++ expected)
  | .wrongValue _ found expected =>
      some ("invalid value " ++ .ofList found.describe ++ ", expected " ++ expected)

/-- The wording of a failure to gather settings, given its cause. -/
def message (cause : String) : String := "failed to load render configuration: " ++ cause

/-- The wording of a failure inside an isolated environment, given its cause. -/
def isolatedMessage (cause : String) : String := "jailed test failed: " ++ cause

end SettingsError

namespace Setting

/-- Reads a truth value. -/
def readBool (path : List String) : Setting → Except SettingsError Bool
  | .bool value => .ok value
  | other => .error (.wrongType path other "a boolean")

/-- Reads a string. -/
def readText (path : List String) : Setting → Except SettingsError String
  | .text value => .ok value
  | other => .error (.wrongType path other "a string")

/-- Reads a natural number of at most 64 bits. -/
def readSize (path : List String) : Setting → Except SettingsError UInt64
  | .unsigned value => .ok (.ofNat value)
  | .signed (.ofNat value) => .ok (.ofNat value)
  | .signed (.negSucc value) => .error (.wrongValue path (.signed (.negSucc value)) "usize")
  | other => .error (.wrongType path other "usize")

/-- The values of a record's slots with the paths to them, in the order in which
they are read: by name from a table, by position from a list. Keys that name no slot
and items to spare are ignored. -/
def slotValues (path : List String) (title : String) (byPosition byName : List String) :
    Setting → Except SettingsError (List (String × List String × Setting))
  | .table entries =>
      .ok (byName.filterMap fun slot =>
        (entries.lookup slot).map fun value => (slot, path ++ [slot], value))
  | .list items =>
      .ok ((byPosition.zip items.zipIdx).map fun (slot, value, index) =>
        (slot, path ++ [.ofList (naturalDigits index)], value))
  | other => .error (.wrongType path other ("struct " ++ title))

end Setting

namespace ViewOptions

/-- Puts the value of one slot into view options. -/
def configure (options : ViewOptions) (slot : String) (path : List String)
    (value : Setting) : Except SettingsError ViewOptions :=
  match slot with
  | "remove_type_field" => return { options with removeTypeField := ← value.readBool path }
  | "type_field" => return { options with typeField := ← value.readText path }
  | _ => return options

/-- Reads view options. -/
def ofSetting (path : List String) (setting : Setting) : Except SettingsError ViewOptions := do
  let slots := ["remove_type_field", "type_field"]
  let values ← setting.slotValues path "ExampleOptions" slots slots
  values.foldlM (fun options (slot, path, value) => options.configure slot path value) {}

end ViewOptions

namespace Settings

/-- Puts the value of one slot into settings. -/
def configure (settings : Settings) (slot : String) (path : List String) (value : Setting) :
    Except SettingsError Settings :=
  match slot with
  | "nest" => return { settings with nest := ← value.readBool path }
  | "inline_field_limit" =>
      return { settings with inlineFieldLimit := ← value.readSize path }
  | "examples" => return { settings with examples := ← ViewOptions.ofSetting path value }
  | _ => return settings

/-- Reads settings. -/
def ofSetting (setting : Setting) : Except SettingsError Settings := do
  let values ← setting.slotValues [] "RenderConfig" ["nest", "inline_field_limit", "examples"]
    ["examples", "inline_field_limit", "nest"]
  values.foldlM (fun settings (slot, path, value) => settings.configure slot path value) {}

/-- The defaults as the lowest layer. -/
def defaultLayer : Setting :=
  let defaults : Settings := {}
  .table [("nest", .bool defaults.nest),
    ("inline_field_limit", .unsigned defaults.inlineFieldLimit.toNat),
    ("examples", .table [
      ("remove_type_field", .bool defaults.examples.removeTypeField),
      ("type_field", .text defaults.examples.typeField)])]

/-- The layer of a file, given its text. A missing file gives an empty layer. -/
def fileLayer (file? : Option String) : Except SettingsError Setting :=
  match file? with
  | none => .ok (.table [])
  | some text =>
      match Toml.read? text with
      | some entries => .ok (.table entries)
      | none => .error .malformedFile

/-- Loads settings from the environment over the defaults. -/
def load (environment : List (String × String)) : Except SettingsError Settings :=
  ofSetting (defaultLayer.overlaid (Variable.layer environment))

/-- Gathers settings from the text of a file, if there is one, and the environment
over the defaults. -/
def gather (file? : Option String) (environment : List (String × String)) :
    Except SettingsError Settings := do
  let file ← fileLayer file?
  ofSetting ((defaultLayer.overlaid file).overlaid (Variable.layer environment))

/-- The events of gathering settings: a file that is named is told of, whether it
exists or not. -/
def gatherEvents (path? : Option String) : List Event :=
  path?.toList.map .loadedSettings

end Settings

end FieldGuide
