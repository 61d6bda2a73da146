import FieldGuide.Proofs.Component.Document
import FieldGuide.Proofs.Except
import FieldGuide.Proofs.Field.Canonical
import FieldGuide.Proofs.Json.Text

/-!
# Components that are loaded and saved

A document may spell a component in many ways: with its slots in any order, as an object or as a
list, with names that are unknown or choices that are objects. A component that is loaded from
any of them and saved is loaded again as the same component, so it is saved as the same document.
-/

namespace FieldGuide

open Json (Condenses EachCovered ListCovered)

/-- A showcase is written as it was read. -/
theorem Showcase.condenses_ofJson : Condenses ofJson toJson := by
  intro document shown read
  have filled := Json.Record.parts_ne_nil_of_decode (List.mem_singleton_self "title") read
  have text (text : String) := Json.exists_covers filled fun part => part.covers_string text
  have distinct : ["title", "summary", "config"].Nodup := by decide
  exact EachCovered.object filled distinct
    (.cons (text _) (.cons (text _) (.cons (text _) .nil)))

namespace Component

/-- Whether the lists of a component are covered by some of the given documents. -/
structure ListsCovered (parts : List Json) (component : Component) : Prop where
  categories : ListCovered parts (component.categories.map .string)
  showcases : ListCovered parts (component.showcases.map Showcase.toJson)

/-- Whether the configuration of a component is read from one of the given documents. -/
def ConfigRead (parts : List Json) (component : Component) : Prop :=
  ∃ part ∈ parts, Field.ofJson part = .ok component.config

variable {component next : Component} {parts : List Json} {slot : String} {part : Json}

/-- Assigning a document to a slot keeps the lists covered by documents that include it. -/
theorem ListsCovered.assign (covered : component.ListsCovered parts) (present : part ∈ parts)
    (assigned : component.assign slot part = .ok next) : next.ListsCovered parts := by
  unfold Component.assign at assigned
  split at assigned
  case h_6 => -- the categories
    obtain ⟨values, read, rfl⟩ := bind_pure_eq_ok.mp assigned
    have covers := Json.condenses_decodeString.decodeList part values read
    exact { covered with categories := covers.list present }
  case h_8 => -- the showcases
    obtain ⟨values, read, rfl⟩ := bind_pure_eq_ok.mp assigned
    have covers := Showcase.condenses_ofJson.decodeList part values read
    exact { covered with showcases := covers.list present }
  case h_11 => -- a name that is no slot
    obtain rfl := Except.ok.inj assigned
    exact covered
  all_goals
    obtain ⟨value, -, rfl⟩ := bind_pure_eq_ok.mp assigned
    exact { covered with }

/-- Assigning a document to a slot keeps the configuration read from documents that include
it. -/
theorem ConfigRead.assign (read : component.ConfigRead parts) (present : part ∈ parts)
    (assigned : component.assign slot part = .ok next) : next.ConfigRead parts := by
  unfold Component.assign at assigned
  split at assigned
  case h_10 => -- the configuration
    obtain ⟨config, decoded, rfl⟩ := bind_pure_eq_ok.mp assigned
    exact ⟨part, present, decoded⟩
  case h_11 => -- a name that is no slot
    obtain rfl := Except.ok.inj assigned
    exact read
  all_goals
    obtain ⟨value, -, rfl⟩ := bind_pure_eq_ok.mp assigned
    exact read

/-- Lists that are empty are covered by any documents. -/
theorem listsCovered_blank : record.blank.ListsCovered parts :=
  ⟨Json.listCovered_nil parts, Json.listCovered_nil parts⟩

/-- Assigning a document to the slot of the configuration reads the configuration from it. -/
theorem configRead_of_assign (present : part ∈ parts)
    (assigned : component.assign "config" part = .ok next) : next.ConfigRead parts := by
  obtain ⟨config, decoded, rfl⟩ := bind_pure_eq_ok.mp assigned
  exact ⟨part, present, decoded⟩

/-- A component that is read has its lists covered by the parts of the document and its
configuration read from one of them. -/
theorem listsCovered_and_configRead {document : Json} (read : ofJson document = .ok component) :
    component.ListsCovered document.parts ∧ component.ConfigRead document.parts := by
  have configRequired : "config" ∈ record.required := by decide
  refine ⟨Json.Record.decode_preserves ?_ listsCovered_blank read,
    Json.Record.decode_establishes configRequired ?_ ?_ read⟩
  · intro value slot part next present held assigned
    exact held.assign present assigned
  · intro value part next present assigned
    exact configRead_of_assign present assigned
  · intro value slot part next present held assigned
    exact held.assign present assigned

/-- The keys of a component's document are slots, in the order of the slots. -/
theorem keys_toJson (component : Component) : component.toJson.keys.Sublist record.slots := by
  have texts : ["name", "type", "status", "summary", "description"].Sublist
      ["name", "type", "status", "summary", "description"] := List.Sublist.refl _
  have optional := (((texts.append
    (Json.keys_listMember "categories" (component.categories.map .string))).append
    (List.Sublist.refl ["footnotes"])).append
    (Json.keys_listMember "examples" (component.showcases.map Showcase.toJson))).append
    (List.Sublist.refl ["version", "config"])
  simpa [toJson, Json.keys, record] using optional

/-- A component is written as it was read. -/
theorem condenses_ofJson : Condenses ofJson toJson := by
  intro document component read
  obtain ⟨lists, config, configPresent, decoded⟩ := listsCovered_and_configRead read
  have filled := List.ne_nil_of_mem configPresent
  have text (text : String) := Json.exists_covers filled fun part => part.covers_string text
  have configCovered : ∃ part ∈ document.parts, part.Covers component.config.toJson :=
    ⟨config, configPresent, Field.isCanonical_ofJson.condenses config component.config decoded⟩
  have texts : EachCovered document.parts
      [("name", .string component.name), ("type", .string component.role.name),
        ("status", .string component.status.name), ("summary", .string component.summary),
        ("description", .string component.description)] :=
    .cons (text _) (.cons (text _) (.cons (text _) (.cons (text _) (.cons (text _) .nil))))
  have footnotes : EachCovered document.parts [("footnotes", .string component.footnotes)] :=
    .cons (text _) .nil
  have ending : EachCovered document.parts
      [("version", .string component.version), ("config", component.config.toJson)] :=
    .cons (text _) (.cons configCovered .nil)
  have distinct := component.keys_toJson.nodup (by decide)
  exact EachCovered.object filled distinct
    ((((texts.append (.listMember lists.categories)).append footnotes).append
      (.listMember lists.showcases)).append ending)

/-- A component that is read is read back as it is from its own document. -/
theorem ofJson_toJson_of_read {document : Json} (read : ofJson document = .ok component) :
    ofJson component.toJson = .ok component := by
  obtain ⟨-, config, -, decoded⟩ := listsCovered_and_configRead read
  have sameConfig : component.config.readBack = component.config :=
    (Field.readBack_eq_iff _).mpr
      (Field.isCanonical_ofJson.noNullDefault config component.config decoded)
  rw [ofJson_toJson, sameConfig]

/-- A component that is read from a readable document is loaded from the text it is saved as. -/
theorem load?_save {document : Json} (read : ofJson document = .ok component)
    (readable : document.IsReadable 0) : load? component.save = some component := by
  have covers := condenses_ofJson document component read
  rw [load?, save, Json.read?_compact_iff.mpr (covers.isReadable readable), Option.bind_some,
    ofJson_toJson_of_read read]
  rfl

/-- A component that is loaded from any text is loaded as it is from the text it is saved as. -/
theorem load?_save_of_load? {text : String} (loaded : load? text = some component) :
    load? component.save = some component := by
  obtain ⟨document, read, decoded⟩ := Option.bind_eq_some_iff.mp loaded
  exact load?_save (toOption_eq_some.mp decoded) (Json.isReadable_of_read? read)

/-- A component that is read from any document is read back as it is from its own document, which
the first document covers. If the first one can be read from text, the text the component is saved
as is loaded as the component and saved as the same text. -/
theorem ofJson_toJson_of_ofJson {document : Json} (read : ofJson document = .ok component) :
    ofJson component.toJson = .ok component ∧ document.Covers component.toJson ∧
      (document.IsReadable 0 → load? component.save = some component ∧
        resave? component.save = some component.save) := by
  refine ⟨ofJson_toJson_of_read read, condenses_ofJson document component read, fun readable => ?_⟩
  have loaded := load?_save read readable
  exact ⟨loaded, by rw [resave?, loaded, Option.map_some]⟩

/-- A component as a list of its slots, with a role as an object, a showcase and a child as lists, a
default of null and a name that is unknown. -/
def listed : Json :=
  .array [.string "c", .object [("cache", .null)], .string "beta", .string "", .string "",
    .array [], .string "", .array [.array [.string "t"]], .string "",
    .object [("extra", .bool true), ("kind", .object [("map", .null)]), ("default", .null),
      ("children", .array [.array [.string "a", .string "", .string "int", .string "scalar",
        .bool false, .bool false, .bool false, .number (.float (.zero true))]]),
      ("name", .string "root")]]

/-- The component that the list describes. -/
def listedComponent : Component where
  name := "c"
  role := .cache
  status := .beta
  showcases := [{ title := "t" }]
  config :=
    { name := "root"
      kind := .map
      children :=
        [{ name := "a", valueType := .int, defaultValue := some (.number (.float (.zero true))) }] }

/-- The component is loaded from the list, and from then on from the text it is saved as. -/
theorem ofJson_toJson_of_ofJson_listed :
    ofJson listed = .ok listedComponent ∧ ofJson listedComponent.toJson = .ok listedComponent ∧
      load? listedComponent.save = some listedComponent ∧
      resave? listedComponent.save = some listedComponent.save := by
  have read : ofJson listed = .ok listedComponent := rfl
  have readable : listed.IsReadable 0 := ⟨by decide, by decide, by decide⟩
  obtain ⟨again, -, loaded⟩ := ofJson_toJson_of_ofJson read
  exact ⟨read, again, loaded readable⟩

end Component

end FieldGuide
