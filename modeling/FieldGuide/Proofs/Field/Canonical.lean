import FieldGuide.Proofs.Field.Document
import FieldGuide.Proofs.Json.Covers

/-!
# Fields as they are read

A field that is read from any document says nothing that its own document would lose: it has no
default of null, because null is read as no default, whatever spelling the document chose for the
rest. Its own document is covered by the one it was read from.
-/

namespace FieldGuide

namespace Field

open Json (Condenses EachCovered ListCovered)

/-- Whether a reader of fields reads only fields that are read back as they are, from documents
that cover those of the fields. -/
structure IsCanonical (decode : Json → Decoded Field) : Prop where
  condenses : Condenses decode toJson
  noNullDefault : ∀ document field, decode document = .ok field → field.hasNoNullDefault = true

/-- Whether what a field says is drawn from some documents: its default is one of them other than
null, its lists are covered by some of them, and its children are read back as they are. -/
structure DrawnFrom (parts : List Json) (field : Field) : Prop where
  defaultValue : ∀ value ∈ field.defaultValue, value ∈ parts ∧ value ≠ .null
  examples : ListCovered parts field.examples
  options : ListCovered parts (field.options.map .string)
  annotatedOptions : ListCovered parts (field.annotatedOptions.map
    fun pair => .array [.string pair.1, .string pair.2])
  children : ListCovered parts (field.children.map toJson)
  noNullDefault : ∀ child ∈ field.children, child.hasNoNullDefault = true

section

variable {decodeChild : Json → Decoded Field} {parts : List Json} {field next : Field}

/-- A field that says nothing is drawn from any documents. -/
theorem drawnFrom_blank : (record decodeChild).blank.DrawnFrom parts := by
  have empty := Json.listCovered_nil parts
  exact ⟨nofun, empty, empty, empty, empty, nofun⟩

/-- What is read for an optional document is the document, which is not null. -/
theorem eq_of_mem_decodeOptional {document value : Json}
    (member : value ∈ document.decodeOptional) : value = document ∧ value ≠ .null := by
  cases document with
  | null => cases member
  | bool | number | string | array | object =>
      obtain rfl := Option.some.inj member
      exact ⟨rfl, nofun⟩

/-- Assigning a document to a slot keeps a field drawn from documents that include it. -/
theorem DrawnFrom.assign (canonical : IsCanonical decodeChild) (drawn : field.DrawnFrom parts)
    {slot : String} {part : Json} (present : part ∈ parts)
    (assigned : field.assign decodeChild slot part = .ok next) : next.DrawnFrom parts := by
  -- The slots that are not lists or the default change nothing that is drawn from documents.
  unfold Field.assign at assigned
  split at assigned
  case h_8 => -- the default
    obtain rfl := Except.ok.inj assigned
    refine { drawn with defaultValue := fun value member => ?_ }
    obtain ⟨rfl, notNull⟩ := eq_of_mem_decodeOptional member
    exact ⟨present, notNull⟩
  case h_9 => -- the examples
    obtain ⟨values, read, rfl⟩ := bind_pure_eq_ok.mp assigned
    have covers : part.Covers (.array values) := by
      simpa using Json.condenses_documents.decodeList part values read
    exact { drawn with examples := covers.list present }
  case h_10 => -- the options
    obtain ⟨values, read, rfl⟩ := bind_pure_eq_ok.mp assigned
    have covers := Json.condenses_decodeString.decodeList part values read
    exact { drawn with options := covers.list present }
  case h_11 => -- the annotated options
    obtain ⟨values, read, rfl⟩ := bind_pure_eq_ok.mp assigned
    have covers := Json.condenses_decodeStringPair.decodeList part values read
    exact { drawn with annotatedOptions := covers.list present }
  case h_13 => -- the children
    obtain ⟨values, read, rfl⟩ := bind_pure_eq_ok.mp assigned
    have covers := canonical.condenses.decodeList part values read
    refine { drawn with children := covers.list present, noNullDefault := ?_ }
    intro child member
    obtain ⟨item, -, decoded⟩ := Json.exists_part_of_decodeList read member
    exact canonical.noNullDefault item child decoded
  case h_14 => -- a name that is no slot
    obtain rfl := Except.ok.inj assigned
    exact drawn
  all_goals
    obtain ⟨value, -, rfl⟩ := bind_pure_eq_ok.mp assigned
    exact { drawn with }

/-- A field that is drawn from documents has no default of null. -/
theorem DrawnFrom.hasNoNullDefault (drawn : field.DrawnFrom parts) :
    field.hasNoNullDefault = true := by
  obtain ⟨info, children⟩ := field
  rw [Field.hasNoNullDefault, noneHasNullDefault_eq_all, Bool.and_eq_true, decide_eq_true_iff,
    List.all_eq_true]
  exact ⟨fun null => (drawn.defaultValue .null null).2 rfl, drawn.noNullDefault⟩

/-- The keys of a field's document are slots, in the order of the slots. -/
theorem keys_toJson (field : Field) : field.toJson.keys.Sublist slots := by
  obtain ⟨info, children⟩ := field
  have optional := ((((Json.keys_optionMember "default" info.defaultValue).append
    (Json.keys_listMember "examples" info.examples)).append
    (Json.keys_listMember "options" (info.options.map .string))).append
    (Json.keys_listMember "annotated_options" (info.annotatedOptions.map
      fun pair => .array [.string pair.1, .string pair.2]))).append
    ((Json.keys_textMember "version" info.version).append
      (Json.keys_listMember "children" (toJsonList children)))
  simpa [toJson, Json.keys, FieldInfo.members, slots] using optional

/-- A field that is drawn from the parts of a document is covered by the document. -/
theorem DrawnFrom.covers {document : Json} (filled : document.parts ≠ [])
    (drawn : field.DrawnFrom document.parts) : document.Covers field.toJson := by
  obtain ⟨info, children⟩ := field
  have text (text : String) := Json.exists_covers filled fun part => part.covers_string text
  have flag (value : Bool) := Json.exists_covers filled fun part => part.covers_bool value
  have always : EachCovered document.parts
      [("name", .string info.name), ("description", .string info.description),
        ("type", .string info.valueType.name), ("kind", .string info.kind.name),
        ("is_advanced", .bool info.isAdvanced), ("is_deprecated", .bool info.isDeprecated),
        ("is_secret", .bool info.isSecret)] :=
    .cons (text _) (.cons (text _) (.cons (text _) (.cons (text _) (.cons (flag _) (.cons (flag _)
      (.cons (flag _) .nil))))))
  have defaults : EachCovered document.parts
      (info.defaultValue.toList.map fun value => ("default", value)) :=
    .optionMember fun value member => (drawn.defaultValue value member).1
  have below : EachCovered document.parts
      (Json.listMember "children" (toJsonList children)) := by
    rw [toJsonList_eq_map]
    exact .listMember drawn.children
  have distinct : (Field.toJson ⟨info, children⟩).keys.Nodup :=
    (keys_toJson _).nodup (by decide)
  rw [toJson, FieldInfo.members] at distinct ⊢
  refine EachCovered.object filled distinct
    ((((((always.append defaults).append ?_).append ?_).append ?_).append ?_).append below)
  · exact .listMember drawn.examples
  · exact .listMember drawn.options
  · exact .listMember drawn.annotatedOptions
  · exact .textMember filled

end

/-- Readers of any reach read only fields that are read back as they are. -/
theorem isCanonical_decodeWithin (depth : Nat) : IsCanonical (decodeWithin depth) := by
  induction depth with
  | zero => exact ⟨nofun, nofun⟩
  | succ depth inductionHypothesis =>
      have drawn {document : Json} {field : Field}
          (read : decodeWithin (depth + 1) document = .ok field) :
          document.parts ≠ [] ∧ field.DrawnFrom document.parts := by
        have filled := Json.Record.parts_ne_nil_of_decode (List.mem_singleton_self "name") read
        refine ⟨filled, Json.Record.decode_preserves ?_ drawnFrom_blank read⟩
        intro value slot part next present held assigned
        exact held.assign inductionHypothesis present assigned
      exact
        { condenses := fun _ _ read => (drawn read).2.covers (drawn read).1
          noNullDefault := fun _ _ read => (drawn read).2.hasNoNullDefault }

/-- Fields are read back as they are once they have been read, from documents that cover their
own. -/
theorem isCanonical_ofJson : IsCanonical ofJson where
  condenses document := (isCanonical_decodeWithin document.depth).condenses document
  noNullDefault document := (isCanonical_decodeWithin document.depth).noNullDefault document

end Field

end FieldGuide
