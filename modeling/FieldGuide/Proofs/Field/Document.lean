import FieldGuide.Field.Document
import FieldGuide.Proofs.Field.Redaction
import FieldGuide.Proofs.Json.Decode

/-!
# Fields that are read back

A field is written as an object and read from it. Of all it says, one thing is lost: a default
of null is written, but null stands for no default where it is read. This module shows that
nothing else is lost, at any depth.
-/

namespace FieldGuide

/-- The names of value types tell them apart. -/
theorem ValueType.isFaithful_choice : ValueType.choice.IsFaithful where
  complete := by intro value; cases value <;> decide
  apart := by intro left right; cases left <;> cases right <;> decide

/-- The names of kinds tell them apart. -/
theorem Kind.isFaithful_choice : Kind.choice.IsFaithful where
  complete := by intro value; cases value <;> decide
  apart := by intro left right; cases left <;> cases right <;> decide

/-- What a field says about itself once it is read back. -/
def FieldInfo.readBack (info : FieldInfo) : FieldInfo :=
  { info with defaultValue := info.defaultValue.bind Json.decodeOptional }

/-- What a field always says about itself. -/
def FieldInfo.plain (info : FieldInfo) : FieldInfo :=
  { info with
    defaultValue := none, examples := [], options := [], annotatedOptions := [], version := "" }

/-- What a field says about itself is read back as it is unless its default is null. -/
theorem FieldInfo.readBack_eq_iff (info : FieldInfo) :
    info.readBack = info ↔ info.defaultValue ≠ some .null := by
  rw [← Json.bind_decodeOptional_eq_iff]
  refine ⟨congrArg FieldInfo.defaultValue, fun same => ?_⟩
  rw [readBack, same]

namespace Field

open Json.Record (Assigns)

mutual

/-- The field that is read back: without the defaults of null, its own and those below. -/
def readBack : Field → Field
  | ⟨info, children⟩ => ⟨info.readBack, readBackAll children⟩

/-- The fields that are read back. -/
def readBackAll : List Field → List Field
  | [] => []
  | field :: rest => readBack field :: readBackAll rest

end

/-- Fields are read back one by one. -/
theorem readBackAll_eq_map (fields : List Field) : readBackAll fields = fields.map readBack := by
  induction fields with
  | nil => rfl
  | cons field rest inductionHypothesis => rw [readBackAll, inductionHypothesis, List.map_cons]

/-- Fields are written one by one. -/
theorem toJsonList_eq_map (fields : List Field) : toJsonList fields = fields.map toJson := by
  induction fields with
  | nil => rfl
  | cons field rest inductionHypothesis => rw [toJsonList, inductionHypothesis, List.map_cons]

/-- The members that are never left out are assigned, and nothing else is said yet. -/
theorem assigns_always (decodeChild : Json → Decoded Field) (info : FieldInfo) :
    (record decodeChild).Assigns
      [("name", .string info.name), ("description", .string info.description),
        ("type", .string info.valueType.name), ("kind", .string info.kind.name),
        ("is_advanced", .bool info.isAdvanced), ("is_deprecated", .bool info.isDeprecated),
        ("is_secret", .bool info.isSecret)] (record decodeChild).blank ⟨info.plain, []⟩ := by
  refine .cons rfl ?_
  refine .cons rfl ?_
  refine .cons (bind_pure_eq_ok.mpr
    ⟨_, Json.decodeChoice_name ValueType.isFaithful_choice info.valueType, rfl⟩) ?_
  refine .cons (bind_pure_eq_ok.mpr
    ⟨_, Json.decodeChoice_name Kind.isFaithful_choice info.kind, rfl⟩) ?_
  refine .cons rfl ?_
  refine .cons rfl ?_
  refine .cons rfl ?_
  exact .nil

/-- What a field says about itself is read back from its members. -/
theorem assigns_members (decodeChild : Json → Decoded Field) (info : FieldInfo) :
    (record decodeChild).Assigns info.members (record decodeChild).blank
      ⟨info.readBack, []⟩ := by
  have always := assigns_always decodeChild info
  -- Each member is assigned to a field that still lacks what the later members say.
  have defaults : (record decodeChild).Assigns
      (info.defaultValue.toList.map fun value => ("default", value)) ⟨info.plain, []⟩
      ⟨{ info.readBack with
        examples := [], options := [], annotatedOptions := [], version := "" }, []⟩ :=
    .optionMember (fun given found => by rw [FieldInfo.readBack, Option.mem_def.mp found]; rfl)
      (fun absent => by rw [FieldInfo.readBack, absent]; rfl)
  have examples : (record decodeChild).Assigns (Json.listMember "examples" info.examples)
      ⟨{ info.readBack with
        examples := [], options := [], annotatedOptions := [], version := "" }, []⟩
      ⟨{ info.readBack with options := [], annotatedOptions := [], version := "" }, []⟩ :=
    .listMember (bind_pure_eq_ok.mpr ⟨_, Json.decodeList_documents _, rfl⟩)
      fun empty => by rw [FieldInfo.readBack, empty]
  have options : (record decodeChild).Assigns
      (Json.listMember "options" (info.options.map .string))
      ⟨{ info.readBack with options := [], annotatedOptions := [], version := "" }, []⟩
      ⟨{ info.readBack with annotatedOptions := [], version := "" }, []⟩ :=
    .listMember (bind_pure_eq_ok.mpr ⟨_, Json.decodeList_strings _, rfl⟩)
      fun empty => by rw [FieldInfo.readBack, List.map_eq_nil_iff.mp empty]
  have annotatedOptions : (record decodeChild).Assigns
      (Json.listMember "annotated_options" (info.annotatedOptions.map
        fun pair => .array [.string pair.1, .string pair.2]))
      ⟨{ info.readBack with annotatedOptions := [], version := "" }, []⟩
      ⟨{ info.readBack with version := "" }, []⟩ :=
    .listMember (bind_pure_eq_ok.mpr ⟨_, Json.decodeList_stringPairs _, rfl⟩)
      fun empty => by rw [FieldInfo.readBack, List.map_eq_nil_iff.mp empty]
  have version : (record decodeChild).Assigns (Json.textMember "version" info.version)
      ⟨{ info.readBack with version := "" }, []⟩ ⟨info.readBack, []⟩ :=
    .textMember rfl fun empty => by rw [FieldInfo.readBack, empty]
  exact ((((always.append defaults).append examples).append options).append
    annotatedOptions).append version

/-- A document of no field is without depth. -/
theorem depth_toJson_pos (field : Field) : 0 < field.toJson.depth := by
  obtain ⟨info, children⟩ := field
  exact Nat.succ_pos _

/-- A child lies deeper in the document than its parent. -/
theorem depth_child_lt {field child : Field} (member : child ∈ field.children) :
    child.toJson.depth < field.toJson.depth := by
  obtain ⟨info, children⟩ := field
  have written : ("children", Json.array (toJsonList children)) ∈
      info.members ++ Json.listMember "children" (toJsonList children) := by
    obtain ⟨first, rest, rfl⟩ := List.exists_cons_of_ne_nil (List.ne_nil_of_mem member)
    exact List.mem_append_right _ (List.mem_singleton_self _)
  have ofArray : (Json.array (toJsonList children)).depth < (toJson ⟨info, children⟩).depth :=
    Json.depth_lt_of_mem_parts (List.mem_map_of_mem written)
  have ofChild : child.toJson.depth < (Json.array (toJsonList children)).depth := by
    refine Json.depth_lt_of_mem_parts ?_
    rw [Json.parts, toJsonList_eq_map]
    exact List.mem_map_of_mem member
  exact Nat.lt_trans ofChild ofArray

/-- A field is read back from its document by any reader that reaches as deep. -/
theorem decodeWithin_toJson (field : Field) {depth : Nat}
    (reached : field.toJson.depth ≤ depth) :
    decodeWithin depth field.toJson = .ok field.readBack := by
  induction field using Field.induction generalizing depth with
  | step field inductionHypothesis =>
      have positive := field.depth_toJson_pos
      obtain ⟨depth, rfl⟩ := Nat.exists_eq_succ_of_ne_zero (by omega : depth ≠ 0)
      have children : Json.decodeList (decodeWithin depth) (.array (field.children.map toJson)) =
          .ok (field.children.map readBack) :=
        Json.decodeList_map fun child member =>
          inductionHypothesis child member (by have := depth_child_lt member; omega)
      obtain ⟨info, fields⟩ := field
      rw [decodeWithin, toJson, readBack, toJsonList_eq_map, readBackAll_eq_map]
      apply Json.Record.decode_object
      · refine (assigns_members _ info).append (.listMember ?_ ?_)
        · exact bind_pure_eq_ok.mpr ⟨_, children, rfl⟩
        · intro empty
          rw [List.map_eq_nil_iff.mp empty, List.map_nil]
      · simp [record, FieldInfo.members]

/-- A field is read back from its document. -/
theorem ofJson_toJson (field : Field) : ofJson field.toJson = .ok field.readBack :=
  field.decodeWithin_toJson (Nat.le_refl _)

mutual

/-- Whether no default is null, the field's own or one below. -/
def hasNoNullDefault : Field → Bool
  | ⟨info, children⟩ => decide (info.defaultValue ≠ some .null) && noneHasNullDefault children

/-- Whether no default in the fields is null. -/
def noneHasNullDefault : List Field → Bool
  | [] => true
  | field :: rest => hasNoNullDefault field && noneHasNullDefault rest

end

/-- Whether no default in some fields is null depends on each of them. -/
theorem noneHasNullDefault_eq_all (fields : List Field) :
    noneHasNullDefault fields = fields.all hasNoNullDefault := by
  induction fields with
  | nil => rfl
  | cons field rest inductionHypothesis =>
      rw [noneHasNullDefault, inductionHypothesis, List.all_cons]

/-- A field is read back as it is exactly when no default is null. -/
theorem readBack_eq_iff (field : Field) :
    field.readBack = field ↔ field.hasNoNullDefault = true := by
  induction field using Field.induction with
  | step field inductionHypothesis =>
      obtain ⟨info, children⟩ := field
      have below : children.map readBack = children ↔ children.all hasNoNullDefault = true := by
        conv_lhs => rhs; rw [← List.map_id children]
        rw [List.map_inj_left, List.all_eq_true]
        exact forall₂_congr inductionHypothesis
      rw [readBack, readBackAll_eq_map, hasNoNullDefault, noneHasNullDefault_eq_all,
        Bool.and_eq_true, decide_eq_true_iff, Field.mk.injEq,
        info.readBack_eq_iff, below]

/-- A field survives exactly when no default is null. -/
theorem survivesDocument_eq (field : Field) : field.survivesDocument = field.hasNoNullDefault := by
  rw [survivesDocument, ofJson_toJson]
  simp only [readBack_eq_iff, Bool.decide_eq_true]

end Field

end FieldGuide
