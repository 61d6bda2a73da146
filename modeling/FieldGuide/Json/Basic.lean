import FieldGuide.Number

/-!
# JSON documents

This module holds the value type of JSON documents, their nesting depth, and the
members that an object leaves out when they have nothing to say. Objects keep the
order of their members, and numbers keep the difference between integers and
floats.
-/

namespace FieldGuide

/-- A JSON document with ordered objects. -/
inductive Json
  | null
  | bool (value : Bool)
  | number (value : Number)
  | string (value : String)
  | array (items : List Json)
  | object (members : List (String × Json))
  deriving Repr, Inhabited

namespace Json

mutual

/-- Decides whether two documents are the same. -/
def decEq : (left right : Json) → Decidable (left = right)
  | .null, .null => isTrue rfl
  | .bool left, .bool right =>
      if same : left = right then isTrue (same ▸ rfl) else isFalse (by simp [same])
  | .number left, .number right =>
      if same : left = right then isTrue (same ▸ rfl) else isFalse (by simp [same])
  | .string left, .string right =>
      if same : left = right then isTrue (same ▸ rfl) else isFalse (by simp [same])
  | .array left, .array right =>
      match decEqItems left right with
      | isTrue same => isTrue (same ▸ rfl)
      | isFalse differ => isFalse (by simp [differ])
  | .object left, .object right =>
      match decEqMembers left right with
      | isTrue same => isTrue (same ▸ rfl)
      | isFalse differ => isFalse (by simp [differ])
  | .null, .bool _ | .null, .number _ | .null, .string _ | .null, .array _
  | .null, .object _ | .bool _, .null | .bool _, .number _ | .bool _, .string _
  | .bool _, .array _ | .bool _, .object _ | .number _, .null | .number _, .bool _
  | .number _, .string _ | .number _, .array _ | .number _, .object _
  | .string _, .null | .string _, .bool _ | .string _, .number _ | .string _, .array _
  | .string _, .object _ | .array _, .null | .array _, .bool _ | .array _, .number _
  | .array _, .string _ | .array _, .object _ | .object _, .null | .object _, .bool _
  | .object _, .number _ | .object _, .string _ | .object _, .array _ =>
      isFalse (by simp)

/-- Decides whether two lists of documents are the same. -/
def decEqItems : (left right : List Json) → Decidable (left = right)
  | [], [] => isTrue rfl
  | [], _ :: _ | _ :: _, [] => isFalse (by simp)
  | left :: leftRest, right :: rightRest =>
      match decEq left right, decEqItems leftRest rightRest with
      | isTrue same, isTrue sameRest => isTrue (same ▸ sameRest ▸ rfl)
      | isFalse differ, _ => isFalse (by simp [differ])
      | _, isFalse differ => isFalse (by simp [differ])

/-- Decides whether two lists of object members are the same. -/
def decEqMembers : (left right : List (String × Json)) → Decidable (left = right)
  | [], [] => isTrue rfl
  | [], _ :: _ | _ :: _, [] => isFalse (by simp)
  | (leftKey, left) :: leftRest, (rightKey, right) :: rightRest =>
      if sameKey : leftKey = rightKey then
        match decEq left right, decEqMembers leftRest rightRest with
        | isTrue same, isTrue sameRest => isTrue (sameKey ▸ same ▸ sameRest ▸ rfl)
        | isFalse differ, _ => isFalse (by simp [differ])
        | _, isFalse differ => isFalse (by simp [differ])
      else isFalse (by simp [sameKey])

end

instance : DecidableEq Json := decEq

mutual

/-- The number of arrays and objects nested into each other. -/
def depth : Json → Nat
  | .array items => depthItems items + 1
  | .object members => depthMembers members + 1
  | .null | .bool _ | .number _ | .string _ => 0

/-- The greatest depth among items. -/
def depthItems : List Json → Nat
  | [] => 0
  | item :: rest => max (depth item) (depthItems rest)

/-- The greatest depth among members. -/
def depthMembers : List (String × Json) → Nat
  | [] => 0
  | (_, value) :: rest => max (depth value) (depthMembers rest)

end

/-- A member that is left out when its list is empty. -/
def listMember (key : String) (items : List Json) : List (String × Json) :=
  if items.isEmpty then [] else [(key, .array items)]

/-- A member that is left out when its text is empty. -/
def textMember (key text : String) : List (String × Json) :=
  if text.isEmpty then [] else [(key, .string text)]

end Json

end FieldGuide
