/-
**JSON values through their text.** `serde_json::to_vec` and `serde_json::from_slice`.

A text keeps the shape of its value, its strings and its booleans. A float may be read back as another
one, since the last digits are not read exactly, and a deep nesting is refused.

* `Value.reread`, `Value.depth` — a value with its numbers read back, and how deep it is nested.
* `JsonText.readBack` — what is read of the text of a value; `JsonText.Reads`, where that is the value.
-/

import Byok.Model.Message

namespace Byok

namespace Value

mutual

/-- The value with each of its numbers read back. -/
def reread (readNumber : Number → Number) : Value → Value
  | .null => .null
  | .bool value => .bool value
  | .number value => .number (readNumber value)
  | .string text => .string text
  | .array items => .array (rereadItems readNumber items)
  | .object fields => .object (rereadFields readNumber fields)
termination_by structural value => value

def rereadItems (readNumber : Number → Number) : List Value → List Value
  | [] => []
  | item :: items => reread readNumber item :: rereadItems readNumber items
termination_by structural items => items

def rereadFields (readNumber : Number → Number) : List (String × Value) → List (String × Value)
  | [] => []
  | field :: fields => rereadField readNumber field :: rereadFields readNumber fields
termination_by structural fields => fields

def rereadField (readNumber : Number → Number) : String × Value → String × Value
  | (name, value) => (name, reread readNumber value)
termination_by structural field => field

end

mutual

/-- How deep arrays and objects are nested. -/
def depth : Value → Nat
  | .array items => depthItems items + 1
  | .object fields => depthFields fields + 1
  | _ => 0
termination_by structural value => value

def depthItems : List Value → Nat
  | [] => 0
  | item :: items => max (depth item) (depthItems items)
termination_by structural items => items

def depthFields : List (String × Value) → Nat
  | [] => 0
  | field :: fields => max (depthField field) (depthFields fields)
termination_by structural fields => fields

def depthField : String × Value → Nat
  | (_, value) => depth value
termination_by structural field => field

end

section Reread

variable {readNumber : Number → Number}

@[simp] theorem reread_string (text : String) : (Value.string text).reread readNumber = .string text := rfl

@[simp] theorem reread_bool (value : Bool) : (Value.bool value).reread readNumber = .bool value := rfl

theorem rereadItems_eq (items : List Value) : rereadItems readNumber items = items.map (reread readNumber) := by
  induction items with
  | nil => rfl
  | cons item items ih => exact congrArg _ ih

theorem rereadFields_eq (fields : List (String × Value)) :
    rereadFields readNumber fields = fields.map fun field => (field.1, field.2.reread readNumber) := by
  induction fields with
  | nil => rfl
  | cons field fields ih =>
    obtain ⟨name, value⟩ := field
    exact congrArg (List.cons (name, value.reread readNumber)) ih

@[simp] theorem reread_array (items : List Value) :
    (Value.array items).reread readNumber = .array (items.map (reread readNumber)) :=
  congrArg Value.array (rereadItems_eq items)

@[simp] theorem reread_object (fields : List (String × Value)) :
    (Value.object fields).reread readNumber =
      .object (fields.map fun field => (field.1, field.2.reread readNumber)) :=
  congrArg Value.object (rereadFields_eq fields)

end Reread

section Depth

variable {limit : Nat}

@[simp] theorem depth_string (text : String) : (Value.string text).depth = 0 := rfl

@[simp] theorem depth_bool (value : Bool) : (Value.bool value).depth = 0 := rfl

theorem depthItems_le {items : List Value} : depthItems items ≤ limit ↔ ∀ item ∈ items, item.depth ≤ limit := by
  induction items with
  | nil => simp [depthItems]
  | cons item items ih => rw [depthItems, Nat.max_le, ih, List.forall_mem_cons]

theorem depthFields_le {fields : List (String × Value)} :
    depthFields fields ≤ limit ↔ ∀ field ∈ fields, field.2.depth ≤ limit := by
  induction fields with
  | nil => simp [depthFields]
  | cons field fields ih => rw [depthFields, Nat.max_le, ih, List.forall_mem_cons, depthField]

theorem depth_array_le {items : List Value} :
    (Value.array items).depth ≤ limit + 1 ↔ ∀ item ∈ items, item.depth ≤ limit := by
  simp [depth, depthItems_le]

theorem depth_object_le {fields : List (String × Value)} :
    (Value.object fields).depth ≤ limit + 1 ↔ ∀ field ∈ fields, field.2.depth ≤ limit := by
  simp [depth, depthFields_le]

end Depth

end Value

/-- What a text says of the numbers of its value, and the nesting that is read. Values that are a few levels deep are
read. -/
structure JsonText where
  readNumber : Number → Number
  limit : Nat
  room : 5 ≤ limit

namespace JsonText

variable (json : JsonText)

/-- `serde_json::from_slice` of the text that `serde_json::to_vec` writes. -/
def readBack (value : Value) : Except Error Value :=
  if value.depth ≤ json.limit then .ok (value.reread json.readNumber) else .error .json

/-- The value is read back, also where it stands `below` other arrays and objects. -/
def Reads (value : Value) (below : Nat) : Prop :=
  value.depth + below ≤ json.limit ∧ value.reread json.readNumber = value

end JsonText

end Byok
