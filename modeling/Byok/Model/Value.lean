/-
**JSON values.**

`serde_json::Value`, as the message types carry it (`ToolCallContent::arguments`,
`ProviderReplayState::value`) and as the checkpoint wire format builds and reads it. A number is an
integer or the bits of a double: nothing in the modelled code computes with one.
-/

import Mathlib.Data.List.Basic
import Mathlib.Tactic.Common

namespace Byok

/-- A JSON number: `N::PosInt` and `N::NegInt` as an integer, `N::Float` by its bits. -/
inductive Number where
  | int (value : Int)
  | float (bits : UInt64)
deriving DecidableEq, Repr

/-- A JSON value. An object is the list of its fields; only `Value.get` reads it. -/
inductive Value where
  | null
  | bool (value : Bool)
  | number (value : Number)
  | string (value : String)
  | array (items : List Value)
  | object (fields : List (String × Value))
deriving Repr

namespace Value

/-! ### Equality -/

mutual

/-- Structural equality of two values. -/
def beq : Value → Value → Bool
  | .null, .null => true
  | .bool a, .bool b => a == b
  | .number a, .number b => a == b
  | .string a, .string b => a == b
  | .array a, .array b => beqList a b
  | .object a, .object b => beqFields a b
  | _, _ => false
termination_by structural a => a

/-- Structural equality of two arrays. -/
def beqList : List Value → List Value → Bool
  | [], [] => true
  | a :: as, b :: bs => beq a b && beqList as bs
  | _, _ => false
termination_by structural as => as

/-- Structural equality of two field lists. -/
def beqFields : List (String × Value) → List (String × Value) → Bool
  | [], [] => true
  | a :: as, b :: bs => beqField a b && beqFields as bs
  | _, _ => false
termination_by structural as => as

/-- Structural equality of two fields. -/
def beqField : String × Value → String × Value → Bool
  | (a, v), (b, w) => a == b && beq v w
termination_by structural field => field

end

mutual

theorem beq_iff : ∀ a b : Value, beq a b = true ↔ a = b
  | .null, b => by cases b <;> simp [beq]
  | .bool a, b => by cases b <;> simp [beq]
  | .number a, b => by cases b <;> simp [beq]
  | .string a, b => by cases b <;> simp [beq]
  | .array a, b => by cases b <;> simp [beq, beqList_iff a]
  | .object a, b => by cases b <;> simp [beq, beqFields_iff a]

theorem beqList_iff : ∀ a b : List Value, beqList a b = true ↔ a = b
  | [], b => by cases b <;> simp [beqList]
  | a :: as, b => by cases b <;> simp [beqList, beq_iff a, beqList_iff as]

theorem beqFields_iff : ∀ a b : List (String × Value), beqFields a b = true ↔ a = b
  | [], b => by cases b <;> simp [beqFields]
  | a :: as, b => by cases b <;> simp [beqFields, beqField_iff a, beqFields_iff as]

theorem beqField_iff : ∀ a b : String × Value, beqField a b = true ↔ a = b
  | (a, v), (b, w) => by simp [beqField, beq_iff v]

end

instance : DecidableEq Value := fun a b => decidable_of_iff _ (beq_iff a b)

/-! ### Reading -/

/-- `Value::get` with a field name. -/
def get (value : Value) (name : String) : Option Value :=
  match value with
  | .object fields => (fields.find? fun field => field.1 = name).map (·.2)
  | _ => none

def asStr : Value → Option String
  | .string text => some text
  | _ => none

def asArray : Value → Option (List Value)
  | .array items => some items
  | _ => none

def asBool : Value → Option Bool
  | .bool value => some value
  | _ => none

/-- `Map::insert` of a field that is not there yet. -/
def insertField (value : Value) (name : String) (field : Value) : Value :=
  match value with
  | .object fields => .object (fields ++ [(name, field)])
  | other => other

end Value

end Byok
