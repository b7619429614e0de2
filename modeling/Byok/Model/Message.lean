/-
**Canonical messages, tool calls and tool rounds.**

The domain types of `server/src/model`: a conversation is a list of `CanonicalMessage`s, an
assistant turn with tool calls is stored as parts that share a `ToolRoundId`, and every part is
followed by the results of its calls.

* `CanonicalMessage.payload` — what `serde_json` keeps of a message. `provider_parts` is marked
  `#[serde(skip)]`, so it is the one field that a stored message loses.
* `normalizeToolName` — the provider-safe spelling of a tool name, and
  `normalizeToolName_idempotent`: it is a closure.
-/

import Byok.Model.Value
import Mathlib.Data.List.TakeWhile

namespace Byok

/-! ### Identities and errors -/

structure ConversationId where
  value : String
deriving DecidableEq, Repr

structure RunId where
  value : String
deriving DecidableEq, Repr

structure ToolRoundId where
  value : String
deriving DecidableEq, Repr

/-- A row id of `conversation_checkpoints`. -/
structure CheckpointId where
  value : Nat
deriving DecidableEq, Repr

/-- The variants of `crate::Error` that the modelled code returns. `database` stands for the
`sqlx` error of a violated constraint or of a statement that could not run, `json` for a
`serde_json` error. -/
inductive Error where
  | protocol (message : String)
  | store (message : String)
  | runNotFound (runId : String)
  | database
  | json
deriving DecidableEq, Repr

def startsWith (text pattern : String) : Bool := pattern.toList.isPrefixOf text.toList

def stripPrefix (text pattern : String) : Option String :=
  if startsWith text pattern then some (String.ofList (text.toList.drop pattern.toList.length))
  else none

def stripSuffix (text pattern : String) : Option String :=
  if pattern.toList.isSuffixOf text.toList then
    some (String.ofList (text.toList.take (text.toList.length - pattern.toList.length)))
  else none

/-- `char::is_whitespace`: the property `White_Space`. -/
def isWhitespace (character : Char) : Bool :=
  let code := character.toNat
  (9 ≤ code && code ≤ 13) || code == 0x20 || code == 0x85 || code == 0xA0 || code == 0x1680 ||
    (0x2000 ≤ code && code ≤ 0x200A) || code == 0x2028 || code == 0x2029 || code == 0x202F ||
    code == 0x205F || code == 0x3000

def trim (text : String) : String :=
  String.ofList ((text.toList.dropWhile isWhitespace).reverse.dropWhile isWhitespace).reverse

theorem trim_between {before after : List Char} (text : List Char) (front : ∃ c ∈ before, isWhitespace c = false)
    (back : ∃ c ∈ after, isWhitespace c = false) :
    (trim (String.ofList (before ++ text ++ after))).toList =
      before.dropWhile isWhitespace ++ text ++ (after.reverse.dropWhile isWhitespace).reverse := by
  have drop (first rest : List Char) (solid : ∃ c ∈ first, isWhitespace c = false) :
      (first ++ rest).dropWhile isWhitespace = first.dropWhile isWhitespace ++ rest := by
    obtain ⟨c, member, solid⟩ := solid
    rw [List.dropWhile_append, if_neg]
    rw [List.isEmpty_iff, List.dropWhile_eq_nil_iff]
    intro blank
    rw [blank c member] at solid
    cases solid
  have behind : ∃ c ∈ after.reverse, isWhitespace c = false := by simpa using back
  rw [trim, String.toList_ofList, String.toList_ofList, List.append_assoc, drop before _ front,
    List.reverse_append, List.reverse_append, List.append_assoc, drop after.reverse _ behind]
  simp [List.append_assoc]

theorem startsWith_append (pattern text : String) : startsWith (pattern ++ text) pattern = true := by
  simp [startsWith]

theorem stripPrefix_append (pattern text : String) :
    stripPrefix (pattern ++ text) pattern = some text := by
  simp [stripPrefix, startsWith]

theorem startsWith_iff {text pattern : String} :
    startsWith text pattern = true ↔ ∃ rest, text = pattern ++ rest := by
  constructor
  · intro starts
    obtain ⟨rest, equal⟩ := List.isPrefixOf_iff_prefix.mp starts
    refine ⟨String.ofList rest, String.toList_inj.mp ?_⟩
    rw [String.toList_append, String.toList_ofList, equal]
  · rintro ⟨rest, rfl⟩
    exact startsWith_append pattern rest

theorem stripPrefix_eq_none {text pattern : String} (other : startsWith text pattern = false) :
    stripPrefix text pattern = none := by
  simp [stripPrefix, other]

/-! ### Tools -/

/-- The spelling of one character in a provider-safe tool name. -/
def normalizeToolCharacter (character : Char) : Char :=
  if character.isAlphanum || character == '_' || character == '-' then character else '_'

/-- `normalize_tool_name`: every character outside `[A-Za-z0-9_-]` becomes `_`, and an empty name
becomes `_`. -/
def normalizeToolName (name : String) : String :=
  let normalized := name.toList.map normalizeToolCharacter
  if normalized.isEmpty then "_" else String.ofList normalized

theorem normalizeToolCharacter_idempotent (character : Char) :
    normalizeToolCharacter (normalizeToolCharacter character) = normalizeToolCharacter character := by
  by_cases safe : (character.isAlphanum || character == '_' || character == '-') = true
  · simp only [normalizeToolCharacter, safe, if_true]
  · simp only [normalizeToolCharacter, safe]
    rfl

theorem normalizeToolName_idempotent (name : String) :
    normalizeToolName (normalizeToolName name) = normalizeToolName name := by
  by_cases empty : name.toList = []
  · simp only [normalizeToolName, empty]
    decide
  · have mapped : ((name.toList.map normalizeToolCharacter).isEmpty) = false := by
      simpa using empty
    have twice : normalizeToolCharacter ∘ normalizeToolCharacter = normalizeToolCharacter :=
      funext normalizeToolCharacter_idempotent
    simp only [normalizeToolName, mapped, Bool.false_eq_true, if_false, String.toList_ofList,
      List.map_map, twice]

structure ToolCall where
  index : Nat
  callId : String
  modelCallId : String
  name : String
  argumentsText : String
  arguments : Value
  argumentError : Option String
deriving DecidableEq, Repr

structure ToolImageReference where
  blobId : String
  mimeType : String
  path : String
deriving DecidableEq, Repr

structure ToolResult where
  callId : String
  content : String
  isError : Bool
  image : Option ToolImageReference
deriving DecidableEq, Repr

structure ProviderReplayState where
  providerKind : String
  value : Value
deriving DecidableEq, Repr

structure ToolRoundAssistant where
  text : String
  thinking : String
  modelCallId : String
  replayState : Option ProviderReplayState
deriving DecidableEq, Repr

/-! ### Messages -/

inductive Role where
  | system
  | user
  | assistant
  | tool
deriving DecidableEq, Repr

inductive Origin where
  | prompt
  | user
  | runtime
  | assistant
  | tool
deriving DecidableEq, Repr

structure ToolCallContent where
  index : Nat
  callId : String
  name : String
  arguments : Value
deriving DecidableEq, Repr

inductive ContentPart where
  | text (text : String)
  | image (mimeType : String) (data : List UInt8)
deriving DecidableEq, Repr

structure ToolResultContent where
  callId : String
  name : String
  content : String
  isError : Bool
  image : Option ToolImageReference
  providerParts : List ContentPart
deriving DecidableEq, Repr

inductive MessageContent where
  | parts (parts : List ContentPart)
  | assistant (text thinking : String) (toolRoundId : Option ToolRoundId)
      (replayState : Option ProviderReplayState) (toolCalls : List ToolCallContent)
  | toolResult (result : ToolResultContent)
deriving DecidableEq, Repr

structure CanonicalMessage where
  messageId : String
  role : Role
  origin : Origin
  content : MessageContent
  runtimeEventId : Option String
deriving DecidableEq, Repr

/-- What serialisation keeps of a content: a tool result's `provider_parts` are skipped. -/
def MessageContent.payload : MessageContent → MessageContent
  | .toolResult result => .toolResult { result with providerParts := [] }
  | content => content

/-- The message that `payload_json` holds: every field but the skipped `provider_parts`.
Serialising and reading back is this map, and two messages have the same JSON text exactly when
they have the same payload. -/
def CanonicalMessage.payload (message : CanonicalMessage) : CanonicalMessage :=
  { message with content := message.content.payload }

namespace CanonicalMessage

@[simp] theorem payload_messageId (message : CanonicalMessage) :
    message.payload.messageId = message.messageId := rfl

@[simp] theorem payload_role (message : CanonicalMessage) : message.payload.role = message.role :=
  rfl

@[simp] theorem payload_origin (message : CanonicalMessage) :
    message.payload.origin = message.origin := rfl

@[simp] theorem payload_runtimeEventId (message : CanonicalMessage) :
    message.payload.runtimeEventId = message.runtimeEventId := rfl

@[simp] theorem payload_content (message : CanonicalMessage) :
    message.payload.content = message.content.payload := rfl

@[simp] theorem payload_payload (message : CanonicalMessage) :
    message.payload.payload = message.payload := by
  rcases message with ⟨messageId, role, origin, content, runtimeEventId⟩
  cases content <;> rfl

end CanonicalMessage

end Byok
