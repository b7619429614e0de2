/-
**Projected messages as checkpoint data.** `server/src/cursor/checkpoint/messages/encode.rs`, for
messages that are committed: the contracts of a pending tool round are not part of the model.

The JSON text of a blob and its value determine each other, so a blob is its value here. The base64
text of bytes and the JSON bytes of a replay state are functions of a `Codec`.
-/

import Byok.Model.Projection

namespace Byok

/-- `base64::STANDARD` and `serde_json` for `ProviderReplayState`, with the texts of their errors. -/
structure Codec where
  encodeBase64 : List UInt8 → String
  decodeBase64 : String → Except String (List UInt8)
  replayToVec : ProviderReplayState → List UInt8
  replayFromSlice : List UInt8 → Except String ProviderReplayState

def replayEnvelopePrefix : String := "cursor-byok:v1:"

/-- `role_name`. -/
def Role.wireName : Role → String
  | .system => "system"
  | .user => "user"
  | .assistant => "assistant"
  | .tool => "tool"

def wireMessageId (message : ProjectedMessage) : String :=
  match message.content with
  | .assistant .. => "1"
  | .toolResult result => result.callId
  | .parts _ => message.messageId

namespace Codec

variable (codec : Codec)

def encodeReplayState (replayState : ProviderReplayState) : Except Error String :=
  if replayState.providerKind = "cursor_opaque" then
    match replayState.value.asStr with
    | some text => .ok text
    | none => .error (.protocol "Cursor opaque replay state is not a string")
  else .ok (replayEnvelopePrefix ++ codec.encodeBase64 (codec.replayToVec replayState))

/-- A part of a message of parts. -/
def wirePart : ContentPart → Value
  | .text text => .object [("type", .string "text"), ("text", .string text)]
  | .image mimeType data => .object
      [("type", .string "image"), ("image", .string (codec.encodeBase64 data)),
        ("mimeType", .string mimeType)]

/-- The reasoning part of an assistant message, before its signature. -/
def wireReasoning (thinking model : String) : Value :=
  .object
    [("type", .string "reasoning"), ("text", .string thinking),
      ("providerOptions", .object [("cursor", .object [("modelName", .string model)])])]

/-- The part of a tool call. -/
def wireCall (call : ToolCallContent) : Value :=
  .object
    [("type", .string "tool-call"), ("toolCallId", .string call.callId),
      ("toolName", .string call.name), ("args", call.arguments)]

/-- The part of a tool result. -/
def wireResult (result : ToolResultContent) : Value :=
  .object
    [("type", .string "tool-result"), ("toolCallId", .string result.callId),
      ("toolName", .string result.name), ("result", .string result.content),
      ("experimental_content",
        .array [.object [("type", .string "text"), ("text", .string result.content)]]),
      ("isError", .bool result.isError)]

/-- The reasoning part, when there is thinking or a replay state to sign. -/
def wireReasoningParts (thinking model : String) (replayState : Option ProviderReplayState) :
    Except Error (List Value) :=
  match replayState with
  | some replayState => do
      let signature ← codec.encodeReplayState replayState
      .ok [(wireReasoning thinking model).insertField "signature" (.string signature)]
  | none => .ok (if thinking = "" then [] else [wireReasoning thinking model])

/-- The text part, when there is text. -/
def wireTextParts (text : String) : List Value :=
  if text = "" then [] else [.object [("type", .string "text"), ("text", .string text)]]

def wireContent (content : ProjectedContent) (model : String) : Except Error Value :=
  match content with
  | .parts parts => .ok (.array (parts.map codec.wirePart))
  | .assistant text thinking replayState calls => do
      let reasoning ← codec.wireReasoningParts thinking model replayState
      .ok (.array (reasoning ++ wireTextParts text ++ calls.map wireCall))
  | .toolResult result => .ok (.array [wireResult result])

def wireMessage (message : ProjectedMessage) (model : String) : Except Error Value := do
  let content ← codec.wireContent message.content model
  .ok (.object
    [("role", .string message.role.wireName), ("content", content),
      ("id", .string (wireMessageId message))])

end Codec

end Byok
