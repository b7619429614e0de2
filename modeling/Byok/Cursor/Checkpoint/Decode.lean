/-
**Checkpoint data as canonical messages.** `server/src/cursor/checkpoint/messages/decode.rs`.
-/

import Byok.Cursor.Checkpoint.Encode

namespace Byok

def requiredString (value : Value) (name : String) : Except Error String :=
  match (value.get name).bind Value.asStr with
  | some text => .ok text
  | none => .error (.protocol ("Cursor message is missing " ++ name))

/-- The role of a message, by its name. -/
def roleOfWire (name : String) : Except Error Role :=
  match name with
  | "system" => .ok .system
  | "user" => .ok .user
  | "assistant" => .ok .assistant
  | "tool" => .ok .tool
  | role => .error (.protocol ("unknown Cursor message role: " ++ role))

/-- The origin of a message, by its role and its id on the wire. -/
def originOfWire (role : Role) (wireId : String) : Origin :=
  match role with
  | .system => .prompt
  | .assistant => .assistant
  | .tool => .tool
  | .user =>
    if startsWith wireId "runtime:" then .runtime
    else if startsWith wireId "request-context:" || startsWith wireId "selected-context:" then
      .prompt
    else .user

/-- The message id: the wire's own for runtime messages and request contexts, else the internal
one. -/
def messageIdOfWire (role : Role) (wireId internalId : String) : String :=
  if (stripPrefix wireId "runtime:").isSome ∨
      (role = .user ∧ startsWith wireId "request-context:") then wireId
  else internalId

def decodeToolResult (value : Value) : Except Error ToolResultContent := do
  let part ← match (((value.get "content").bind Value.asArray).bind List.head?) with
    | some part => .ok part
    | none => .error (.protocol "Cursor tool message has no result part")
  let callId ← requiredString part "toolCallId"
  let name ← requiredString part "toolName"
  .ok
    { callId
      name
      content := ((part.get "result").bind Value.asStr).getD ""
      isError := ((part.get "isError").bind Value.asBool).getD false
      image := none
      providerParts := [] }

/-- The locals of the loop of `decode_assistant`. -/
structure DecodedAssistant where
  text : String
  thinking : String
  replayState : Option ProviderReplayState
  calls : List ToolCallContent
deriving DecidableEq, Repr

namespace Codec

variable (codec : Codec)

def decodeReplayState (signature : String) : Except Error ProviderReplayState :=
  match stripPrefix signature replayEnvelopePrefix with
  | none => .ok { providerKind := "cursor_opaque", value := .string signature }
  | some encoded =>
    match codec.decodeBase64 encoded with
    | .error error => .error (.protocol ("invalid haxsd byok replay envelope base64: " ++ error))
    | .ok bytes =>
      match codec.replayFromSlice bytes with
      | .error error => .error (.protocol ("invalid haxsd byok replay envelope: " ++ error))
      | .ok replayState => .ok replayState

/-- A part of `decode_text`. -/
def decodePart (part : Value) : Except Error ContentPart :=
  match (part.get "type").bind Value.asStr with
  | some "text" => do
      let text ← requiredString part "text"
      .ok (.text text)
  | some "image" => do
      let mimeType ← requiredString part "mimeType"
      let encoded ← requiredString part "image"
      match codec.decodeBase64 encoded with
      | .error error => .error (.protocol ("invalid Cursor image base64: " ++ error))
      | .ok data => .ok (.image mimeType data)
  | some kind => .error (.protocol ("unsupported Cursor message content part: " ++ kind))
  | none => .error (.protocol "Cursor message content part is missing type")

def decodeText (value : Value) : Except Error MessageContent :=
  let content := (value.get "content").getD .null
  match content.asStr with
  | some text => .ok (.parts [.text text])
  | none =>
    match content.asArray with
    | none => .error (.protocol "Cursor message content is not an array")
    | some items => do
        let parts ← items.mapM codec.decodePart
        .ok (.parts parts)

/-- One round of the loop of `decode_assistant`. -/
def decodeAssistantPart (state : DecodedAssistant) (part : Value) : Except Error DecodedAssistant :=
  match (part.get "type").bind Value.asStr with
  | some "text" =>
      .ok { state with text := state.text ++ ((part.get "text").bind Value.asStr).getD "" }
  | some "reasoning" =>
      let thinking := state.thinking ++ ((part.get "text").bind Value.asStr).getD ""
      match (part.get "signature").bind Value.asStr with
      | none => .ok { state with thinking }
      | some signature =>
          if state.replayState.isSome then
            .error (.protocol "Cursor assistant has multiple reasoning signatures")
          else do
            let replayState ← codec.decodeReplayState signature
            .ok { state with thinking, replayState := some replayState }
  | some "tool-call" => do
      let callId ← requiredString part "toolCallId"
      let name ← requiredString part "toolName"
      .ok { state with
        calls := state.calls ++
          [{ index := state.calls.length, callId, name
             arguments := (part.get "args").getD .null }] }
  | _ => .ok state

def decodeAssistant (value : Value) (internalId : String) : Except Error MessageContent := do
  let parts := (((value.get "content").bind Value.asArray).getD [])
  let state ← parts.foldlM codec.decodeAssistantPart ⟨"", "", none, []⟩
  .ok (.assistant state.text state.thinking
    (if state.calls = [] then none else some ⟨internalId ++ ":tool-round"⟩)
    state.replayState state.calls)

/-- `decode`, of a blob that is JSON. -/
def decode (value : Value) (internalId : String) : Except Error CanonicalMessage := do
  let name ← requiredString value "role"
  let role ← roleOfWire name
  let wireId := ((value.get "id").bind Value.asStr).getD ""
  let content ← match role with
    | .assistant => codec.decodeAssistant value internalId
    | .tool => do
        let result ← decodeToolResult value
        .ok (.toolResult result)
    | _ => codec.decodeText value
  .ok
    { messageId := messageIdOfWire role wireId internalId
      role
      origin := originOfWire role wireId
      content
      runtimeEventId := stripPrefix wireId "runtime:" }

end Codec

end Byok
