/-
**One message over the wire.**

`echoed` says what a projected message comes back as: the same content under the internal id, with
the calls numbered by position, but a tool result without its image. `decode_wireMessage` proves it
for each shape of content.
-/

import Byok.Cursor.Checkpoint.Decode
import Byok.Model.Segments
import Mathlib.Data.List.Induction

namespace Byok

open Library

/-- The calls of an assistant message numbered by position. -/
def renumbered (calls : List ToolCallContent) : List ToolCallContent :=
  calls.mapIdx fun index call => { call with index }

@[simp] theorem renumbered_nil : renumbered [] = [] := rfl

@[simp] theorem length_renumbered (calls : List ToolCallContent) :
    (renumbered calls).length = calls.length := by
  simp [renumbered]

@[simp] theorem renumbered_eq_nil {calls : List ToolCallContent} :
    renumbered calls = [] ↔ calls = [] := by
  simp [renumbered]

theorem renumbered_concat (calls : List ToolCallContent) (call : ToolCallContent) :
    renumbered (calls ++ [call]) = renumbered calls ++ [{ call with index := calls.length }] := by
  simp [renumbered, List.mapIdx_append]

@[simp] theorem renumbered_renumbered (calls : List ToolCallContent) :
    renumbered (renumbered calls) = renumbered calls := by
  simp [renumbered, Function.comp_def]

/-- The content that a projected content comes back as. -/
def echoedContent (content : ProjectedContent) (internalId : String) : MessageContent :=
  match content with
  | .parts parts => .parts parts
  | .assistant text thinking replayState calls =>
      .assistant text thinking (if calls = [] then none else some ⟨internalId ++ ":tool-round"⟩)
        replayState (renumbered calls)
  | .toolResult result => .toolResult { result with image := none, providerParts := [] }

/-- The message that a projected message comes back as. -/
def echoed (message : ProjectedMessage) (internalId : String) : CanonicalMessage :=
  { messageId := messageIdOfWire message.role (wireMessageId message) internalId
    role := message.role
    origin := originOfWire message.role (wireMessageId message)
    content := echoedContent message.content internalId
    runtimeEventId := stripPrefix (wireMessageId message) "runtime:" }

namespace Codec

variable (codec : Codec)

/-- The signature of a replay state is read back as it. -/
def Survives (replayState : ProviderReplayState) : Prop :=
  ∃ signature, codec.encodeReplayState replayState = .ok signature ∧
    codec.decodeReplayState signature = .ok replayState

/-- The images and the replay state of a content survive the codec. -/
def Carries (content : ProjectedContent) : Prop :=
  match content with
  | .parts parts => ∀ mimeType data, .image mimeType data ∈ parts →
      codec.decodeBase64 (codec.encodeBase64 data) = .ok data
  | .assistant _ _ replayState _ => ∀ state ∈ replayState, codec.Survives state
  | .toolResult _ => True

variable {codec}

/-! ### The three shapes of content -/

theorem decodePart_wirePart {part : ContentPart}
    (carries : ∀ mimeType data, part = .image mimeType data →
      codec.decodeBase64 (codec.encodeBase64 data) = .ok data) :
    codec.decodePart (codec.wirePart part) = .ok part := by
  cases part with
  | text text => rfl
  | image mimeType data =>
    simp [decodePart, wirePart, requiredString, Value.get, Value.asStr, carries mimeType data rfl]

theorem mapM_decodePart {parts : List ContentPart}
    (carries : ∀ mimeType data, .image mimeType data ∈ parts →
      codec.decodeBase64 (codec.encodeBase64 data) = .ok data) :
    (parts.map codec.wirePart).mapM codec.decodePart = .ok parts := by
  induction parts with
  | nil => rfl
  | cons part rest ih =>
    have first : codec.decodePart (codec.wirePart part) = .ok part := decodePart_wirePart
      fun mimeType data equal => carries mimeType data (equal ▸ List.mem_cons_self)
    rw [List.map_cons, List.mapM_cons, first,
      ih fun mimeType data member => carries mimeType data (List.mem_cons_of_mem _ member)]
    rfl

theorem decodeAssistantPart_call (state : DecodedAssistant) (call : ToolCallContent) :
    codec.decodeAssistantPart state (wireCall call) = .ok { state with
      calls := state.calls ++ [{ call with index := state.calls.length }] } := by
  rfl

theorem foldlM_calls (state : DecodedAssistant) (calls : List ToolCallContent)
    (empty : state.calls = []) :
    (calls.map wireCall).foldlM codec.decodeAssistantPart state =
      .ok { state with calls := renumbered calls } := by
  induction calls using List.reverseRecOn with
  | nil =>
    obtain ⟨text, thinking, replayState, _⟩ := state
    obtain rfl := empty
    rfl
  | append_singleton calls call ih =>
    rw [List.map_append, List.foldlM_append, ih, except_ok_bind, List.map_singleton,
      List.foldlM_cons, decodeAssistantPart_call, renumbered_concat, length_renumbered]
    rfl

theorem foldlM_text (state : DecodedAssistant) (blank : state.text = "") (text : String) :
    (wireTextParts text).foldlM codec.decodeAssistantPart state = .ok { state with text } := by
  by_cases empty : text = ""
  · rw [wireTextParts, if_pos empty, empty, ← blank]
    rfl
  · simp [wireTextParts, empty, decodeAssistantPart, Value.get, Value.asStr, blank]

theorem foldlM_reasoning (thinking model : String) {replayState : Option ProviderReplayState}
    (carries : ∀ state ∈ replayState, codec.Survives state) :
    ∃ reasoning, codec.wireReasoningParts thinking model replayState = .ok reasoning ∧
      reasoning.foldlM codec.decodeAssistantPart ⟨"", "", none, []⟩ =
        .ok ⟨"", thinking, replayState, []⟩ := by
  cases replayState with
  | none =>
    refine ⟨_, rfl, ?_⟩
    by_cases empty : thinking = ""
    · rw [if_pos empty, empty]
      rfl
    · simp [empty, decodeAssistantPart, wireReasoning, Value.get, Value.asStr]
  | some state =>
    obtain ⟨signature, encoded, decoded⟩ := carries state rfl
    refine ⟨[(wireReasoning thinking model).insertField "signature" (.string signature)], ?_, ?_⟩
    · rw [wireReasoningParts, encoded]
      rfl
    · simp [decodeAssistantPart, wireReasoning, Value.insertField, Value.get, Value.asStr, decoded]

theorem decodeAssistant_wireContent (text thinking model : String)
    {replayState : Option ProviderReplayState} (calls : List ToolCallContent) (role id : Value)
    (carries : ∀ state ∈ replayState, codec.Survives state) (internalId : String) :
    ∃ content, codec.wireContent (.assistant text thinking replayState calls) model = .ok content ∧
      codec.decodeAssistant (.object [("role", role), ("content", content), ("id", id)]) internalId =
        .ok (echoedContent (.assistant text thinking replayState calls) internalId) := by
  obtain ⟨reasoning, encoded, decoded⟩ := foldlM_reasoning thinking model carries
  refine ⟨.array (reasoning ++ wireTextParts text ++ calls.map wireCall),
    by rw [wireContent, encoded]; rfl, ?_⟩
  have parts : (reasoning ++ wireTextParts text ++ calls.map wireCall).foldlM
      codec.decodeAssistantPart ⟨"", "", none, []⟩ =
        .ok ⟨text, thinking, replayState, renumbered calls⟩ := by
    rw [List.foldlM_append, List.foldlM_append, decoded, except_ok_bind, foldlM_text _ rfl,
      except_ok_bind, foldlM_calls _ _ rfl]
  have read : ((Value.object [("role", role), ("content", .array
      (reasoning ++ wireTextParts text ++ calls.map wireCall)), ("id", id)]).get "content").bind
        Value.asArray = some (reasoning ++ wireTextParts text ++ calls.map wireCall) := rfl
  rw [decodeAssistant, read, Option.getD_some, parts, except_ok_bind, echoedContent]
  simp only [renumbered_eq_nil]

theorem decodeText_wireContent {parts : List ContentPart} {role id : Value}
    (carries : ∀ mimeType data, .image mimeType data ∈ parts →
      codec.decodeBase64 (codec.encodeBase64 data) = .ok data) :
    codec.decodeText (.object [("role", role), ("content", .array (parts.map codec.wirePart)),
      ("id", id)]) = .ok (.parts parts) := by
  simp [decodeText, Value.get, Value.asStr, Value.asArray, mapM_decodePart carries]

theorem decodeToolResult_wireResult {result : ToolResultContent} {role id : Value} :
    decodeToolResult (.object [("role", role), ("content", .array [wireResult result]), ("id", id)]) =
      .ok { result with image := none, providerParts := [] } := by
  rfl

theorem decode_object (role : Role) (content : Value) (wireId internalId : String) :
    codec.decode (.object [("role", .string role.wireName), ("content", content),
      ("id", .string wireId)]) internalId = (do
        let content ← match role with
          | .assistant => codec.decodeAssistant (.object [("role", .string role.wireName),
              ("content", content), ("id", .string wireId)]) internalId
          | .tool => do
              let result ← decodeToolResult (.object [("role", .string role.wireName),
                ("content", content), ("id", .string wireId)])
              .ok (.toolResult result)
          | _ => codec.decodeText (.object [("role", .string role.wireName),
              ("content", content), ("id", .string wireId)])
        .ok
          { messageId := messageIdOfWire role wireId internalId
            role
            origin := originOfWire role wireId
            content
            runtimeEventId := stripPrefix wireId "runtime:" }) := by
  cases role <;> rfl

/-- **What a message comes back as.** -/
theorem decode_wireMessage {message : ProjectedMessage} (fits : message.RoleFits)
    (carries : codec.Carries message.content) (model internalId : String) :
    ∃ wire, codec.wireMessage message model = .ok wire ∧
      codec.decode wire internalId = .ok (echoed message internalId) := by
  obtain ⟨messageId, role, content⟩ := message
  cases content with
  | parts parts =>
    refine ⟨_, rfl, ?_⟩
    rw [decode_object]
    rcases fits with system | user
    · obtain rfl : role = .system := system
      simp only [decodeText_wireContent carries, except_ok_bind]
      rfl
    · obtain rfl : role = .user := user
      simp only [decodeText_wireContent carries, except_ok_bind]
      rfl
  | assistant text thinking replayState calls =>
    obtain rfl : role = .assistant := fits
    obtain ⟨content, encoded, decoded⟩ := decodeAssistant_wireContent text thinking
      model calls (.string Role.assistant.wireName) (.string "1") carries internalId
    refine ⟨_, by rw [wireMessage, encoded]; rfl, ?_⟩
    rw [decode_object]
    simp only [wireMessageId, decoded, except_ok_bind]
    rfl
  | toolResult result =>
    obtain rfl : role = .tool := fits
    refine ⟨_, rfl, ?_⟩
    rw [decode_object]
    simp only [decodeToolResult_wireResult, except_ok_bind]
    rfl

end Codec

end Byok
