/-
**Checkpoint data through its text.**

A message is stored as the JSON text of its blob. What is read of it is the blob of the message whose
arguments were read back (`wireMessage_reread`), unless they are nested too deep (`depth_wireMessage`).

* `throughBlobs` — every message written out, stored as a text and decoded.
-/

import Byok.Cursor.Checkpoint.Echo
import Byok.Model.JsonText

namespace Byok

open Library

/-- The calls of a projected message. -/
def ProjectedMessage.calls (message : ProjectedMessage) : List ToolCallContent :=
  match message.content with
  | .assistant _ _ _ calls => calls
  | _ => []

/-- A call whose arguments were read back. -/
def ToolCallContent.reread (readNumber : Number → Number) (call : ToolCallContent) : ToolCallContent :=
  { call with arguments := call.arguments.reread readNumber }

/-- A message whose arguments were read back. -/
def ProjectedMessage.reread (readNumber : Number → Number) (message : ProjectedMessage) : ProjectedMessage :=
  { message with
    content := match message.content with
      | .assistant text thinking replayState calls =>
          .assistant text thinking replayState (calls.map (·.reread readNumber))
      | content => content }

namespace Codec

variable {codec : Codec} {model : String} {message : ProjectedMessage} {wire : Value}

/-! ### The parts of a message -/

theorem wireReasoningParts_ok {thinking : String} {replayState : Option ProviderReplayState}
    {parts : List Value} (wrote : codec.wireReasoningParts thinking model replayState = .ok parts) :
    parts = (if thinking = "" then [] else [wireReasoning thinking model]) ∨
      ∃ signature, parts = [(wireReasoning thinking model).insertField "signature" (.string signature)] := by
  cases replayState with
  | none => exact .inl (Except.ok.inj wrote).symm
  | some state =>
    cases encoded : codec.encodeReplayState state with
    | error error => simp [wireReasoningParts, encoded] at wrote
    | ok signature =>
      simp only [wireReasoningParts, encoded, except_ok_bind, Except.ok.injEq] at wrote
      exact .inr ⟨signature, wrote.symm⟩

section Parts

variable {readNumber : Number → Number}

@[simp] theorem wirePart_reread (part : ContentPart) :
    (codec.wirePart part).reread readNumber = codec.wirePart part := by
  cases part <;> simp [wirePart]

@[simp] theorem wireCall_reread (call : ToolCallContent) :
    (wireCall call).reread readNumber = wireCall (call.reread readNumber) := by
  simp [wireCall, ToolCallContent.reread]

@[simp] theorem wireResult_reread (result : ToolResultContent) :
    (wireResult result).reread readNumber = wireResult result := by
  simp [wireResult]

@[simp] theorem wireReasoning_reread (thinking model : String) :
    (wireReasoning thinking model).reread readNumber = wireReasoning thinking model := by
  simp [wireReasoning]

theorem wireReasoningParts_reread {thinking : String} {replayState : Option ProviderReplayState}
    {parts : List Value} (wrote : codec.wireReasoningParts thinking model replayState = .ok parts) :
    ∀ part ∈ parts, part.reread readNumber = part := by
  rcases wireReasoningParts_ok wrote with rfl | ⟨signature, rfl⟩
  · split <;> simp
  · simp [wireReasoning, Value.insertField]

theorem wireTextParts_reread (text : String) :
    ∀ part ∈ wireTextParts text, part.reread readNumber = part := by
  unfold wireTextParts
  split <;> simp

end Parts

theorem map_reread {readNumber : Number → Number} {items : List Value}
    (same : ∀ item ∈ items, item.reread readNumber = item) : items.map (Value.reread readNumber) = items := by
  rw [List.map_congr_left same, List.map_id']

/-- **What is read of a written message** is the message with its arguments read back. -/
theorem wireMessage_reread (readNumber : Number → Number) (wrote : codec.wireMessage message model = .ok wire) :
    codec.wireMessage (message.reread readNumber) model = .ok (wire.reread readNumber) := by
  obtain ⟨messageId, role, content⟩ := message
  cases content with
  | parts parts =>
    obtain rfl := Except.ok.inj wrote
    simp [wireMessage, wireContent, ProjectedMessage.reread, wireMessageId]
  | toolResult result =>
    obtain rfl := Except.ok.inj wrote
    simp [wireMessage, wireContent, ProjectedMessage.reread, wireMessageId]
  | assistant text thinking replayState calls =>
    cases signed : codec.wireReasoningParts thinking model replayState with
    | error error =>
      simp [wireMessage, wireContent, signed] at wrote
    | ok reasoning =>
      simp only [wireMessage, wireContent, signed, except_ok_bind] at wrote
      obtain rfl := Except.ok.inj wrote
      simp [wireMessage, wireContent, signed, ProjectedMessage.reread, wireMessageId,
        map_reread (wireReasoningParts_reread signed), map_reread (wireTextParts_reread text)]

/-! ### The nesting -/

theorem depth_wirePart (part : ContentPart) : (codec.wirePart part).depth ≤ 1 := by
  cases part <;> exact Value.depth_object_le.mpr (by simp)

theorem depth_wireCall {call : ToolCallContent} {limit : Nat} :
    (wireCall call).depth ≤ limit + 1 ↔ call.arguments.depth ≤ limit := by
  rw [wireCall, Value.depth_object_le]
  simp

theorem depth_wireResult (result : ToolResultContent) : (wireResult result).depth ≤ 3 := by
  refine Value.depth_object_le.mpr ?_
  simp [Value.depth, Value.depthItems, Value.depthFields, Value.depthField]

theorem depth_wireReasoningParts {thinking : String} {replayState : Option ProviderReplayState}
    {parts : List Value} (wrote : codec.wireReasoningParts thinking model replayState = .ok parts) :
    ∀ part ∈ parts, part.depth ≤ 3 := by
  rcases wireReasoningParts_ok wrote with rfl | ⟨signature, rfl⟩
  · split <;> simp [wireReasoning, Value.depth, Value.depthFields, Value.depthField]
  · simp [wireReasoning, Value.insertField, Value.depth, Value.depthFields, Value.depthField]

theorem depth_wireTextParts (text : String) : ∀ part ∈ wireTextParts text, part.depth ≤ 3 := by
  unfold wireTextParts
  split <;> simp [Value.depth, Value.depthFields, Value.depthField]

theorem depth_wireMessage {json : JsonText} (wrote : codec.wireMessage message model = .ok wire) :
    wire.depth ≤ json.limit ↔ ∀ call ∈ message.calls, call.arguments.depth + 3 ≤ json.limit := by
  obtain ⟨limit, room⟩ : ∃ limit, json.limit = limit + 5 := ⟨json.limit - 5, by have := json.room; omega⟩
  have whole (content : Value) (name id : String) :
      (Value.object [("role", .string name), ("content", content), ("id", .string id)]).depth ≤ limit + 5 ↔
        content.depth ≤ limit + 4 := by
    rw [Value.depth_object_le]
    simp
  rw [room]
  obtain ⟨messageId, role, content⟩ := message
  cases content with
  | parts parts =>
    obtain rfl := Except.ok.inj wrote
    rw [whole, Value.depth_array_le]
    have shallow (part : ContentPart) : (codec.wirePart part).depth ≤ limit + 3 := (depth_wirePart part).trans (by omega)
    simp [ProjectedMessage.calls, shallow]
  | toolResult result =>
    obtain rfl := Except.ok.inj wrote
    rw [whole, Value.depth_array_le]
    have shallow : (wireResult result).depth ≤ limit + 3 := (depth_wireResult result).trans (by omega)
    simp [ProjectedMessage.calls, shallow]
  | assistant text thinking replayState calls =>
    cases signed : codec.wireReasoningParts thinking model replayState with
    | error error =>
      simp [wireMessage, wireContent, signed] at wrote
    | ok reasoning =>
      simp only [wireMessage, wireContent, signed, except_ok_bind] at wrote
      obtain rfl := Except.ok.inj wrote
      rw [whole, Value.depth_array_le]
      simp only [List.forall_mem_append, List.forall_mem_map, ProjectedMessage.calls, depth_wireCall]
      constructor
      · rintro ⟨-, deep⟩ call listed
        exact Nat.add_le_add_right (deep call listed) 3
      · intro deep
        refine ⟨⟨fun part listed => ?_, fun part listed => ?_⟩, fun call listed => ?_⟩
        · exact (depth_wireReasoningParts signed part listed).trans (by omega)
        · exact (depth_wireTextParts text part listed).trans (by omega)
        · exact Nat.le_of_add_le_add_right (deep call listed)

/-! ### Through the blobs -/

/-- Every message written out with `wire_message`, its blob stored as a text, and the text read back with `decode`,
under its own internal id. -/
def throughBlobs (codec : Codec) (json : JsonText) (model : String) (messages : List ProjectedMessage)
    (internalIds : List String) : Except Error (List CanonicalMessage) := do
  let wires ← messages.mapM fun message => codec.wireMessage message model
  (wires.zip internalIds).mapM fun entry => do
    let value ← json.readBack entry.1
    codec.decode value entry.2

end Codec

end Byok
