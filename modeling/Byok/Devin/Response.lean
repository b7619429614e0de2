/-
**The answer to a Devin request.** `server/src/devin/response.rs`.

The events of a provider become frames of protobuf fields: a frame for each text and each thinking, and at the end one for
the calls, one for the signature of the thinking, the stop chunk and the end of the stream.

* `streamEvent`, `finish` — what is sent at an event, and at the end.
* `replaySignature` — the signature that is sent: the first of all blocks.
-/

import Byok.Devin.Assignment
import Byok.Model.TokenCount
import Byok.Run.ModelCycle

namespace Byok.Devin

open Library

/-! ### Fields -/

/-- `Field::bytes` of a text. -/
def textField (number : UInt32) (text : String) : Field := ⟨number, .bytes (textBytes text)⟩

/-- `Field::varint`. -/
def varintField (number : UInt32) (value : Nat) : Field := ⟨number, .varint (UInt64.ofNat value)⟩

/-- `now_seconds` and `now_nanos`. -/
structure Stamp where
  seconds : UInt64
  nanos : UInt64

def baseFields (messageId : String) (now : Stamp) : Except Error (List Field) := do
  let time ← serializeFields [⟨1, .varint now.seconds⟩, ⟨2, .varint now.nanos⟩]
  return [textField 1 messageId, ⟨2, .bytes time⟩]

/-! ### The state -/

inductive ProviderType where
  | openAiChat
  | openAiResponses
  | anthropic
  | plugin
deriving DecidableEq

structure ToolAccumulator where
  callId : String
  name : String
  arguments : String
deriving DecidableEq

structure ResponseState where
  messageId : String
  provider : ProviderType
  toolCalls : Std.TreeMap Nat ToolAccumulator
  usage : Option Usage
  finishReason : FinishReason
  replayState : Option ProviderReplayState

namespace ResponseState

def new (messageId : String) (provider : ProviderType) : ResponseState :=
  { messageId, provider, toolCalls := ∅, usage := none, finishReason := .stop, replayState := none }

def setFallbackInputTokens (state : ResponseState) (inputTokens : Nat) : ResponseState :=
  if 0 < inputTokens ∧ state.usage = none then
    { state with usage := some ⟨some inputTokens, none, none, none, none, none, none⟩ }
  else state

def mergeUsage (state : ResponseState) (usage : Usage) : ResponseState :=
  match state.usage with
  | none => { state with usage := some usage }
  | some fallback =>
    if 0 < saturatingAdd (saturatingAdd (usage.inputTokens.getD 0) (usage.cacheReadTokens.getD 0))
        (usage.cacheWriteTokens.getD 0) then
      { state with usage := some usage }
    else
      { state with usage := some { usage with
          inputTokens := fallback.inputTokens
          cacheReadTokens := fallback.cacheReadTokens <|> usage.cacheReadTokens
          cacheWriteTokens := fallback.cacheWriteTokens <|> usage.cacheWriteTokens } }

end ResponseState

/-! ### Payloads -/

def textDelta (messageId : String) (now : Stamp) (text : String) : Except Error (List UInt8) := do
  let fields ← baseFields messageId now
  serializeFields (fields ++ [textField 3 text, varintField 4 (divCeil (max text.length 1) 4)])

def thinkingDelta (messageId : String) (now : Stamp) (text : String) : Except Error (List UInt8) := do
  let fields ← baseFields messageId now
  serializeFields (fields ++ [textField 9 text])

def signatureDelta (messageId : String) (now : Stamp) (signature : String) : Except Error (List UInt8) := do
  let fields ← baseFields messageId now
  serializeFields (fields ++ [textField 10 signature])

/-- A call of `tool_delta`. -/
def toolField (tool : ToolAccumulator) : Except Error Field := do
  let call ← serializeFields [textField 1 tool.callId, textField 2 tool.name,
    textField 3 (if tool.arguments = "" then "\x7b\x7d" else tool.arguments)]
  return ⟨6, .bytes call⟩

def toolDelta (messageId : String) (now : Stamp) (tools : List ToolAccumulator) : Except Error (List UInt8) := do
  let fields ← baseFields messageId now
  let calls ← tools.mapM toolField
  serializeFields (fields ++ calls)

def finishReasonCode : FinishReason → Nat
  | .stop => 2
  | .length => 3
  | .toolUse => 10

def providerCode : ProviderType → Nat
  | .anthropic => 11
  | .openAiChat | .openAiResponses | .plugin => 10

def usageStats (messageId modelUid : String) (provider : ProviderType) (usage : Usage) : Except Error (List UInt8) :=
  let counts := [(2, usage.inputTokens), (3, usage.outputTokens), (4, usage.cacheWriteTokens), (5, usage.cacheReadTokens)]
  serializeFields ([varintField 6 (providerCode provider), textField 7 messageId, textField 9 modelUid,
    textField 10 modelUid, textField 11 modelUid] ++
    counts.filterMap fun (number, value) => (value.filter (0 < ·)).map (varintField number))

/-- `0f64.to_le_bytes()`. -/
def zeroDouble : FieldValue := .fixed64 (Vector.replicate 8 0)

def stopChunk (messageId : String) (now : Stamp) (reason : FinishReason) (modelUid : String) (usage : Option Usage)
    (provider : ProviderType) : Except Error (List UInt8) := do
  let fields ← baseFields messageId now
  let stats : List Field ← usage.toList.mapM fun usage =>
    (usageStats messageId modelUid provider usage).map fun stats => ⟨7, .bytes stats⟩
  serializeFields (fields ++ [varintField 5 (finishReasonCode reason), ⟨12, zeroDouble⟩] ++ stats ++
    if modelUid = "" then [] else [textField 23 modelUid])

def replaySignature (state : Option ProviderReplayState) : Option String := do
  let blocks ← (← (← state).value.get "blocks").asArray
  blocks.findSome? fun block => (block.get "signature").bind Value.asStr

/-! ### Events -/

section Events

variable (gzip : Gzip)

def framePayload (payload : List UInt8) : Except Error (List (List UInt8)) := do
  return [← frame gzip payload false]

def streamEvent (now : Stamp) (state : ResponseState) : ModelEvent → Except Error (List (List UInt8) × ResponseState)
  | .start modelCallId => .ok ([], if modelCallId = "" then state else { state with messageId := modelCallId })
  | .textDelta text =>
    if text = "" then .ok ([], state)
    else do return (← framePayload gzip (← textDelta state.messageId now text), state)
  | .thinkingDelta text =>
    if text = "" then .ok ([], state)
    else do return (← framePayload gzip (← thinkingDelta state.messageId now text), state)
  | .toolCallStart index callId name =>
    .ok ([], { state with toolCalls := state.toolCalls.insert index ⟨callId, name, ""⟩ })
  | .toolCallArgumentsDelta index delta =>
    match state.toolCalls[index]? with
    | some tool =>
      .ok ([], { state with
        toolCalls := state.toolCalls.insert index { tool with arguments := tool.arguments ++ delta } })
    | none => .ok ([], state)
  | .toolCallEnd _ => .ok ([], state)
  | .providerReplayState replayState => .ok ([], { state with replayState := some replayState })
  | .usage usage => .ok ([], state.mergeUsage usage)
  | .done reason => .ok ([], { state with finishReason := reason })
  | .textStart | .textEnd | .thinkingStart | .thinkingSignature _ | .stopSequence _ | .thinkingEnd => .ok ([], state)

/-- `end_frame` without an error. -/
def endFrame : Except Error (List UInt8) := framed 2 (textBytes "\x7b\x7d")

/-- The frame of the calls. -/
def toolFrames (now : Stamp) (state : ResponseState) : Except Error (List (List UInt8)) :=
  let tools := state.toolCalls.toList.map Prod.snd
  if state.finishReason = .toolUse ∧ tools ≠ [] then do framePayload gzip (← toolDelta state.messageId now tools)
  else .ok []

/-- The frame of the signature. -/
def signatureFrames (now : Stamp) (state : ResponseState) : Except Error (List (List UInt8)) :=
  match replaySignature state.replayState with
  | some signature => do framePayload gzip (← signatureDelta state.messageId now signature)
  | none => .ok []

/-- `finish`, at the times at which its three payloads are built. -/
def finish (tools signature stop : Stamp) (state : ResponseState) (modelUid : String) :
    Except Error (List (List UInt8)) := do
  let calls ← toolFrames gzip tools state
  let signatures ← signatureFrames gzip signature state
  let chunk ← framePayload gzip
    (← stopChunk state.messageId stop state.finishReason modelUid state.usage state.provider)
  return calls ++ signatures ++ chunk ++ [← endFrame]

/-- The events of a stream, each with the time at which it comes. -/
def streamEvents (state : ResponseState) : List (Stamp × ModelEvent) → Except Error (List (List UInt8) × ResponseState)
  | [] => .ok ([], state)
  | (now, event) :: events => do
    let (frames, state) ← streamEvent gzip now state event
    let (more, state) ← streamEvents state events
    return (frames ++ more, state)

/-- The stream of frames that answers a request. -/
def answerFrames (state : ResponseState) (events : List (Stamp × ModelEvent)) (tools signature stop : Stamp)
    (modelUid : String) : Except Error (List (List UInt8)) := do
  let (frames, state) ← streamEvents gzip state events
  return frames ++ (← finish gzip tools signature stop state modelUid)

end Events

end Byok.Devin
