/-
**The stream of the Anthropic adapter.** `server/src/provider/anthropic.rs`.

An upstream sends content blocks; each has an index, a start, deltas and a stop. The adapter keeps the kinds
of the open blocks, and the text and the signature of each thinking block.
-/

import Byok.Provider.Upstream

namespace Byok.Provider.AnthropicStream

/-! ### Fields -/

def requiredString (value : Value) (name : String) : Except RunFailure String :=
  match value.textAt name with
  | some text => .ok text
  | none => .error (.provider ("Anthropic event is missing " ++ name))

/-- `str::parse::<u64>`. -/
def parseU64 (text : String) : Option Nat :=
  let digits := match text.toList with
    | '+' :: rest => rest
    | other => other
  if digits ≠ [] && digits.all Char.isDigit then
    let value := digits.foldl (fun value digit => 10 * value + (digit.toNat - '0'.toNat)) 0
    if value < 2 ^ 64 then some value else none
  else none

def requiredU64 (value : Value) (name : String) : Except RunFailure Nat :=
  match (value.get name).bind fun field => field.asU64 <|> field.asStr.bind parseU64 with
  | some number => .ok number
  | none => .error (.provider ("Anthropic event is missing " ++ name))

/-! ### Usage -/

def saturatingAdd (first second : Nat) : Nat := min (first + second) (2 ^ 64 - 1)

def checkedAdd (first second : Nat) : Option Nat :=
  if first + second < 2 ^ 64 then some (first + second) else none

def anthropicUsage (value : Value) : Usage :=
  let inputTokens := (value.get "input_tokens").bind Value.asU64
  let cacheReadTokens := (value.get "cache_read_input_tokens").bind Value.asU64
  let cacheWriteTokens := (value.get "cache_creation_input_tokens").bind Value.asU64
  { inputTokens
    contextInputTokens := inputTokens.map fun input =>
      saturatingAdd (saturatingAdd input (cacheReadTokens.getD 0)) (cacheWriteTokens.getD 0)
    outputTokens := (value.get "output_tokens").bind Value.asU64
    totalTokens := (value.get "total_tokens").bind Value.asU64
    cacheReadTokens
    cacheWriteTokens
    reasoningTokens := none }

def mergeUsageField (total update : Option Nat) : Option Nat :=
  match update with
  | some update => some (total.elim update (max · update))
  | none => total

def mergeUsage (total update : Usage) : Usage :=
  let merged : Usage :=
    { inputTokens := mergeUsageField total.inputTokens update.inputTokens
      contextInputTokens := mergeUsageField total.contextInputTokens update.contextInputTokens
      outputTokens := mergeUsageField total.outputTokens update.outputTokens
      totalTokens := mergeUsageField total.totalTokens update.totalTokens
      cacheReadTokens := mergeUsageField total.cacheReadTokens update.cacheReadTokens
      cacheWriteTokens := mergeUsageField total.cacheWriteTokens update.cacheWriteTokens
      reasoningTokens := mergeUsageField total.reasoningTokens update.reasoningTokens }
  match merged.contextInputTokens, merged.outputTokens with
  | some input, some output =>
    match checkedAdd input output with
    | some requestTokens => { merged with totalTokens := some requestTokens }
    | none => merged
  | _, _ => merged

/-- `Usage::default()`. -/
def emptyUsage : Usage := ⟨none, none, none, none, none, none, none⟩

/-! ### The state -/

/-- What the loop keeps. -/
structure StreamState where
  blockTypes : Std.TreeMap Nat String
  thinkingText : Std.TreeMap Nat String
  thinkingSignatures : Std.TreeMap Nat String
  thinkingBlocks : List Value
  finish : Option FinishReason
  sawTool : Bool
  terminal : Bool
  finalUsage : Option Usage

namespace StreamState

def initial : StreamState := ⟨∅, ∅, ∅, [], none, false, false, none⟩

/-- The `usage` of an event. -/
def noteUsage (state : StreamState) (usage : Option Value) : StreamState :=
  match usage with
  | some usage =>
    { state with finalUsage := some (mergeUsage (state.finalUsage.getD emptyUsage) (anthropicUsage usage)) }
  | none => state

/-- A thinking block opens. -/
def openThinking (state : StreamState) (index : Nat) : StreamState :=
  { state with
    thinkingText := state.thinkingText.insert index ""
    thinkingSignatures := state.thinkingSignatures.insert index "" }

/-! ### Blocks -/

/-- A block of some kind starts. -/
def openBlock (state : StreamState) (index : Nat) (block : Value) (kind : String) :
    Except RunFailure (List ModelEvent × StreamState) :=
  let state := { state with blockTypes := state.blockTypes.insert index kind }
  match kind with
  | "text" => .ok ([.textStart], state)
  | "thinking" => .ok ([.thinkingStart], state.openThinking index)
  | "redacted_thinking" => .ok ([], { state with thinkingBlocks := state.thinkingBlocks ++ [block] })
  | "tool_use" => do
    let callId ← requiredString block "id"
    let name ← requiredString block "name"
    .ok ([.toolCallStart index callId name], { state with sawTool := true })
  | _ => .ok ([], state)

/-- `content_block_start`. -/
def startBlock (state : StreamState) (value : Value) : Except RunFailure (List ModelEvent × StreamState) := do
  let index ← requiredU64 value "index"
  let block := (value.get "content_block").getD .null
  let kind ← requiredString block "type"
  state.openBlock index block kind

/-- A delta of a block that has not started. -/
def impliedStart (state : StreamState) (index : Nat) (kind : String) : List ModelEvent × StreamState :=
  if state.blockTypes.contains index then ([], state)
  else
    match kind with
    | "text_delta" => ([.textStart], { state with blockTypes := state.blockTypes.insert index "text" })
    | "thinking_delta" | "signature_delta" =>
      ([.thinkingStart],
        { state with blockTypes := state.blockTypes.insert index "thinking" }.openThinking index)
    | _ => ([], state)

/-- What a delta brings. -/
def takeDelta (state : StreamState) (index : Nat) (kind : String) (delta : Value) :
    List ModelEvent × StreamState :=
  match kind with
  | "text_delta" => ((delta.textAt "text").toList.map .textDelta, state)
  | "thinking_delta" =>
    match delta.textAt "thinking" with
    | some text =>
      ([.thinkingDelta text],
        { state with thinkingText := state.thinkingText.insert index (state.thinkingText[index]?.getD "" ++ text) })
    | none => ([], state)
  | "signature_delta" =>
    match delta.textAt "signature" with
    | some signature =>
      ([], { state with
        thinkingSignatures := state.thinkingSignatures.insert index
          (state.thinkingSignatures[index]?.getD "" ++ signature) })
    | none => ([], state)
  | "input_json_delta" => ((delta.textAt "partial_json").toList.map (.toolCallArgumentsDelta index), state)
  | _ => ([], state)

/-- `content_block_delta`. -/
def blockDelta (state : StreamState) (value : Value) : Except RunFailure (List ModelEvent × StreamState) := do
  let index ← requiredU64 value "index"
  let delta := (value.get "delta").getD .null
  let kind ← requiredString delta "type"
  let (starts, state) := state.impliedStart index kind
  let (events, state) := state.takeDelta index kind delta
  .ok (starts ++ events, state)

/-- The block of a signed thinking. -/
def signedThinking (thinking signature : String) : Value :=
  .object [("type", .string "thinking"), ("thinking", .string thinking), ("signature", .string signature)]

/-- `close_anthropic_block`. -/
def closeBlock (state : StreamState) (index : Nat) (kind : String) : List ModelEvent × StreamState :=
  match kind with
  | "text" => ([.textEnd], state)
  | "thinking" =>
    let thinking := state.thinkingText[index]?.getD ""
    let signature := state.thinkingSignatures[index]?.getD ""
    let state := { state with
      thinkingText := state.thinkingText.erase index
      thinkingSignatures := state.thinkingSignatures.erase index }
    if signature = "" then ([.thinkingEnd], state)
    else
      ([.thinkingSignature signature, .thinkingEnd],
        { state with thinkingBlocks := state.thinkingBlocks ++ [signedThinking thinking signature] })
  | "tool_use" => ([.toolCallEnd index], state)
  | _ => ([], state)

/-- `content_block_stop`. -/
def stopBlock (state : StreamState) (value : Value) : Except RunFailure (List ModelEvent × StreamState) := do
  let index ← requiredU64 value "index"
  match state.blockTypes[index]? with
  | some kind => .ok ({ state with blockTypes := state.blockTypes.erase index }.closeBlock index kind)
  | none => .ok ([], state)

/-- The blocks of a list, in its order. -/
def closeBlocks (state : StreamState) : List (Nat × String) → List ModelEvent × StreamState
  | [] => ([], state)
  | (index, kind) :: blocks =>
    let (events, state) := state.closeBlock index kind
    let (more, state) := state.closeBlocks blocks
    (events ++ more, state)

/-! ### The end of the message -/

/-- What a `stop_reason` says. -/
def stopReason (state : StreamState) : Option String → Option FinishReason
  | some "tool_use" => some .toolUse
  | some "max_tokens" | some "model_context_window_exceeded" => some .length
  | some "end_turn" | some "stop_sequence" | some "pause_turn" | some "refusal" => some .stop
  | none => state.finish
  | some _ => some (if state.sawTool then .toolUse else .stop)

def messageDelta (state : StreamState) (value : Value) : List ModelEvent × StreamState :=
  let state := state.noteUsage (value.get "usage")
  let sequence := ((value.pointer ["delta", "stop_sequence"]).bind Value.asStr).filter (· ≠ "")
  (sequence.toList.map .stopSequence,
    { state with finish := state.stopReason ((value.pointer ["delta", "stop_reason"]).bind Value.asStr) })

/-- The reason of the answer. -/
def closing (state : StreamState) : FinishReason :=
  if state.finish = some .length then .length
  else if state.sawTool then .toolUse
  else state.finish.getD .stop

/-- Thinking blocks, for the next request. -/
def replayOf (blocks : List Value) : Option ProviderReplayState :=
  if blocks = [] then none else some ⟨"anthropic", .object [("blocks", .array blocks)]⟩

/-- The message ends. -/
def endMessage (state : StreamState) : List ModelEvent × StreamState :=
  let blocks := state.blockTypes.toList
  let (closed, state) := { state with blockTypes := ∅ }.closeBlocks blocks
  (closed ++ (replayOf state.thinkingBlocks).toList.map .providerReplayState ++ state.finalUsage.toList.map .usage ++
      [.done state.closing],
    { state with thinkingBlocks := [], terminal := true })

/-! ### The loop -/

/-- The kind of an event. -/
def kindOf (event : String) (value : Value) : String :=
  if event = "" ∨ event = "message" then (value.textAt "type").getD event else event

def step (state : StreamState) (event : String) (value : Value) :
    Except RunFailure (List ModelEvent × StreamState) :=
  match kindOf event value with
  | "message_start" => .ok ([], state.noteUsage (value.pointer ["message", "usage"]))
  | "content_block_start" => state.startBlock value
  | "content_block_delta" => state.blockDelta value
  | "content_block_stop" => state.stopBlock value
  | "message_delta" => .ok (state.messageDelta value)
  | "message_stop" => .ok state.endMessage
  | _ => .ok ([], state)

/-- Behind the loop. -/
def conclude (state : StreamState) : Written Unit :=
  if state.terminal then ([], .ok ())
  else if state.finish.isSome then (state.endMessage.1, .ok ())
  else ([], .error (.provider "Anthropic stream ended without message_stop"))

end StreamState

/-- `AnthropicProvider`. -/
def adapter : Adapter StreamState where
  label := "Anthropic"
  readsMarker := false
  step state event value := written (state.step event value)
  finish state _ := state.conclude

end Byok.Provider.AnthropicStream
