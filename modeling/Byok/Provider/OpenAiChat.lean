/-
**The OpenAI Chat adapter.** `server/src/provider/openai_chat.rs`.

An upstream sends the fields of a tool call in increments, or each time as far as they have come; the
adapter tells one from the other by comparing prefixes (`mergeChatFragment`).

Lengths of arguments are counted in characters: each is the length of a prefix.
-/

import Byok.Provider.Upstream

namespace Byok.Provider.OpenAiChat

/-! ### Tool calls -/

structure ChatToolState where
  callId : String
  name : String
  arguments : String
  emittedArguments : Nat
  started : Bool
deriving DecidableEq, Repr

/-- `ChatToolState::default()`. -/
def ChatToolState.fresh : ChatToolState := ⟨"", "", "", 0, false⟩

def mergeChatFragment (target fragment : String) : String :=
  if fragment.toList <+: target.toList then target
  else if target.toList <+: fragment.toList then fragment
  else target ++ fragment

/-- A field of a tool, and the fragment that may have come for it. -/
def mergeField (target : String) : Option String → String
  | none => target
  | some fragment => mergeChatFragment target fragment

/-- What is read of a member of `delta.tool_calls`. -/
structure ToolFragment where
  index : Nat
  callId : Option String
  name : Option String
  arguments : Option String
deriving DecidableEq, Repr

def ToolFragment.read (position : Nat) (tool : Value) : ToolFragment :=
  let function := (tool.get "function").getD .null
  { index := ((tool.get "index").bind Value.asU64).getD position
    callId := tool.textAt "id"
    name := function.textAt "name"
    arguments := function.textAt "arguments" }

namespace ChatToolState

/-- The fields of a tool after a fragment. -/
def merge (tool : ChatToolState) (fragment : ToolFragment) : ChatToolState :=
  { tool with
    callId := mergeField tool.callId fragment.callId
    name := mergeField tool.name fragment.name
    arguments := mergeField tool.arguments fragment.arguments }

/-- The call starts when it has an id and a name. -/
def start (tool : ChatToolState) (index : Nat) : List ModelEvent × ChatToolState :=
  if !tool.started && tool.callId ≠ "" && tool.name ≠ "" then
    ([.toolCallStart index tool.callId tool.name], { tool with started := true })
  else ([], tool)

/-- What has come of the arguments, and was not sent on. -/
def emit (tool : ChatToolState) (index : Nat) : List ModelEvent × ChatToolState :=
  if tool.started && tool.emittedArguments < tool.arguments.length then
    ([.toolCallArgumentsDelta index (String.ofList (tool.arguments.toList.drop tool.emittedArguments))],
      { tool with emittedArguments := tool.arguments.length })
  else ([], tool)

end ChatToolState

def updateChatTool (tools : Std.TreeMap Nat ChatToolState) (fragment : ToolFragment) :
    List ModelEvent × Std.TreeMap Nat ChatToolState :=
  let tool := (tools[fragment.index]?.getD .fresh).merge fragment
  let (starts, tool) := tool.start fragment.index
  let (arguments, tool) := tool.emit fragment.index
  (starts ++ arguments, tools.insert fragment.index tool)

/-- The loop of a chunk. -/
def updateChatTools (tools : Std.TreeMap Nat ChatToolState) :
    List ToolFragment → List ModelEvent × Std.TreeMap Nat ChatToolState
  | [] => ([], tools)
  | fragment :: fragments =>
    let (events, tools) := updateChatTool tools fragment
    let (more, tools) := updateChatTools tools fragments
    (events ++ more, tools)

/-! ### Chunks -/

/-- What is read of a chunk with a choice; a text that is missing is empty. -/
structure ChatChunk where
  reasoning : String
  content : String
  tools : List ToolFragment
  finish : Option String
deriving DecidableEq, Repr

def ChatChunk.read (value : Value) : Option ChatChunk := do
  let choice ← ((value.get "choices").bind Value.asArray).bind List.head?
  let delta := (choice.get "delta").getD .null
  some
    { reasoning := ((delta.get "reasoning_content" <|> delta.get "reasoning").bind Value.asStr).getD ""
      content := (delta.textAt "content").getD ""
      tools := (((delta.get "tool_calls").bind Value.asArray).getD []).mapIdx ToolFragment.read
      finish := choice.textAt "finish_reason" }

def openaiUsage (value : Value) : Usage :=
  let inputTokens := (value.get "prompt_tokens").bind Value.asU64
  { inputTokens
    contextInputTokens := inputTokens
    outputTokens := (value.get "completion_tokens").bind Value.asU64
    totalTokens := (value.get "total_tokens").bind Value.asU64
    cacheReadTokens := (value.pointer ["prompt_tokens_details", "cached_tokens"]).bind Value.asU64
    cacheWriteTokens := none
    reasoningTokens := (value.pointer ["completion_tokens_details", "reasoning_tokens"]).bind Value.asU64 }

def mapFinish (value : String) (hasTools : Bool) : FinishReason :=
  match value with
  | "tool_calls" | "function_call" => .toolUse
  | "length" => .length
  | "content_filter" => .stop
  | _ => if hasTools then .toolUse else .stop

/-! ### The loop -/

/-- What the loop keeps. -/
structure ChatState where
  textOpen : Bool
  thinkingOpen : Bool
  reasoning : String
  tools : Std.TreeMap Nat ChatToolState
  finalUsage : Option Usage
  finish : Option FinishReason

namespace ChatState

def initial : ChatState := ⟨false, false, "", ∅, none, none⟩

/-- `usage` of a chunk. -/
def noteUsage (state : ChatState) (value : Value) : ChatState :=
  match (value.get "usage").filter (· ≠ .null) with
  | some usage => { state with finalUsage := some (openaiUsage usage) }
  | none => state

/-- `reasoning_content` of a delta. -/
def think (state : ChatState) (text : String) : List ModelEvent × ChatState :=
  if text = "" then ([], state)
  else
    ((if state.thinkingOpen then [] else [.thinkingStart]) ++ [.thinkingDelta text],
      { state with thinkingOpen := true, reasoning := state.reasoning ++ text })

/-- `content` of a delta. -/
def say (state : ChatState) (text : String) : List ModelEvent × ChatState :=
  if text = "" then ([], state)
  else
    ((if state.thinkingOpen then [.thinkingEnd] else []) ++ (if state.textOpen then [] else [.textStart]) ++
      [.textDelta text], { state with thinkingOpen := false, textOpen := true })

/-- `tool_calls` of a delta. -/
def call (state : ChatState) (fragments : List ToolFragment) : List ModelEvent × ChatState :=
  let (events, tools) := updateChatTools state.tools fragments
  (events, { state with tools := tools })

/-- `finish_reason` of a choice. -/
def noteFinish (state : ChatState) (reason : Option String) : ChatState :=
  match reason with
  | some reason => { state with finish := some (mapFinish reason !state.tools.isEmpty) }
  | none => state

/-- A chunk. -/
def take (state : ChatState) (chunk : ChatChunk) : List ModelEvent × ChatState :=
  let (thought, state) := state.think chunk.reasoning
  let (said, state) := state.say chunk.content
  let (called, state) := state.call chunk.tools
  (thought ++ said ++ called, state.noteFinish chunk.finish)

def step (state : ChatState) (_event : String) (value : Value) : Written ChatState :=
  match ChatChunk.read value with
  | none => ([], .ok (state.noteUsage value))
  | some chunk =>
    let (events, state) := (state.noteUsage value).take chunk
    (events, .ok state)

/-! ### The end of the stream -/

/-- A tool at the end of the stream. -/
def endTool (index : Nat) (tool : ChatToolState) : Written Unit :=
  if tool.started then ([.toolCallEnd index], .ok ())
  else if tool.name = "" then ([], .error (.provider "OpenAI Chat tool call is missing name"))
  else
    let callId := if tool.callId = "" then "call-" ++ toString index else tool.callId
    ([.toolCallStart index callId tool.name] ++
      (if tool.arguments = "" then [] else [.toolCallArgumentsDelta index tool.arguments]) ++
      [.toolCallEnd index], .ok ())

def endTools : List (Nat × ChatToolState) → Written Unit
  | [] => ([], .ok ())
  | (index, tool) :: tools =>
    match endTool index tool with
    | (events, .error failure) => (events, .error failure)
    | (events, .ok ()) => (events ++ (endTools tools).1, (endTools tools).2)

/-- The reasoning, for the next request. -/
def replay (state : ChatState) : Option ProviderReplayState :=
  if state.reasoning = "" then none
  else some ⟨"openai_chat", .object [("reasoning_content", .string state.reasoning)]⟩

/-- The reason of an answer whose upstream gave none. -/
def closing (state : ChatState) (marker : Bool) : Option FinishReason :=
  state.finish <|> if marker then some (if state.tools.isEmpty then .stop else .toolUse) else none

def conclude (state : ChatState) (marker : Bool) : Written Unit :=
  let closed := (if state.thinkingOpen then [ModelEvent.thinkingEnd] else []) ++
    (if state.textOpen then [.textEnd] else [])
  match endTools state.tools.toList with
  | (ended, .error failure) => (closed ++ ended, .error failure)
  | (ended, .ok ()) =>
    let events := closed ++ ended ++ state.finalUsage.toList.map .usage ++
      state.replay.toList.map .providerReplayState
    match state.closing marker with
    | none => (events, .error (.provider "OpenAI Chat stream ended without finish_reason"))
    | some reason => (events ++ [.done reason], .ok ())

end ChatState

/-- `OpenAiChatProvider`. -/
def adapter : Adapter ChatState where
  label := "OpenAI Chat"
  readsMarker := true
  step := ChatState.step
  finish := ChatState.conclude

end Byok.Provider.OpenAiChat
